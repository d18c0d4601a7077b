import LayerGate.CommandLine.Run

/-!
# The program

Reads what a command needs from the real disk, runs the command on that picture of it, and writes what
the command leaves behind.
-/

namespace LayerGate.Terminal

/-- The content of a file, unless nobody will ask for it. -/
def contentAt (asked : Bool) (position : List String) : IO ByteArray :=
  if asked then IO.FS.readBinFile (Disk.absolute position) <|> pure .empty else pure .empty

/-- The names of what is in a folder. -/
def namesIn (position : List String) : IO (List String) := do
  let folder : IO.FS.DirEntry := ⟨Disk.absolute position, ""⟩
  return (← folder.root.readDir <|> pure #[]).toList.map IO.FS.DirEntry.fileName

def kindOf? (position : List String) : IO (Option IO.FS.FileType) := do
  let entry : IO.FS.DirEntry := ⟨Disk.absolute position, ""⟩
  (do return some (← entry.root.symlinkMetadata).type) <|> pure none

/-- Where a link leads in the end, or the link itself if it leads nowhere. -/
def targetAt (position : List String) : IO String := do
  let path := Disk.absolute position
  (do return (← IO.FS.realPath path).toString) <|> pure path

/-- The picture of the disk, with all that the names from `here` on lead to.  A folder at their end is
taken with all that is in it, though not with what stands in files of folders that are never
entered. -/
partial def pictured (asked : Bool) (d : Disk) (here : List String) : List String → IO Disk
  | [] => do
    (← namesIn here).foldlM (fun d name =>
      pictured (asked && !Scan.skippedFolders.contains name) d here [name]) d
  | ".." :: rest => pictured asked d here.dropLast rest
  | name :: rest => do
    let next := here ++ [name]
    match ← kindOf? next with
    | some .dir =>
      if (d.at? next).isNone then pictured asked (d.putAt next (.folder [])) next rest
      else if rest = [] then return d
      else pictured asked d next rest
    | some .file => return d.putAt next (.file (← contentAt asked next))
    | some .symlink =>
      let target ← targetAt next
      let d := d.putAt next (.link target)
      if Path.names target = next then return d
      else pictured asked d [] (Path.names target ++ rest)
    | _ => return d

/-- The paths that a request names. -/
def pathsOf (r : CommandLine.Request) : List String :=
  r.scope.root :: r.scope.config.toList ++ match r with
    | .check _ _ _ output => output.toList.map Path.parent
    | .verify _ report => [report]
    | .path _ _ _ => []

/-- The homes of users, as the system lists them. -/
def homes : IO (List (String × String)) := do
  let users ← IO.FS.lines "/etc/passwd" <|> pure #[]
  let current ← IO.getEnv "HOME"
  return (current.map fun home => ("", home)).toList ++ users.toList.filterMap fun line =>
    match Text.split ':' line with
    | [name, _, _, _, _, home, _] => some (name, home)
    | _ => none

def usage : String :=
  "usage: layercheck check [ROOT] [--config FILE] [--timeout SECONDS] [-v | -q]\n" ++
  "                        [--format text|structured] [--blocking CODE | --no-blocking]\n" ++
  "                        [--output FILE]\n" ++
  "       layercheck verify [ROOT] --report FILE [--config FILE] [--timeout SECONDS] [-v | -q]\n" ++
  "       layercheck path ROOT SOURCE TARGET [--config FILE] [--timeout SECONDS] [-v | -q]\n"

/-- Writes the report file of an answer to the real disk. -/
def keep (s : CommandLine.Surroundings) (r : CommandLine.Request) (a : CommandLine.Answer) :
    IO Unit := do
  match r with
  | .check _ _ _ (some output) =>
    let .ok path := s.withHome output | return
    let .ok (.file content) := a.disk.look s.folder (Path.plain path) | return
    if a.exit = .pass ∨ a.exit = .findings then IO.FS.writeBinFile (Path.plain path) content
  | _ => return

def run (r : CommandLine.Request) : IO UInt32 := do
  let start ← IO.monoNanosNow
  let homes ← homes
  let here := Path.names (← IO.currentDir).toString
  let quiet : CommandLine.Surroundings := ⟨here, (homes.lookup ·), ⟨fun _ => 0, none⟩, .ample⟩
  let wanted := (pathsOf r).filterMap fun path => (quiet.withHome path).toOption
  let named := wanted.map fun path =>
    if path.startsWith "/" then Path.names path else here ++ Path.names path
  let disk ← named.foldlM (fun d names => pictured true d [] names) (.folder [])
  let elapsed := (← IO.monoNanosNow) - start
  let s := { quiet with clock := ⟨fun _ => elapsed.toFloat / 1000000000, none⟩ }
  let journal := r.run s disk
  for note in journal.notes do
    IO.eprintln (note.level.word ++ " " ++ note.text)
  match journal.result with
  | .ok a =>
    IO.print a.output
    IO.eprint a.errors
    keep s r a
    return a.exit.number.toUInt32
  | .error fault =>
    IO.eprintln (CommandLine.programName ++ ": " ++ fault.message)
    return 1

end LayerGate.Terminal

def main (words : List String) : IO UInt32 := do
  match LayerGate.CommandLine.Request.ofWords words with
  | .ok request => LayerGate.Terminal.run request
  | .error (.help _) =>
    IO.print LayerGate.Terminal.usage
    return 0
  | .error (.refused refusal) =>
    IO.eprint LayerGate.Terminal.usage
    IO.eprintln refusal.message
    return 2
