import LayerGate.Text.Quoted

/-!
# UTF-8

Strict decoding that says where and why it stops, and decoding that puts U+FFFD for each part that
does not decode.  An ill-formed part is a longest prefix of some well-formed character, or one byte
if no character starts with it.
-/

namespace LayerGate.Text.Utf8

inductive Reason where
  | start
  | continuation
  | unfinished
  deriving DecidableEq, Repr

/-- The first byte that does not decode, where it stands and how many bytes are at fault. -/
structure Fault where
  byte : UInt8
  position : Nat
  length : Nat
  reason : Reason
  deriving DecidableEq, Repr

def Reason.message : Reason → String
  | .start => "invalid start byte"
  | .continuation => "invalid continuation byte"
  | .unfinished => "unexpected end of data"

def Fault.message (f : Fault) : String :=
  let place :=
    if f.length = 1 then
      "byte 0x" ++ String.ofList (hexPadded 2 f.byte.toNat) ++ " in position " ++ toString f.position
    else
      "bytes in position " ++ toString f.position ++ "-" ++ toString (f.position + f.length - 1)
  "'utf-8' codec can't decode " ++ place ++ ": " ++ f.reason.message

/-- What stands at the front: a character and the number of bytes after its first, or a reason and
the number of bytes at fault. -/
inductive Step where
  | char (c : Char) (more : Nat)
  | bad (reason : Reason) (length : Nat)

/-- The lowest and the highest second byte after a first byte, and how many bytes follow it. -/
def shape? (b : UInt8) : Option (Nat × UInt8 × UInt8) :=
  if b < 0xC2 then none
  else if b < 0xE0 then some (1, 0x80, 0xBF)
  else if b = 0xE0 then some (2, 0xA0, 0xBF)
  else if b = 0xED then some (2, 0x80, 0x9F)
  else if b < 0xF0 then some (2, 0x80, 0xBF)
  else if b = 0xF0 then some (3, 0x90, 0xBF)
  else if b < 0xF4 then some (3, 0x80, 0xBF)
  else if b = 0xF4 then some (3, 0x80, 0x8F)
  else none

/-- Reads `more` further bytes of a character of which `taken` bytes have given `value`; the next
one has to lie between `low` and `high`. -/
def tail (value taken : Nat) (low high : UInt8) : Nat → List UInt8 → Step
  | 0, _ => .char (Char.ofNat value) (taken - 1)
  | _ + 1, [] => .bad .unfinished taken
  | more + 1, b :: bs =>
    if low ≤ b ∧ b ≤ high then tail (value * 64 + b.toNat % 64) (taken + 1) 0x80 0xBF more bs
    else .bad .continuation taken

def step (b : UInt8) (bs : List UInt8) : Step :=
  if b < 0x80 then .char (Char.ofNat b.toNat) 0
  else match shape? b with
    | none => .bad .start 1
    | some (more, low, high) => tail (b.toNat % Nat.pow 2 (6 - more)) 1 low high more bs

def decodeFrom (position : Nat) : List UInt8 → Except Fault (List Char)
  | [] => .ok []
  | b :: bs =>
    match step b bs with
    | .bad reason length => .error ⟨b, position, length, reason⟩
    | .char c more => (decodeFrom (position + 1 + more) (bs.drop more)).map (c :: ·)
termination_by bs => bs.length
decreasing_by
  simp only [List.length_drop, List.length_cons]
  omega

def decode (bytes : ByteArray) : Except Fault (List Char) := decodeFrom 0 bytes.data.toList

def repairFrom : List UInt8 → List Char
  | [] => []
  | b :: bs =>
    match step b bs with
    | .bad _ length => '\uFFFD' :: repairFrom (bs.drop (length - 1))
    | .char c more => c :: repairFrom (bs.drop more)
termination_by bs => bs.length
decreasing_by
  all_goals
    simp only [List.length_drop, List.length_cons]
    omega

/-- Decodes with U+FFFD for each ill-formed part. -/
def repair (bytes : ByteArray) : List Char := repairFrom bytes.data.toList

end LayerGate.Text.Utf8
