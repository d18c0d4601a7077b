import LayerGate.Order
import LayerGate.Pattern.Wildcard

/-!
# Layers and rules

Which files make up a layer, and on which layers it may depend.  A file that no layer claims is
unclassified, and that word is no layer's name.
-/

namespace LayerGate

/-- The tag of a file that no layer claims. -/
def unclassifiedTag : String := "Unclassified"

structure Layer where
  name : String
  globs : List String
  deriving DecidableEq, Repr

/-- The layers that one layer may depend on. -/
structure Rule where
  source : String
  targets : List String
  deriving DecidableEq, Repr

/-- What becomes of unclassified files: each is a finding, or their imports are judged by the rules,
or they are left alone. -/
inductive Unclassified where
  | deny
  | allow
  | ignore
  deriving DecidableEq, Repr

def Unclassified.word : Unclassified → String
  | .deny => "deny"
  | .allow => "allow"
  | .ignore => "ignore"

structure Layers where
  layers : List Layer
  rules : List Rule
  unclassified : Unclassified
  deriving DecidableEq, Repr

namespace Layers

def builtinLayers : List Layer :=
  [⟨"Domain", ["domain/*", "*/domain/*"]⟩,
    ⟨"Application", ["application/*", "*/application/*"]⟩,
    ⟨"Infrastructure", ["infrastructure/*", "*/infrastructure/*"]⟩]

def builtinRules : List Rule :=
  [⟨"Domain", ["Domain"]⟩,
    ⟨"Application", ["Application", "Domain"]⟩,
    ⟨"Infrastructure", ["Infrastructure", "Application", "Domain"]⟩]

def builtin : Layers := ⟨builtinLayers, builtinRules, .deny⟩

/-! ## Which layers and rules are accepted -/

inductive Fault where
  | reservedName
  | duplicateLayer (name : String)
  | duplicateRule (source : String)
  | unknownLayer (source name : String)
  deriving DecidableEq, Repr

def Fault.message : Fault → String
  | .reservedName => "'" ++ unclassifiedTag ++ "' is reserved and cannot be defined as a layer"
  | .duplicateLayer name => "Duplicate layer name '" ++ name ++ "'"
  | .duplicateRule source => "Duplicate rule for layer '" ++ source ++ "'"
  | .unknownLayer source name =>
    "Rule for '" ++ source ++ "' references unknown layer '" ++ name ++ "'"

/-- The first name that is reserved or was there before. -/
def nameFault? (seen : List String) : List String → Option Fault
  | [] => none
  | name :: rest =>
    if name = unclassifiedTag then some .reservedName
    else if name ∈ seen then some (.duplicateLayer name)
    else nameFault? (name :: seen) rest

/-- The first rule that repeats a source or speaks of a layer that is not known. -/
def ruleFault? (known sources : List String) : List Rule → Option Fault
  | [] => none
  | rule :: rest =>
    if rule.source ∈ sources then some (.duplicateRule rule.source)
    else match (rule.source :: rule.targets).find? (· ∉ known) with
      | some name => some (.unknownLayer rule.source name)
      | none => ruleFault? known (rule.source :: sources) rest

def names (l : Layers) : List String := l.layers.map Layer.name

def fault? (l : Layers) : Option Fault :=
  (nameFault? [] l.names).or (ruleFault? (unclassifiedTag :: l.names) [] l.rules)

theorem nameFault?_eq_none_iff {seen names : List String} :
    nameFault? seen names = none ↔
      unclassifiedTag ∉ names ∧ names.Nodup ∧ ∀ n ∈ names, n ∉ seen := by
  induction names generalizing seen with
  | nil => simp [nameFault?]
  | cons n rest ih =>
    rw [nameFault?]
    split
    · rename_i h; simp [h]
    · rename_i h
      split
      · rename_i hs; simp [hs]
      · rename_i hs
        rw [ih]
        constructor
        · rintro ⟨h₁, h₂, h₃⟩
          refine ⟨by simp [h₁, Ne.symm h], List.nodup_cons.2 ⟨fun hn => ?_, h₂⟩, ?_⟩
          · exact h₃ n hn (List.mem_cons_self ..)
          · intro m hm
            rcases List.mem_cons.1 hm with rfl | hm
            · exact hs
            · exact fun hms => h₃ m hm (List.mem_cons_of_mem _ hms)
        · rintro ⟨h₁, h₂, h₃⟩
          obtain ⟨h₄, h₅⟩ := List.nodup_cons.1 h₂
          refine ⟨fun hm => h₁ (List.mem_cons_of_mem _ hm), h₅, fun m hm hms => ?_⟩
          rcases List.mem_cons.1 hms with rfl | hms
          · exact h₄ hm
          · exact h₃ m (List.mem_cons_of_mem _ hm) hms

/-! ## Classification and the matrix -/

/-- The first layer with a pattern for the path claims the file. -/
def classify (l : Layers) (path : String) : String :=
  match l.layers.find? fun layer => Pattern.anyMatches layer.globs path with
  | some layer => layer.name
  | none => unclassifiedTag

/-- The layers that `source` may depend on: those of its last rule, or none. -/
def allowed (l : Layers) (source : String) : List String :=
  match l.rules.reverse.find? (·.source = source) with
  | some rule => rule.targets
  | none => []

def permits (l : Layers) (source target : String) : Bool := (l.allowed source).contains target

/-- Every layer, and the tag of unclassified files, with what it may depend on. -/
def matrix (l : Layers) : List (String × List String) :=
  (sortedDistinct (unclassifiedTag :: l.names)).map fun name => (name, sortedDistinct (l.allowed name))

end Layers

end LayerGate
