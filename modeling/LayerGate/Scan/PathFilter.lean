import LayerGate.Pattern.Wildcard

/-!
# Path filters

Which paths are analysed: those that an include pattern matches, if there are any, and no exclude
pattern does.
-/

namespace LayerGate

structure PathFilter where
  included : List String
  excluded : List String
  deriving DecidableEq, Repr

def PathFilter.accepts (f : PathFilter) (path : String) : Bool :=
  (f.included.isEmpty || Pattern.anyMatches f.included path) && !Pattern.anyMatches f.excluded path

end LayerGate
