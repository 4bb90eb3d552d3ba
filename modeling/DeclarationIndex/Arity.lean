import DeclarationIndex.Parameter

/-!
How many positional arguments a parameter list takes: the required ones, then the optional ones,
then any number if a rest parameter stands in the list. Keywords and blocks take none.
-/

namespace DeclarationIndex

structure Arity where
  required : Nat
  optional : Nat
  hasRest : Bool
  deriving DecidableEq, Inhabited

namespace Arity

def empty : Arity :=
  ⟨0, 0, false⟩

def add (arity : Arity) : ParameterKind → Arity
  | .required | .postRequired => { arity with required := arity.required + 1 }
  | .optional => { arity with optional := arity.optional + 1 }
  | .rest | .forward => { arity with hasRest := true }
  | .keyword | .keywordRest | .block => arity

def ofParameters (parameters : List Parameter) : Arity :=
  parameters.foldl (fun arity parameter => arity.add parameter.kind) empty

/-- The most positional arguments a call may have, none when there is no bound. -/
def maximum (arity : Arity) : Option Nat :=
  if arity.hasRest then none else some (arity.required + arity.optional)

def accepts (arity : Arity) (count : Nat) : Bool :=
  arity.required ≤ count &&
    match arity.maximum with
    | none => true
    | some maximum => count ≤ maximum

end Arity

end DeclarationIndex
