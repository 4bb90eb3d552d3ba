/-!
Names of constants. A path is made of segments with a separator between them; one that starts
with the separator is rooted and starts again from the top level.
-/

namespace DeclarationIndex.Naming

def separator : String := "::"

theorem toList_separator : separator.toList = [':', ':'] :=
  rfl

def stripRoot? (path : String) : Option String :=
  match path.toList with
  | ':' :: ':' :: rest => some (String.ofList rest)
  | _ => none

def isRooted (path : String) : Bool :=
  (stripRoot? path).isSome

def dropSeparators : List Char → List Char
  | ':' :: ':' :: rest => dropSeparators rest
  | path => path

def unrooted (path : String) : String :=
  String.ofList (dropSeparators path.toList)

def startsUppercase (name : String) : Bool :=
  match name.toList with
  | first :: _ => 'A' ≤ first && first ≤ 'Z'
  | [] => false

/-- Names of classes and modules that can be told without running the program. -/
def isConstantPath (name : String) : Bool :=
  isRooted name || startsUppercase name

def join : List String → String
  | [] => ""
  | [segment] => segment
  | segment :: next :: rest => segment ++ separator ++ join (next :: rest)

/-- The part of the nesting that still counts: from the last rooted name on. -/
def fromLastRooted : List String → List String
  | [] => []
  | name :: rest => if rest.any isRooted then fromLastRooted rest else name :: rest

def namespaceOf (nesting : List String) : Option String :=
  match fromLastRooted nesting with
  | [] => none
  | names => some (join (names.map unrooted))

/-- The full name of a local name: a rooted one stands alone, any other goes under the namespace. -/
def qualify (nesting : List String) (name : String) : String :=
  match stripRoot? name with
  | some rooted => rooted
  | none =>
      match namespaceOf nesting with
      | some outer => outer ++ separator ++ name
      | none => name

end DeclarationIndex.Naming
