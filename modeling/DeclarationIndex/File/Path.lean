/-!
Paths as text: their parts, the name of the file, and its extension. A dot stands for nothing
except at the start, where it is a part of its own.
-/

namespace DeclarationIndex

inductive PathPart where
  | root
  | here
  | up
  | name (text : String)
  deriving DecidableEq, Inhabited

namespace Path

def splitSlashes : List Char → List (List Char)
  | [] => [[]]
  | c :: rest =>
      match splitSlashes rest with
      | [] => [[c]]
      | piece :: pieces => if c == '/' then [] :: piece :: pieces else (c :: piece) :: pieces

def pieces (path : String) : List String :=
  (splitSlashes path.toList).map String.ofList

def laterPart? (piece : String) : Option PathPart :=
  if piece == "" || piece == "." then none
  else if piece == ".." then some .up
  else some (.name piece)

/-- The parts of a path; paths with equal parts are equal. -/
def parts (path : String) : List PathPart :=
  match pieces path with
  | [] => []
  | first :: rest =>
      let start :=
        if first == "" then (if rest.isEmpty then none else some .root)
        else if first == "." then some .here
        else laterPart? first
      start.toList ++ rest.filterMap laterPart?

def fileName? (path : String) : Option String :=
  match (parts path).getLast? with
  | some (.name text) => some text
  | _ => none

def extensionOf (name : String) : Option String :=
  let reversed := name.toList.reverse
  match reversed.dropWhile (· != '.') with
  | '.' :: _ :: _ => some (String.ofList (reversed.takeWhile (· != '.')).reverse)
  | _ => none

def extension? (path : String) : Option String :=
  (fileName? path).bind extensionOf

def sourceExtensions : List String :=
  ["rb", "rake", "gemspec", "ru", "rbi"]

def sourceNames : List String :=
  ["Gemfile", "Rakefile"]

def isSource (path : String) : Bool :=
  (extension? path).any sourceExtensions.contains || (fileName? path).any sourceNames.contains

end Path

end DeclarationIndex
