import DeclarationIndex.Arity
import DeclarationIndex.Location
import DeclarationIndex.Visibility

/-!
Entries: one for each declaration met. What only some declarations have, such as a superclass or
an owner, belongs to their kind.
-/

namespace DeclarationIndex

inductive EntryKind where
  | classEntry (superclass : Option String)
  | moduleEntry
  | constant
  /-- A constant whose value is another constant, and the namespaces it was written in. -/
  | unresolvedAlias (target : String) (nesting : List String)
  | method (owner : Option String) (parameters : List Parameter)
  deriving DecidableEq, Inhabited

def EntryKind.name : EntryKind → String
  | classEntry _ => "class"
  | moduleEntry => "module"
  | constant => "constant"
  | unresolvedAlias _ _ => "unresolved_alias"
  | method _ _ => "method"

structure Entry where
  name : String
  filePath : String
  location : Location
  comments : List String
  visibility : Visibility
  kind : EntryKind
  deriving DecidableEq, Inhabited

namespace Entry

def isMethod (entry : Entry) : Bool :=
  match entry.kind with
  | .method _ _ => true
  | _ => false

def isAlias (entry : Entry) : Bool :=
  match entry.kind with
  | .unresolvedAlias _ _ => true
  | _ => false

def owner (entry : Entry) : Option String :=
  match entry.kind with
  | .method owner _ => owner
  | _ => none

def parameters (entry : Entry) : List Parameter :=
  match entry.kind with
  | .method _ parameters => parameters
  | _ => []

def accepts (entry : Entry) (count : Nat) : Bool :=
  match entry.kind with
  | .method _ parameters => (Arity.ofParameters parameters).accepts count
  | _ => false

def withVisibility (entry : Entry) (visibility : Visibility) : Entry :=
  { entry with visibility }

def locationText (entry : Entry) : String :=
  entry.filePath ++ ":" ++ entry.location.render

end Entry

end DeclarationIndex
