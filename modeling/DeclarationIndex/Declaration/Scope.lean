import DeclarationIndex.Entry
import DeclarationIndex.Naming

/-!
What a walk over a tree carries and leaves behind. It carries a scope: the enclosing namespaces
and, for each enclosing body, the visibility its next method gets. It leaves a list of changes
to make to an index, in order. A walk never looks at the index.
-/

namespace DeclarationIndex

inductive Change where
  | declare (entry : Entry)
  /-- Whatever has the full name becomes private. -/
  | hide (name : String)
  | setMethodVisibility (name : String) (owner : Option String) (visibility : Visibility)
  deriving DecidableEq, Inhabited

def Change.declared? : Change → Option Entry
  | .declare entry => some entry
  | _ => none

structure Scope where
  /-- Local names of the enclosing classes and modules, outermost first. -/
  nesting : List String
  /-- Visibility in force in each enclosing body, innermost first. -/
  sections : List Visibility
  deriving DecidableEq, Inhabited

namespace Scope

def topLevel : Scope :=
  ⟨[], [.isPublic]⟩

def current (scope : Scope) : Visibility :=
  scope.sections.headD .isPublic

def setCurrent (scope : Scope) (visibility : Visibility) : Scope :=
  match scope.sections with
  | [] => scope
  | _ :: outer => { scope with sections := visibility :: outer }

def openBody (scope : Scope) : Scope :=
  { scope with sections := .isPublic :: scope.sections }

def closeBody (scope : Scope) : Scope :=
  { scope with sections := scope.sections.tail }

def openNamespace (scope : Scope) (name : String) : Scope :=
  { scope with nesting := scope.nesting ++ [name] }

def closeNamespace (scope : Scope) : Scope :=
  { scope with nesting := scope.nesting.dropLast }

def owner (scope : Scope) : Option String :=
  Naming.namespaceOf scope.nesting

def qualify (scope : Scope) (name : String) : String :=
  Naming.qualify scope.nesting name

end Scope

/-- A part of a walk: from the scope before it to the changes it makes and the scope after it. -/
def Walk : Type :=
  Scope → List Change × Scope

namespace Walk

def done : Walk :=
  fun scope => ([], scope)

def andThen (first second : Walk) : Walk :=
  fun scope =>
    let before := first scope
    let after := second before.2
    (before.1 ++ after.1, after.2)

def emit (changes : Scope → List Change) : Walk :=
  fun scope => (changes scope, scope)

def startSection (visibility : Visibility) : Walk :=
  fun scope => ([], scope.setCurrent visibility)

def inBody (walk : Walk) : Walk :=
  fun scope =>
    let inner := walk scope.openBody
    (inner.1, inner.2.closeBody)

def inNamespace (name : String) (walk : Walk) : Walk :=
  fun scope =>
    let inner := inBody walk (scope.openNamespace name)
    (inner.1, inner.2.closeNamespace)

end Walk

end DeclarationIndex
