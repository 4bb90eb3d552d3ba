import DeclarationIndex.Configuration.Basic
import DeclarationIndex.Yaml.Node

/-!
Reading a configuration from YAML: a mapping from the two known keys to lists of texts. Scalars
count as they are written. Patterns are checked before markers.
-/

namespace DeclarationIndex.Configuration

def itemText? : Yaml.Node → Option String
  | .scalar _ text _ => some text
  | _ => none

/-- Nothing is written where a plain scalar is empty. -/
def isNothing : Yaml.Node → Bool
  | .scalar _ text isPlain => isPlain && text.isEmpty
  | _ => false

section Document

variable (document : Yaml.Node)

def texts? (node : Yaml.Node) : Option (List String) :=
  match document.resolve node with
  | .sequence _ items => items.mapM fun item => itemText? (document.resolve item)
  | other => if isNothing other then some [] else none

def keyOf? (pair : Yaml.Node × Yaml.Node) : Option String :=
  itemText? (document.resolve pair.1)

/-- The texts under a key, which may stand there at most once. -/
def textsUnder? (key : String) (pairs : List (Yaml.Node × Yaml.Node)) : Option (List String) :=
  match pairs.filter fun pair => keyOf? document pair == some key with
  | [] => some []
  | [pair] => texts? document pair.2
  | _ => none

def hasKnownKey (pair : Yaml.Node × Yaml.Node) : Bool :=
  match keyOf? document pair with
  | some key => key == "excluded_patterns" || key == "excluded_magic_comments"
  | none => false

end Document

def ofNode? (document : Yaml.Node) : Option Configuration :=
  match document with
  | .mapping _ pairs => do
      if pairs.all (hasKnownKey document) then
        some ⟨← textsUnder? document "excluded_patterns" pairs,
          ← textsUnder? document "excluded_magic_comments" pairs⟩
      else none
  | other => if isNothing other then some default else none

/-- The configuration of a text before it is checked; a missing document is the default. -/
def ofYaml? (text : String) : Option Configuration :=
  match Yaml.read? text with
  | some (some node) => ofNode? node
  | some none => some default
  | none => none

def check (configuration : Configuration) : Except Failure Configuration := do
  let _ ← configuration.globs
  if configuration.excludedMagicComments.any isAllBlank then .error .emptyMarker
  else .ok configuration

def ofText (text : String) : Except Failure Configuration :=
  if isAllBlank text then .ok default
  else
    match ofYaml? text with
    | some configuration => configuration.check
    | none => .error .malformedConfiguration

end DeclarationIndex.Configuration
