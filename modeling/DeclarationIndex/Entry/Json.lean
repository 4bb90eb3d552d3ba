import DeclarationIndex.Entry
import DeclarationIndex.Json.Read
import DeclarationIndex.Json.Write

/-!
Entries as JSON. An absent superclass or owner is left out when written, and may be left out or
null when read; fields of other names do not matter, and repeated fields are refused.
-/

namespace DeclarationIndex

namespace Location

def toJson (location : Location) : Json :=
  .object [("start_line", .natural location.startLine.toNat),
    ("start_column", .natural location.startColumn.toNat),
    ("end_line", .natural location.endLine.toNat),
    ("end_column", .natural location.endColumn.toNat)]

def word32? (value : Json) : Option UInt32 :=
  match value.natural? with
  | some number => if number < UInt32.size then some (UInt32.ofNat number) else none
  | none => none

def ofJson? (value : Json) : Option Location :=
  match value.record? ["start_line", "start_column", "end_line", "end_column"] with
  | some [some startLine, some startColumn, some endLine, some endColumn] => do
      some ⟨← word32? startLine, ← word32? startColumn, ← word32? endLine, ← word32? endColumn⟩
  | _ => none

end Location

namespace Visibility

def ofJson? (value : Json) : Option Visibility :=
  (value.word? Json.isNull).bind ofName?

end Visibility

namespace Parameter

def toJson (parameter : Parameter) : Json :=
  .object [("name", .string parameter.name), ("kind", .string parameter.kind.name)]

/-- The kind of a parameter may be the name of a field that holds nothing, as told. -/
def ofJson? (holdsNothing : Json → Bool) (value : Json) : Option Parameter :=
  match value.record? ["name", "kind"] with
  | some [some name, some kind] => do
      some ⟨← name.text?, ← (kind.word? holdsNothing).bind ParameterKind.ofName?⟩
  | _ => none

def listOfJson? (holdsNothing : Json → Bool) (value : Json) : Option (List Parameter) :=
  value.items?.bind fun items => items.mapM (ofJson? holdsNothing)

end Parameter

namespace EntryKind

def optionalField (name : String) : Option String → List (String × Json)
  | some text => [(name, .string text)]
  | none => []

def fields : EntryKind → List (String × Json)
  | classEntry superclass => optionalField "superclass" superclass
  | moduleEntry => []
  | constant => []
  | unresolvedAlias target nesting => [("target", .string target), ("nesting", .strings nesting)]
  | method owner parameters =>
      optionalField "owner" owner ++ [("parameters", .array (parameters.map Parameter.toJson))]

def toJson (kind : EntryKind) : Json :=
  .object (("type", .string kind.name) :: kind.fields)

def tagged? : Json → Option (String × Json)
  | .object fields =>
      match Json.uniqueField? fields "type" with
      | some (some (.string tag)) => some (tag, .object fields)
      | _ => none
  | .array (.string tag :: items) => some (tag, .array items)
  | _ => none

def optionalText? : Option Json → Option (Option String)
  | none | some .null => some none
  | some (.string text) => some (some text)
  | some _ => none

def bare? (kind : EntryKind) : Json → Option EntryKind
  | .array (_ :: _) => none
  | _ => some kind

def ofTagged? (tag : String) (record : Json) : Option EntryKind :=
  match tag with
  | "class" =>
      match record.record? ["superclass"] with
      | some [superclass] => (optionalText? superclass).map classEntry
      | _ => none
  | "module" => bare? moduleEntry record
  | "constant" => bare? constant record
  | "unresolved_alias" =>
      match record.record? ["target", "nesting"] with
      | some [some target, some nesting] => do
          some (unresolvedAlias (← target.text?) (← nesting.texts?))
      | _ => none
  | "method" =>
      match record.record? ["owner", "parameters"] with
      | some [owner, some parameters] => do
          some (method (← optionalText? owner)
            (← Parameter.listOfJson? Json.isNullOrEmpty parameters))
      | _ => none
  | _ => none

def deepest : Nat := 126

/-- The whole kind is kept until its tag is known, so all of it must be sound, the fields that do
not matter included. -/
def ofJson? (value : Json) : Option EntryKind :=
  if value.isSound deepest then
    match tagged? value with
    | some (tag, record) => ofTagged? tag record
    | none => none
  else none

end EntryKind

namespace Entry

def fields (entry : Entry) : List (String × Json) :=
  [("name", .string entry.name), ("file_path", .string entry.filePath),
    ("location", entry.location.toJson), ("comments", .strings entry.comments),
    ("visibility", .string entry.visibility.name), ("kind", entry.kind.toJson)]

def toJson (entry : Entry) : Json :=
  .object entry.fields

def ofJson? (value : Json) : Option Entry :=
  match value.record? ["name", "file_path", "location", "comments", "visibility", "kind"] with
  | some [some name, some filePath, some location, some comments, some visibility, some kind] => do
      some
        { name := ← name.text?
          filePath := ← filePath.text?
          location := ← Location.ofJson? location
          comments := ← comments.texts?
          visibility := ← Visibility.ofJson? visibility
          kind := ← EntryKind.ofJson? kind }
  | _ => none

def write (entry : Entry) : String :=
  entry.toJson.compact

def read? (text : String) : Option Entry :=
  (Json.parse? text).bind ofJson?

end Entry

end DeclarationIndex
