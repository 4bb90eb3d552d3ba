import DeclarationIndex.Text.Blank

/-!
Magic comments: directives to tools, which are never documentation. A hash sign, optional white
space, one of the markers and a colon start one.
-/

namespace DeclarationIndex.MagicComment

def builtInMarkers : List String :=
  ["frozen_string_literal", "typed", "compiled", "encoding", "shareable_constant_value",
    "warn_indent", "rubocop", "nodoc", "doc", "coding", "warn_past_scope"]

def startsWithMarker (markers : List String) (text : List Char) : Bool :=
  markers.any (fun marker => (marker.toList ++ [':']).isPrefixOf text)

/-- Whether a marker follows after some of the leading white space; a marker may itself start
with white space, so every split is tried. -/
def markerAfterBlanks (markers : List String) : List Char → Bool
  | [] => startsWithMarker markers []
  | c :: rest =>
      startsWithMarker markers (c :: rest) || (isBlank c && markerAfterBlanks markers rest)

def isMagic (markers : List String) (text : String) : Bool :=
  match text.toList with
  | '#' :: rest => markerAfterBlanks markers rest
  | _ => false

def isRegexOperator (c : Char) : Bool :=
  "\\.+*?()|[]\x7b\x7d^$#&-~".toList.contains c

def escape (marker : String) : String :=
  String.ofList (marker.toList.flatMap fun c => if isRegexOperator c then ['\\', c] else [c])

/-- The same language as a regular expression. -/
def pattern (markers : List String) : String :=
  "^#\\s*(" ++ String.intercalate "|" (markers.map escape) ++ "):"

end DeclarationIndex.MagicComment
