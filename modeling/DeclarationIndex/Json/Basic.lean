import DeclarationIndex.Decimal.Range

/-!
JSON values. A number is kept as it is written, and an object keeps its fields in the order they
are written, repeated names included.
-/

namespace DeclarationIndex

inductive Json where
  | null
  | bool (value : Bool)
  | number (literal : String)
  | string (text : String)
  | array (items : List Json)
  | object (fields : List (String × Json))
  /-- A string, or an object with a field name, that holds half of a surrogate pair: it is written
  in proper form, but has no value. -/
  | unpaired
  deriving Inhabited

namespace Json

def natural (number : Nat) : Json :=
  .number (String.ofList (Nat.toDigits 10 number))

def ofOption : Option Json → Json
  | some value => value
  | none => .null

def strings (texts : List String) : Json :=
  .array (texts.map .string)

def text? : Json → Option String
  | .string text => some text
  | _ => none

def items? : Json → Option (List Json)
  | .array items => some items
  | _ => none

def texts? (value : Json) : Option (List String) :=
  match value with
  | .array items => items.mapM text?
  | _ => none

def digitsToNat (digits : List Char) : Nat :=
  digits.foldl (fun number digit => 10 * number + (digit.toNat - '0'.toNat)) 0

def natural? : Json → Option Nat
  | .number literal =>
      let digits := literal.toList
      if !digits.isEmpty && digits.all Char.isDigit then some (digitsToNat digits) else none
  | _ => none

/-- The value of a field; none if the field is repeated, and no value if it is absent. -/
def uniqueField? (fields : List (String × Json)) (name : String) : Option (Option Json) :=
  match fields.filter (·.1 == name) with
  | [] => some none
  | [field] => some (some field.2)
  | _ => none

/-- The values of the named fields of a record. A record is written as an object, where other
fields do not matter, or as the array of all its values in order. -/
def record? (names : List String) : Json → Option (List (Option Json))
  | .object fields => names.mapM (uniqueField? fields)
  | .array items => if items.length = names.length then some (items.map some) else none
  | _ => none

def isNull : Json → Bool
  | .null => true
  | _ => false

def isNullOrEmpty : Json → Bool
  | .null => true
  | .object [] => true
  | _ => false

/-- A word out of a list of words, written as a string or as the name of a single field that
holds nothing. -/
def word? (holdsNothing : Json → Bool) : Json → Option String
  | .string word => some word
  | .object [(word, value)] => if holdsNothing value then some word else none
  | _ => none

mutual

/-- Whether all of a value can be kept: nothing in it is unpaired, its numbers are within the
range of doubles, and it is nested at most so deep. -/
def isSound (depth : Nat) : Json → Bool
  | .null => true
  | .bool _ => true
  | .number literal => Decimal.inRange literal.toList
  | .string _ => true
  | .array items =>
      match depth with
      | 0 => false
      | depth + 1 => areSound depth items
  | .object fields =>
      match depth with
      | 0 => false
      | depth + 1 => areSoundFields depth fields
  | .unpaired => false

def areSound (depth : Nat) : List Json → Bool
  | [] => true
  | item :: items => isSound depth item && areSound depth items

def areSoundFields (depth : Nat) : List (String × Json) → Bool
  | [] => true
  | (_, value) :: fields => isSound depth value && areSoundFields depth fields

end

end Json

end DeclarationIndex
