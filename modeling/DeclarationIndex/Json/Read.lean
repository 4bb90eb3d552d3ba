import DeclarationIndex.Json.Basic

/-!
Reading JSON. Each reader takes what it reads off the front of the text and gives back the rest;
the depth of calls is bounded by the length of the text. Half of a surrogate pair is no mistake in
form: what holds it is read, but has no value.
-/

namespace DeclarationIndex.Json

def isJsonBlank (c : Char) : Bool :=
  c == ' ' || c == '\n' || c == '\t' || c == '\r'

def skipBlank (text : List Char) : List Char :=
  text.dropWhile isJsonBlank

def hexValue? (c : Char) : Option Nat :=
  if '0' ≤ c && c ≤ '9' then some (c.toNat - '0'.toNat)
  else if 'a' ≤ c && c ≤ 'f' then some (c.toNat - 'a'.toNat + 10)
  else if 'A' ≤ c && c ≤ 'F' then some (c.toNat - 'A'.toNat + 10)
  else none

def codeUnit? (a b c d : Char) : Option Nat := do
  let a ← hexValue? a
  let b ← hexValue? b
  let c ← hexValue? c
  let d ← hexValue? d
  some (((a * 16 + b) * 16 + c) * 16 + d)

def isHighSurrogate (unit : Nat) : Bool :=
  0xd800 ≤ unit && unit < 0xdc00

def isLowSurrogate (unit : Nat) : Bool :=
  0xdc00 ≤ unit && unit < 0xe000

def unescape? (c : Char) : Option Char :=
  if c == '\x22' || c == '\\' || c == '/' then some c
  else if c == 'b' then some '\x08'
  else if c == 'f' then some '\x0c'
  else if c == 'n' then some '\n'
  else if c == 'r' then some '\r'
  else if c == 't' then some '\t'
  else none

inductive StringPart where
  | char (c : Char)
  | surrogate (unit : Nat)

def StringPart.ofCodeUnit (unit : Nat) : StringPart :=
  if isHighSurrogate unit || isLowSurrogate unit then .surrogate unit else .char (Char.ofNat unit)

def prepend {α : Type} (first : α) (read : Option (List α × List Char)) :
    Option (List α × List Char) :=
  read.map fun found => (first :: found.1, found.2)

def readString : List Char → Option (List StringPart × List Char)
  | [] => none
  | '\x22' :: rest => some ([], rest)
  | '\\' :: 'u' :: a :: b :: c :: d :: rest =>
      match codeUnit? a b c d with
      | none => none
      | some unit => prepend (.ofCodeUnit unit) (readString rest)
  | '\\' :: c :: rest =>
      match unescape? c with
      | none => none
      | some plain => prepend (.char plain) (readString rest)
  | c :: rest =>
      if c == '\\' || c.toNat < 0x20 then none else prepend (.char c) (readString rest)

/-- The characters of a string, none if half of a surrogate pair is left alone. -/
def joinParts : List StringPart → Option (List Char)
  | [] => some []
  | .char c :: rest => (joinParts rest).map (c :: ·)
  | .surrogate high :: .surrogate low :: rest =>
      if isHighSurrogate high && isLowSurrogate low then
        let code := 0x10000 + (high - 0xd800) * 0x400 + (low - 0xdc00)
        (joinParts rest).map (Char.ofNat code :: ·)
      else none
  | .surrogate _ :: _ => none

def textOf? (parts : List StringPart) : Option String :=
  (joinParts parts).map String.ofList

def readDigits (text : List Char) : Option (List Char × List Char) :=
  let digits := text.takeWhile Char.isDigit
  if digits.isEmpty then none else some (digits, text.dropWhile Char.isDigit)

def readWhole : List Char → Option (List Char × List Char)
  | '0' :: rest => some (['0'], rest)
  | text => readDigits text

def readFraction : List Char → Option (List Char × List Char)
  | '.' :: rest => prepend '.' (readDigits rest)
  | rest => some ([], rest)

def readExponent : List Char → Option (List Char × List Char)
  | [] => some ([], [])
  | mark :: rest =>
      if mark == 'e' || mark == 'E' then
        match rest with
        | '+' :: rest => prepend mark (prepend '+' (readDigits rest))
        | '-' :: rest => prepend mark (prepend '-' (readDigits rest))
        | rest => prepend mark (readDigits rest)
      else some ([], mark :: rest)

def readMagnitude (text : List Char) : Option (List Char × List Char) := do
  let (whole, rest) ← readWhole text
  let (fraction, rest) ← readFraction rest
  let (exponent, rest) ← readExponent rest
  some (whole ++ fraction ++ exponent, rest)

def readNumber : List Char → Option (List Char × List Char)
  | '-' :: rest => prepend '-' (readMagnitude rest)
  | rest => readMagnitude rest

def ofParts (parts : List StringPart) : Json :=
  match textOf? parts with
  | some text => .string text
  | none => .unpaired

def ofFields (fields : List (List StringPart × Json)) : Json :=
  match fields.mapM fun field => (textOf? field.1).map fun name => (name, field.2) with
  | some fields => .object fields
  | none => .unpaired

mutual

def readValue : Nat → List Char → Option (Json × List Char)
  | 0, _ => none
  | fuel + 1, text =>
      match skipBlank text with
      | '\x7b' :: rest =>
          match skipBlank rest with
          | '\x7d' :: rest => some (.object [], rest)
          | rest => (readFields fuel rest).map fun found => (ofFields found.1, found.2)
      | '[' :: rest =>
          match skipBlank rest with
          | ']' :: rest => some (.array [], rest)
          | rest => (readItems fuel rest).map fun found => (.array found.1, found.2)
      | '\x22' :: rest =>
          (readString rest).map fun found => (ofParts found.1, found.2)
      | 'n' :: 'u' :: 'l' :: 'l' :: rest => some (.null, rest)
      | 't' :: 'r' :: 'u' :: 'e' :: rest => some (.bool true, rest)
      | 'f' :: 'a' :: 'l' :: 's' :: 'e' :: rest => some (.bool false, rest)
      | rest => (readNumber rest).map fun found => (.number (String.ofList found.1), found.2)

def readItems : Nat → List Char → Option (List Json × List Char)
  | 0, _ => none
  | fuel + 1, text =>
      match readValue fuel text with
      | none => none
      | some (item, rest) =>
          match skipBlank rest with
          | ']' :: rest => some ([item], rest)
          | ',' :: rest => prepend item (readItems fuel rest)
          | _ => none

def readFields : Nat → List Char → Option (List (List StringPart × Json) × List Char)
  | 0, _ => none
  | fuel + 1, text =>
      match skipBlank text with
      | '\x22' :: rest =>
          match readString rest with
          | none => none
          | some (name, rest) =>
              match skipBlank rest with
              | ':' :: rest =>
                  match readValue fuel rest with
                  | none => none
                  | some (value, rest) =>
                      match skipBlank rest with
                      | '\x7d' :: rest => some ([(name, value)], rest)
                      | ',' :: rest => prepend (name, value) (readFields fuel rest)
                      | _ => none
              | _ => none
      | _ => none

end

def parse? (text : String) : Option Json :=
  let chars := text.toList
  match readValue (2 * chars.length + 1) chars with
  | some (value, rest) => if rest.all isJsonBlank then some value else none
  | none => none

end DeclarationIndex.Json
