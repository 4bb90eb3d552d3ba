import DeclarationIndex.Json.Write
import DeclarationIndex.Proofs.Json.Number

/-!
JSON texts. A value is spelled by its tokens, with any blanks between them; whatever a text spells
is read back from it.
-/

namespace DeclarationIndex.Json

def Blank (text : List Char) : Prop :=
  ∀ c ∈ text, isJsonBlank c = true

mutual

/-- That a text spells a value, with no blanks around it. -/
inductive Spells : Json → List Char → Prop where
  | null : Spells .null ['n', 'u', 'l', 'l']
  | yes : Spells (.bool true) ['t', 'r', 'u', 'e']
  | no : Spells (.bool false) ['f', 'a', 'l', 's', 'e']
  | number {literal : String} (isNumber : IsNumber literal.toList) :
      Spells (.number literal) literal.toList
  | string (text : String) : Spells (.string text) (quoted text)
  | emptyArray {inside : List Char} (blank : Blank inside) :
      Spells (.array []) ('[' :: (inside ++ [']']))
  | array {items : List Json} {text : List Char} (spelled : SpellsItems items text) :
      Spells (.array items) ('[' :: text)
  | emptyObject {inside : List Char} (blank : Blank inside) :
      Spells (.object []) ('\x7b' :: (inside ++ ['\x7d']))
  | object {fields : List (String × Json)} {text : List Char}
      (spelled : SpellsFields fields text) : Spells (.object fields) ('\x7b' :: text)

inductive SpellsItems : List Json → List Char → Prop where
  | last {item : Json} {before text after : List Char} (blankBefore : Blank before)
      (spelled : Spells item text) (blankAfter : Blank after) :
      SpellsItems [item] (before ++ (text ++ (after ++ [']'])))
  | more {item : Json} {items : List Json} {before text after rest : List Char}
      (blankBefore : Blank before) (spelled : Spells item text) (blankAfter : Blank after)
      (others : SpellsItems items rest) :
      SpellsItems (item :: items) (before ++ (text ++ (after ++ ',' :: rest)))

inductive SpellsField : String × Json → List Char → Prop where
  | field {name : String} {value : Json} {before between after text : List Char}
      (blankBefore : Blank before) (blankBetween : Blank between) (blankAfter : Blank after)
      (spelled : Spells value text) :
      SpellsField (name, value) (before ++ (quoted name ++ (between ++ ':' :: (after ++ text))))

inductive SpellsFields : List (String × Json) → List Char → Prop where
  | last {field : String × Json} {text after : List Char} (spelled : SpellsField field text)
      (blankAfter : Blank after) : SpellsFields [field] (text ++ (after ++ ['\x7d']))
  | more {field : String × Json} {fields : List (String × Json)} {text after rest : List Char}
      (spelled : SpellsField field text) (blankAfter : Blank after)
      (others : SpellsFields fields rest) :
      SpellsFields (field :: fields) (text ++ (after ++ ',' :: rest))

end

/-! Blanks -/

theorem blank_nil : Blank [] :=
  fun _ member => absurd member List.not_mem_nil

theorem skipBlank_append {before : List Char} (blank : Blank before) (text : List Char) :
    skipBlank (before ++ text) = skipBlank text :=
  List.dropWhile_append_of_pos blank

theorem skipBlank_cons {first : Char} (rest : List Char) (solid : isJsonBlank first = false) :
    skipBlank (first :: rest) = first :: rest := by
  simp [skipBlank, solid]

theorem isJsonBlank_iff {c : Char} :
    isJsonBlank c = true ↔ c = ' ' ∨ c = '\n' ∨ c = '\t' ∨ c = '\r' := by
  simp [isJsonBlank, or_assoc]

theorem endsNumber_append {before : List Char} (blank : Blank before) {rest : List Char}
    (ends : EndsNumber rest) : EndsNumber (before ++ rest) := by
  cases before with
  | nil => exact ends
  | cons first others =>
    refine endsNumber_cons _ ?_
    rcases isJsonBlank_iff.mp (blank first (List.mem_cons_self ..)) with rfl | rfl | rfl | rfl
    all_goals decide

/-! Strings -/

theorem readString_plain {c : Char} (rest : List Char) (solid : c ≠ '\x22' ∧ c ≠ '\\')
    (visible : ¬ c.toNat < 0x20) :
    readString (c :: rest) = prepend (.char c) (readString rest) := by
  rw [readString.eq_5 _ _ solid.1 (by simp [solid.2]) (by simp [solid.2])]
  simp [solid.2, visible]

theorem readString_named {mark c : Char} (rest : List Char) (named : unescape? mark = some c)
    (notUnit : mark ≠ 'u') :
    readString ('\\' :: mark :: rest) = prepend (.char c) (readString rest) := by
  rw [readString.eq_4 _ _ (by simp [notUnit]), named]

theorem codeUnit?_control :
    ∀ unit < 0x20, codeUnit? '0' '0' (hexDigit (unit / 16)) (hexDigit unit) = some unit := by
  decide

theorem readString_escapeChar (c : Char) (rest : List Char) :
    readString (escapeChar c ++ rest) = prepend (.char c) (readString rest) := by
  by_cases named : c ∈ ['\x22', '\\', '\x08', '\t', '\n', '\x0c', '\r']
  · simp only [List.mem_cons, List.not_mem_nil, or_false] at named
    rcases named with rfl | rfl | rfl | rfl | rfl | rfl | rfl
    all_goals exact readString_named rest rfl (by decide)
  · simp only [List.mem_cons, List.not_mem_nil, or_false, not_or] at named
    by_cases control : c.toNat < 0x20
    · have escaped : escapeChar c =
          ['\\', 'u', '0', '0', hexDigit (c.toNat / 16), hexDigit c.toNat] := by
        simp [escapeChar, named, control]
      have single : StringPart.ofCodeUnit c.toNat = .char c := by
        have low : ¬ 0xd800 ≤ c.toNat ∧ ¬ 0xdc00 ≤ c.toNat := by omega
        simp [StringPart.ofCodeUnit, isHighSurrogate, isLowSurrogate, low]
      simp [escaped, readString, codeUnit?_control c.toNat control, single]
    · have escaped : escapeChar c = [c] := by
        simp [escapeChar, named, control]
      rw [escaped]
      exact readString_plain rest ⟨named.1, named.2.1⟩ control

theorem readString_flatMap_escapeChar (text rest : List Char) :
    readString (text.flatMap escapeChar ++ '\x22' :: rest) = some (text.map .char, rest) := by
  induction text with
  | nil => simp [readString]
  | cons c text ih =>
    rw [List.flatMap_cons, List.append_assoc, readString_escapeChar, ih]
    rfl

theorem joinParts_map_char (text : List Char) : joinParts (text.map .char) = some text := by
  induction text with
  | nil => rfl
  | cons c text ih => rw [List.map_cons, joinParts, ih, Option.map_some]

theorem textOf?_map_char (text : String) : textOf? (text.toList.map .char) = some text := by
  rw [textOf?, joinParts_map_char, Option.map_some, String.ofList_toList]

/-! Values -/

theorem readValue_append {before : List Char} (blank : Blank before) (fuel : Nat)
    (text : List Char) : readValue fuel (before ++ text) = readValue fuel text := by
  cases fuel with
  | zero => rfl
  | succ fuel => simp only [readValue, skipBlank_append blank]

theorem IsNumber.exists_solid {literal : List Char} (isNumber : IsNumber literal) :
    ∃ first rest, literal = first :: rest ∧ isJsonBlank first = false ∧
      first ∉ ['[', ']', '\x7b', '\x22', 'n', 't', 'f'] := by
  obtain ⟨first, rest, rfl, front⟩ := isNumber.exists_eq_cons
  refine ⟨first, rest, rfl, ?_⟩
  rcases front with rfl | isDigit
  · decide
  · constructor
    · rw [Bool.eq_false_iff]
      intro isBlank
      rcases isJsonBlank_iff.mp isBlank with rfl | rfl | rfl | rfl
      all_goals exact ne_of_isDigit isDigit rfl rfl
    · intro member
      simp only [List.mem_cons, List.not_mem_nil, or_false] at member
      rcases member with rfl | rfl | rfl | rfl | rfl | rfl | rfl
      all_goals exact ne_of_isDigit isDigit rfl rfl

theorem readValue_number {literal rest : List Char} (isNumber : IsNumber literal)
    (ends : EndsNumber rest) (fuel : Nat) :
    readValue (fuel + 1) (literal ++ rest) = some (.number (String.ofList literal), rest) := by
  have read := readNumber_append isNumber ends
  obtain ⟨first, others, rfl, solid, front⟩ := isNumber.exists_solid
  rw [List.cons_append] at read ⊢
  rw [readValue, skipBlank_cons _ solid]
  split <;> simp_all

theorem Spells.exists_solid {value : Json} {text : List Char} (spelled : Spells value text) :
    ∃ first rest, text = first :: rest ∧ isJsonBlank first = false ∧ first ≠ ']' := by
  cases spelled with
  | number isNumber =>
    obtain ⟨first, rest, same, solid, front⟩ := isNumber.exists_solid
    exact ⟨first, rest, same, solid, fun bracket => front (by simp [bracket])⟩
  | _ => exact ⟨_, _, rfl, rfl, by decide⟩

theorem SpellsItems.exists_solid {items : List Json} {text : List Char}
    (spelled : SpellsItems items text) :
    ∃ before first rest, text = before ++ first :: rest ∧ Blank before ∧
      isJsonBlank first = false ∧ first ≠ ']' ∧ SpellsItems items (first :: rest) := by
  cases spelled with
  | last blankBefore spelled blankAfter =>
    obtain ⟨first, rest, rfl, solid, front⟩ := spelled.exists_solid
    exact ⟨_, first, _, rfl, blankBefore, solid, front, .last blank_nil spelled blankAfter⟩
  | more blankBefore spelled blankAfter others =>
    obtain ⟨first, rest, rfl, solid, front⟩ := spelled.exists_solid
    exact ⟨_, first, _, rfl, blankBefore, solid, front, .more blank_nil spelled blankAfter others⟩

theorem SpellsFields.exists_quote {fields : List (String × Json)} {text : List Char}
    (spelled : SpellsFields fields text) :
    ∃ before rest, text = before ++ '\x22' :: rest ∧ Blank before ∧
      SpellsFields fields ('\x22' :: rest) := by
  cases spelled with
  | last spelled blankAfter =>
    obtain ⟨blankBefore, blankBetween, blankAfterColon, value⟩ := spelled
    refine ⟨_, _, by rw [List.append_assoc]; rfl, blankBefore, ?_⟩
    exact .last (.field blank_nil blankBetween blankAfterColon value) blankAfter
  | more spelled blankAfter others =>
    obtain ⟨blankBefore, blankBetween, blankAfterColon, value⟩ := spelled
    refine ⟨_, _, by rw [List.append_assoc]; rfl, blankBefore, ?_⟩
    exact .more (.field blank_nil blankBetween blankAfterColon value) blankAfter others

def rawField (field : String × Json) : List StringPart × Json :=
  (field.1.toList.map .char, field.2)

theorem ofFields_map_rawField (fields : List (String × Json)) :
    ofFields (fields.map rawField) = .object fields := by
  have joined : (fields.map rawField).mapM
      (fun field => (textOf? field.1).map fun name => (name, field.2)) = some fields := by
    induction fields with
    | nil => rfl
    | cons field fields ih =>
      rw [List.map_cons, List.mapM_cons, ih]
      simp [rawField, textOf?_map_char]
  rw [ofFields, joined]

/-- That so much fuel is enough to read whatever texts of this length spell. -/
structure ReadsBack (fuel : Nat) : Prop where
  value {value : Json} {text : List Char} (spelled : Spells value text)
    (enough : text.length ≤ fuel) (rest : List Char) (ends : EndsNumber rest) :
    readValue fuel (text ++ rest) = some (value, rest)
  items {items : List Json} {text : List Char} (spelled : SpellsItems items text)
    (enough : text.length ≤ fuel) (rest : List Char) :
    readItems fuel (text ++ rest) = some (items, rest)
  fields {fields : List (String × Json)} {text : List Char} (spelled : SpellsFields fields text)
    (enough : text.length ≤ fuel) (rest : List Char) :
    readFields fuel (text ++ rest) = some (fields.map rawField, rest)

section
variable {fuel : Nat}

theorem ReadsBack.value_succ (readsBack : ReadsBack fuel) {value : Json} {text : List Char}
    (spelled : Spells value text) (enough : text.length ≤ fuel + 1) (rest : List Char)
    (ends : EndsNumber rest) : readValue (fuel + 1) (text ++ rest) = some (value, rest) := by
  cases spelled with
  | null | yes | no => rfl
  | number isNumber =>
    rw [readValue_number isNumber ends, String.ofList_toList]
  | string text =>
    have read := readString_flatMap_escapeChar text.toList rest
    simp [readValue, quoted, skipBlank_cons, isJsonBlank, read, ofParts, textOf?_map_char]
  | emptyArray blank =>
    simp [readValue, skipBlank_cons, isJsonBlank, skipBlank_append blank]
  | emptyObject blank =>
    simp [readValue, skipBlank_cons, isJsonBlank, skipBlank_append blank]
  | array spelled =>
    obtain ⟨before, first, others, rfl, blank, solid, front, spelled⟩ := spelled.exists_solid
    have read := readsBack.items spelled (by simp at enough ⊢; omega) rest
    rw [List.cons_append] at read
    have inside : skipBlank (before ++ first :: others ++ rest) = first :: (others ++ rest) := by
      rw [List.append_assoc, List.cons_append, skipBlank_append blank, skipBlank_cons _ solid]
    rw [readValue, List.cons_append, skipBlank_cons _ rfl]
    simp only [inside]
    -- The reader first looks for the bracket that closes an empty array.
    split
    · rename_i bracket
      exact absurd (List.cons.inj bracket).1 front
    · rw [read]
      rfl
  | object spelled =>
    obtain ⟨before, others, rfl, blank, spelled⟩ := spelled.exists_quote
    have read := readsBack.fields spelled (by simp at enough ⊢; omega) rest
    rw [List.cons_append] at read
    have inside : skipBlank (before ++ '\x22' :: others ++ rest) = '\x22' :: (others ++ rest) := by
      rw [List.append_assoc, List.cons_append, skipBlank_append blank, skipBlank_cons _ rfl]
    rw [readValue, List.cons_append, skipBlank_cons _ rfl]
    simp only [inside]
    split
    · rename_i brace
      exact absurd (List.cons.inj brace).1 (by decide)
    · rw [read, Option.map_some, ofFields_map_rawField]

theorem ReadsBack.items_succ (readsBack : ReadsBack fuel) {items : List Json} {text : List Char}
    (spelled : SpellsItems items text) (enough : text.length ≤ fuel + 1) (rest : List Char) :
    readItems (fuel + 1) (text ++ rest) = some (items, rest) := by
  cases spelled with
  | @last item before text after blankBefore spelled blankAfter =>
    have ends : EndsNumber (after ++ ']' :: rest) :=
      endsNumber_append blankAfter (endsNumber_cons _ (by decide))
    have read := readsBack.value spelled (by simp at enough; omega) _ ends
    simp [readItems, readValue_append blankBefore, read, skipBlank_append blankAfter,
      skipBlank_cons, isJsonBlank]
  | @more item items before text after others blankBefore spelled blankAfter more =>
    have ends : EndsNumber (after ++ ',' :: (others ++ rest)) :=
      endsNumber_append blankAfter (endsNumber_cons _ (by decide))
    have read := readsBack.value spelled (by simp at enough; omega) _ ends
    have readOthers := readsBack.items more (by simp at enough; omega) rest
    simp [readItems, readValue_append blankBefore, read, skipBlank_append blankAfter,
      skipBlank_cons, isJsonBlank, readOthers, prepend]

theorem ReadsBack.fields_of_field (readsBack : ReadsBack fuel) {field : String × Json}
    {text : List Char} (spelled : SpellsField field text) (enough : text.length ≤ fuel)
    {rest more : List Char} (ends : EndsNumber rest) :
    (skipBlank rest = '\x7d' :: more →
      readFields (fuel + 1) (text ++ rest) = some ([rawField field], more)) ∧
    (skipBlank rest = ',' :: more →
      readFields (fuel + 1) (text ++ rest) = prepend (rawField field) (readFields fuel more)) := by
  cases spelled with
  | @field name value before between after text blankBefore blankBetween blankAfter spelled =>
    have name := readString_flatMap_escapeChar name.toList
      (between ++ ':' :: (after ++ (text ++ rest)))
    have value := readsBack.value spelled (by simp at enough; omega) rest ends
    constructor
    all_goals
      intro next
      simp [readFields, quoted, skipBlank_append blankBefore, skipBlank_append blankBetween,
        readValue_append blankAfter, skipBlank_cons, isJsonBlank, name, value, next, rawField]

theorem ReadsBack.fields_succ (readsBack : ReadsBack fuel) {fields : List (String × Json)}
    {text : List Char} (spelled : SpellsFields fields text) (enough : text.length ≤ fuel + 1)
    (rest : List Char) :
    readFields (fuel + 1) (text ++ rest) = some (fields.map rawField, rest) := by
  cases spelled with
  | @last field text after spelled blankAfter =>
    have ends : EndsNumber (after ++ '\x7d' :: rest) :=
      endsNumber_append blankAfter (endsNumber_cons _ (by decide))
    have next : skipBlank (after ++ '\x7d' :: rest) = '\x7d' :: rest := by
      rw [skipBlank_append blankAfter, skipBlank_cons _ rfl]
    have read := (readsBack.fields_of_field spelled (by simp at enough; omega) ends).1 next
    simp [read]
  | @more field fields text after others spelled blankAfter more =>
    have ends : EndsNumber (after ++ ',' :: (others ++ rest)) :=
      endsNumber_append blankAfter (endsNumber_cons _ (by decide))
    have next : skipBlank (after ++ ',' :: (others ++ rest)) = ',' :: (others ++ rest) := by
      rw [skipBlank_append blankAfter, skipBlank_cons _ rfl]
    have read := (readsBack.fields_of_field spelled (by simp at enough; omega) ends).2 next
    have readOthers := readsBack.fields more (by simp at enough; omega) rest
    simp [read, readOthers, prepend]

end

theorem readsBack (fuel : Nat) : ReadsBack fuel := by
  -- what is spelled inside a text is shorter than the text, so less fuel is enough for it
  induction fuel with
  | zero =>
    constructor
    · intro value text spelled enough
      obtain ⟨_, _, rfl, _⟩ := spelled.exists_solid
      simp at enough
    · intro items text spelled enough
      obtain ⟨_, _, _, rfl, _⟩ := spelled.exists_solid
      simp at enough
    · intro fields text spelled enough
      obtain ⟨_, _, rfl, _⟩ := spelled.exists_quote
      simp at enough
  | succ fuel ih => exact ⟨ih.value_succ, ih.items_succ, ih.fields_succ⟩

/-- Whatever a text spells, with blanks around it, is read from it. -/
theorem parse?_eq_some {value : Json} {before text after : List Char}
    (spelled : Spells value text) (blankBefore : Blank before) (blankAfter : Blank after) :
    parse? (String.ofList (before ++ text ++ after)) = some value := by
  have ends : EndsNumber (after ++ []) := endsNumber_append blankAfter fun _ front => nomatch front
  rw [List.append_nil] at ends
  have read := (readsBack (2 * (before ++ text ++ after).length + 1)).value spelled
    (by simp only [List.length_append]; omega) after ends
  rw [parse?, String.toList_ofList, List.append_assoc, readValue_append blankBefore,
    ← List.append_assoc, read]
  have blank : after.all isJsonBlank = true := List.all_eq_true.mpr blankAfter
  simp only [blank, if_true]

end DeclarationIndex.Json
