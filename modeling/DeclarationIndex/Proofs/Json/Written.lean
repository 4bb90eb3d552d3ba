import DeclarationIndex.Proofs.Json.Text

/-!
JSON as it is written. On one line or over many, a value whose numbers are well-formed is spelled
by what is written for it, so it is read back.
-/

namespace DeclarationIndex.Json

/-- That a value can be written: nothing in it is unpaired, and its numbers are well-formed. -/
inductive IsProper : Json → Prop where
  | null : IsProper .null
  | bool (value : Bool) : IsProper (.bool value)
  | number {literal : String} (isNumber : IsNumber literal.toList) : IsProper (.number literal)
  | string (text : String) : IsProper (.string text)
  | array {items : List Json} (proper : ∀ item ∈ items, IsProper item) : IsProper (.array items)
  | object {fields : List (String × Json)} (proper : ∀ field ∈ fields, IsProper field.2) :
      IsProper (.object fields)

theorem isProper_natural (number : Nat) : (natural number).IsProper :=
  .number (by rw [String.toList_ofList]; exact isNumber_toDigits number)

theorem isProper_strings (texts : List String) : (strings texts).IsProper := by
  refine .array fun item member => ?_
  obtain ⟨text, _, rfl⟩ := List.mem_map.mp member
  exact .string text

theorem spellsItems_of_write (write : Json → List Char) (others : List Json → List Char)
    {before after : List Char} (blankBefore : Blank before) (blankAfter : Blank after)
    (close : others [] = after ++ [']'])
    (next : ∀ item items, others (item :: items) =
      ',' :: (before ++ (write item ++ others items)))
    (item : Json) (items : List Json) (spelled : ∀ each ∈ item :: items, Spells each (write each)) :
    SpellsItems (item :: items) (before ++ (write item ++ others items)) := by
  have first := spelled item (List.mem_cons_self ..)
  induction items generalizing item with
  | nil =>
    rw [close]
    exact .last blankBefore first blankAfter
  | cons second items ih =>
    have rest : ∀ each ∈ second :: items, Spells each (write each) :=
      fun each member => spelled each (List.mem_cons_of_mem _ member)
    have more := ih second rest (rest second (List.mem_cons_self ..))
    rw [next]
    exact .more blankBefore first blank_nil more

theorem spellsFields_of_write (write : Json → List Char)
    (others : List (String × Json) → List Char) {before between after : List Char}
    (blankBefore : Blank before) (blankBetween : Blank between) (blankAfter : Blank after)
    (close : others [] = after ++ ['\x7d'])
    (next : ∀ field fields, others (field :: fields) = ',' :: (before ++ (quoted field.1 ++
      ':' :: (between ++ (write field.2 ++ others fields)))))
    (field : String × Json) (fields : List (String × Json))
    (spelled : ∀ each ∈ field :: fields, Spells each.2 (write each.2)) :
    SpellsFields (field :: fields) (before ++ (quoted field.1 ++
      ':' :: (between ++ (write field.2 ++ others fields)))) := by
  have first : SpellsField field (before ++ (quoted field.1 ++
      ([] ++ ':' :: (between ++ write field.2)))) :=
    .field blankBefore blank_nil blankBetween (spelled field (List.mem_cons_self ..))
  induction fields generalizing field with
  | nil =>
    rw [close]
    simpa using SpellsFields.last first blankAfter
  | cons second fields ih =>
    have rest : ∀ each ∈ second :: fields, Spells each.2 (write each.2) :=
      fun each member => spelled each (List.mem_cons_of_mem _ member)
    have more := ih second rest
      (.field blankBefore blank_nil blankBetween (rest second (List.mem_cons_self ..)))
    rw [next]
    simpa using SpellsFields.more first blank_nil more

theorem spells_compactChars {value : Json} (proper : IsProper value) :
    Spells value (compactChars value) := by
  induction proper with
  | null => exact .null
  | bool value => cases value with
    | true => exact .yes
    | false => exact .no
  | number isNumber => exact .number isNumber
  | string text => exact .string text
  | @array items _ spelled =>
    cases items with
    | nil => exact .emptyArray blank_nil
    | cons item items =>
      exact .array (spellsItems_of_write compactChars compactItems blank_nil blank_nil rfl
        (fun _ _ => rfl) item items spelled)
  | @object fields _ spelled =>
    cases fields with
    | nil => exact .emptyObject blank_nil
    | cons field fields =>
      have written := spellsFields_of_write compactChars compactFields blank_nil blank_nil
        blank_nil rfl
        (fun field fields => by simp [compactFields]) field fields spelled
      simpa [compactChars] using Spells.object written

theorem blank_newLine (level : Nat) : Blank (newLine level) := by
  intro c member
  rcases List.mem_cons.mp member with rfl | space
  · rfl
  · rw [List.eq_of_mem_replicate space]
    rfl

theorem spells_prettyChars {value : Json} (proper : IsProper value) (level : Nat) :
    Spells value (prettyChars level value) := by
  have space : Blank [' '] := fun c member => by rw [List.mem_singleton.mp member]; rfl
  have inner := blank_newLine (level + 1)
  have outer := blank_newLine level
  induction proper generalizing level with
  | null => exact .null
  | bool value => cases value with
    | true => exact .yes
    | false => exact .no
  | number isNumber => exact .number isNumber
  | string text => exact .string text
  | @array items _ spelled =>
    cases items with
    | nil => exact .emptyArray blank_nil
    | cons item items =>
      have written := spellsItems_of_write (prettyChars (level + 1)) (prettyItems level) inner outer
        rfl
        (fun item items => by simp [prettyItems]) item items
        fun each member => spelled each member (level + 1) (blank_newLine _) inner
      simpa [prettyChars] using Spells.array written
  | @object fields _ spelled =>
    cases fields with
    | nil => exact .emptyObject blank_nil
    | cons field fields =>
      have written := spellsFields_of_write (prettyChars (level + 1)) (prettyFields level) inner
        space outer rfl (fun field fields => by simp [prettyFields]) field fields
        fun each member => spelled each member (level + 1) (blank_newLine _) inner
      simpa [prettyChars] using Spells.object written

theorem parse?_compact {value : Json} (proper : IsProper value) :
    parse? value.compact = some value := by
  simpa [compact] using parse?_eq_some (spells_compactChars proper) blank_nil blank_nil

theorem parse?_pretty {value : Json} (proper : IsProper value) :
    parse? value.pretty = some value := by
  simpa [pretty] using parse?_eq_some (spells_prettyChars proper 0) blank_nil blank_nil

end DeclarationIndex.Json
