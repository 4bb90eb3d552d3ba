import DeclarationIndex.Entry.Json
import DeclarationIndex.Proofs.Json.Record
import DeclarationIndex.Proofs.Json.Written
import Mathlib.Data.List.Forall2

/-!
Entries are read back from what is written for them, and from all that differs from it in ways that
do not matter: the order of fields, fields of other names, and an absent text that is null. Only
the kind, which is kept whole until its tag is known, must not hold what cannot be kept.
-/

namespace DeclarationIndex

inductive HoldsText : Option String → Option Json → Prop where
  | leftOut : HoldsText none none
  | null : HoldsText none (some .null)
  | text (text : String) : HoldsText (some text) (some (.string text))

namespace Location

def record (location : Location) : List (String × Option Json) :=
  [("start_line", some (.natural location.startLine.toNat)),
    ("start_column", some (.natural location.startColumn.toNat)),
    ("end_line", some (.natural location.endLine.toNat)),
    ("end_column", some (.natural location.endColumn.toNat))]

def WrittenAs (location : Location) (value : Json) : Prop :=
  value.IsRecord location.record fun _ => True

theorem isProper_toJson (location : Location) : location.toJson.IsProper :=
  .object (by simp [Json.isProper_natural])

theorem word32?_natural (word : UInt32) : word32? (.natural word.toNat) = some word := by
  have small : word.toNat < UInt32.size := word.toNat_lt_size
  rw [word32?, Json.natural?_natural]
  simp [small]

theorem WrittenAs.ofJson? {location : Location} {value : Json}
    (written : location.WrittenAs value) : ofJson? value = some location := by
  have record := Json.IsRecord.record?_eq written (by simp [Location.record]) _ fun _ => id
  simp only [Location.record, List.map_cons, List.map_nil] at record
  simp [Location.ofJson?, record, word32?_natural]

end Location

namespace Parameter

def record (parameter : Parameter) : List (String × Option Json) :=
  [("name", some (.string parameter.name)), ("kind", some (.string parameter.kind.name))]

def WrittenAs (Other : Json → Prop) (parameter : Parameter) (value : Json) : Prop :=
  value.IsRecord parameter.record Other

theorem isProper_toJson (parameter : Parameter) : parameter.toJson.IsProper :=
  .object (by simp [Json.IsProper.string])

theorem WrittenAs.ofJson? {Other : Json → Prop} {parameter : Parameter} {value : Json}
    (written : parameter.WrittenAs Other value) (holdsNothing : Json → Bool) :
    ofJson? holdsNothing value = some parameter := by
  have record := Json.IsRecord.record?_eq written (by simp [Parameter.record]) _ fun _ => id
  simp only [Parameter.record, List.map_cons, List.map_nil] at record
  simp [Parameter.ofJson?, record, Json.text?, Json.word?, ParameterKind.ofName?_name]

theorem listOfJson?_of_written {Other : Json → Prop} {parameters : List Parameter}
    {items : List Json} (written : List.Forall₂ (WrittenAs Other) parameters items)
    (holdsNothing : Json → Bool) :
    listOfJson? holdsNothing (.array items) = some parameters := by
  simp only [listOfJson?, Json.items?, Option.bind_some]
  induction written with
  | nil => rfl
  | cons first _ ih =>
    rw [List.mapM_cons, first.ofJson? holdsNothing, ih]
    rfl

end Parameter

namespace EntryKind

section
variable (Allowed : Nat → Json → Prop)

/-- The fields of a kind as they may be written. What stands under other names is allowed or not
by how deep it may be nested. -/
inductive HoldsFields : EntryKind → List (String × Option Json) → Prop where
  | classEntry {superclass : Option String} {held : Option Json}
      (holds : HoldsText superclass held) :
      HoldsFields (.classEntry superclass) [("superclass", held)]
  | moduleEntry : HoldsFields .moduleEntry []
  | constant : HoldsFields .constant []
  | unresolvedAlias (target : String) (nesting : List String) :
      HoldsFields (.unresolvedAlias target nesting)
        [("target", some (.string target)), ("nesting", some (.strings nesting))]
  | method {owner : Option String} {held : Option Json} {parameters : List Parameter}
      {items : List Json} (holds : HoldsText owner held)
      (written : List.Forall₂ (Parameter.WrittenAs (Allowed (deepest - 3))) parameters items) :
      HoldsFields (.method owner parameters)
        [("owner", held), ("parameters", some (.array items))]

def WrittenAs (kind : EntryKind) (value : Json) : Prop :=
  ∃ own, kind.HoldsFields Allowed own ∧
    value.IsRecord (("type", some (.string kind.name)) :: own) (Allowed (deepest - 1))

end

section
variable {Allowed : Nat → Json → Prop} {kind : EntryKind}

theorem optionalText?_of_holds {text : Option String} {held : Option Json}
    (holds : HoldsText text held) : optionalText? held = some text := by
  cases holds <;> rfl

theorem HoldsFields.distinct {own : List (String × Option Json)}
    (holds : kind.HoldsFields Allowed own) :
    ((("type", some (.string kind.name)) :: own).map Prod.fst).Nodup := by
  cases holds <;> simp

theorem HoldsFields.ofTagged? {own : List (String × Option Json)}
    (holds : kind.HoldsFields Allowed own) {fields : List (String × Json)}
    (record : Json.record? (own.map Prod.fst) (.object fields) = some (own.map Prod.snd)) :
    ofTagged? kind.name (.object fields) = some kind := by
  cases holds with
  | classEntry holds =>
    simp only [List.map_cons, List.map_nil] at record
    simp [EntryKind.ofTagged?, name, record, optionalText?_of_holds holds]
  | moduleEntry => rfl
  | constant => rfl
  | unresolvedAlias target nesting =>
    simp only [List.map_cons, List.map_nil] at record
    simp [EntryKind.ofTagged?, name, record, Json.text?, Json.texts?_strings]
  | method holds written =>
    simp only [List.map_cons, List.map_nil] at record
    simp [EntryKind.ofTagged?, name, record, optionalText?_of_holds holds,
      Parameter.listOfJson?_of_written written]

theorem WrittenAs.ofJson? {value : Json} (written : kind.WrittenAs Allowed value) :
    ofJson? value = if value.isSound deepest then some kind else none := by
  obtain ⟨own, holds, record⟩ := written
  have values := record.record?_eq holds.distinct own fun _ => List.mem_cons_of_mem _
  cases record with
  | object order other =>
    have tag := Json.uniqueField?_of_perm order (fun field held => (other field held).1)
      holds.distinct (List.mem_cons_self ..)
    simp only [EntryKind.ofJson?, tagged?, tag, holds.ofTagged? values]

theorem writtenAs_toJson (kind : EntryKind) : kind.WrittenAs Allowed kind.toJson := by
  have parameter (parameter : Parameter) :
      parameter.WrittenAs (Allowed (deepest - 3)) parameter.toJson :=
    Json.isRecord_object parameter.record _
  cases kind with
  | classEntry superclass =>
    cases superclass with
    | none => exact ⟨_, .classEntry .leftOut, Json.isRecord_object _ _⟩
    | some superclass => exact ⟨_, .classEntry (.text superclass), Json.isRecord_object _ _⟩
  | moduleEntry => exact ⟨_, .moduleEntry, Json.isRecord_object _ _⟩
  | constant => exact ⟨_, .constant, Json.isRecord_object _ _⟩
  | unresolvedAlias target nesting =>
    exact ⟨_, .unresolvedAlias target nesting, Json.isRecord_object _ _⟩
  | method owner parameters =>
    have written : List.Forall₂ (Parameter.WrittenAs (Allowed (deepest - 3))) parameters
        (parameters.map Parameter.toJson) := by
      rw [List.forall₂_map_right_iff, List.forall₂_same]
      exact fun each _ => parameter each
    cases owner with
    | none => exact ⟨_, .method .leftOut written, Json.isRecord_object _ _⟩
    | some owner => exact ⟨_, .method (.text owner) written, Json.isRecord_object _ _⟩

theorem isProper_of_optionalField {name : String} {text : Option String} :
    ∀ field ∈ optionalField name text, field.2.IsProper := by
  cases text <;> simp [optionalField, Json.IsProper.string]

theorem isProper_toJson (kind : EntryKind) : kind.toJson.IsProper := by
  refine .object (List.forall_mem_cons.mpr ⟨.string kind.name, ?_⟩)
  cases kind with
  | classEntry superclass => exact isProper_of_optionalField
  | moduleEntry | constant => simp [fields]
  | unresolvedAlias target nesting =>
    simp [fields, Json.IsProper.string, Json.isProper_strings]
  | method owner parameters =>
    have proper : (Json.array (parameters.map Parameter.toJson)).IsProper := by
      refine .array fun item member => ?_
      obtain ⟨parameter, _, rfl⟩ := List.mem_map.mp member
      exact parameter.isProper_toJson
    refine List.forall_mem_append.mpr ⟨isProper_of_optionalField, ?_⟩
    simpa using proper

theorem isSound_of_holds {text : Option String} {held : Option Json}
    (holds : HoldsText text held) (depth : Nat) :
    ∀ value ∈ held, value.isSound depth = true := by
  intro value held
  cases holds with
  | leftOut => cases held
  | null | text _ => cases held; rfl

theorem isSound_of_parameter {depth : Nat} {parameter : Parameter} {value : Json}
    (written : parameter.WrittenAs (fun other => other.isSound depth = true) value) :
    value.isSound (depth + 1) = true := by
  refine Json.IsRecord.isSound written ?_ fun _ => id
  intro field known held some
  simp only [Parameter.record, List.mem_cons, List.not_mem_nil, or_false] at known
  rcases known with rfl | rfl <;> cases some <;> rfl

theorem HoldsFields.isSound {own : List (String × Option Json)}
    (holds : kind.HoldsFields (fun depth other => other.isSound depth = true) own) :
    ∀ field ∈ own, ∀ held ∈ field.2, held.isSound (deepest - 1) = true := by
  cases holds with
  | classEntry holds => simpa using isSound_of_holds holds (deepest - 1)
  | moduleEntry | constant => simp
  | unresolvedAlias target nesting =>
    have kept : (Json.strings nesting).isSound (deepest - 1) = true :=
      Json.isSound_strings _ nesting
    simp [Json.isSound, kept]
  | @method owner held parameters items holds written =>
    have kept : (Json.array items).isSound (deepest - 1) = true := by
      refine Json.areSound_iff.mpr fun item member => ?_
      obtain ⟨place, short, rfl⟩ := List.mem_iff_getElem.mp member
      have paired := List.forall₂_iff_get.mp written
      exact isSound_of_parameter (paired.2 place (paired.1 ▸ short) short)
    simpa [kept] using isSound_of_holds holds (deepest - 1)

theorem WrittenAs.isSound {value : Json}
    (written : kind.WrittenAs (fun depth other => other.isSound depth = true) value) :
    value.isSound deepest = true := by
  obtain ⟨own, holds, record⟩ := written
  refine record.isSound (List.forall_mem_cons.mpr ⟨?_, holds.isSound⟩) fun _ => id
  rintro _ ⟨⟩
  rfl

end

end EntryKind

namespace Entry

section
variable (entry : Entry)

def record (location kind : Json) : List (String × Option Json) :=
  [("name", some (.string entry.name)), ("file_path", some (.string entry.filePath)),
    ("location", some location), ("comments", some (.strings entry.comments)),
    ("visibility", some (.string entry.visibility.name)), ("kind", some kind)]

/-- That a value is one of the ways to write an entry. Under other names there may be anything,
but only what is allowed within the kind. -/
def WrittenAs (Allowed : Nat → Json → Prop) (value : Json) : Prop :=
  ∃ location kind, entry.location.WrittenAs location ∧ entry.kind.WrittenAs Allowed kind ∧
    value.IsRecord (entry.record location kind) fun _ => True

theorem writtenAs_toJson (Allowed : Nat → Json → Prop) : entry.WrittenAs Allowed entry.toJson :=
  ⟨entry.location.toJson, entry.kind.toJson, Json.isRecord_object entry.location.record _,
    entry.kind.writtenAs_toJson, Json.isRecord_object (entry.record _ _) _⟩

theorem ofJson?_of_record {Allowed : Nat → Json → Prop} {location kind value : Json}
    (locationWritten : entry.location.WrittenAs location)
    (kindWritten : entry.kind.WrittenAs Allowed kind)
    (written : value.IsRecord (entry.record location kind) fun _ => True) :
    ofJson? value = if kind.isSound EntryKind.deepest then some entry else none := by
  have values := written.record?_eq (by simp [record]) _ fun _ => id
  simp only [record, List.map_cons, List.map_nil] at values
  have visibility : Visibility.ofJson? (.string entry.visibility.name) = some entry.visibility :=
    Visibility.ofName?_name entry.visibility
  simp only [ofJson?, values, Json.text?, locationWritten.ofJson?, Json.texts?_strings,
    visibility, kindWritten.ofJson?]
  split <;> rfl

theorem ofJson?_of_written {value : Json}
    (written : entry.WrittenAs (fun depth other => other.isSound depth = true) value) :
    ofJson? value = some entry := by
  obtain ⟨location, kind, locationWritten, kindWritten, record⟩ := written
  rw [entry.ofJson?_of_record locationWritten kindWritten record, if_pos kindWritten.isSound]

theorem isProper_toJson : entry.toJson.IsProper :=
  .object (by simp [fields, Json.IsProper.string, Json.isProper_strings,
    entry.location.isProper_toJson, entry.kind.isProper_toJson])

/-- An entry is read back from what is written for it, and from every text of every value that it
may be written as: in any order of fields, with absent texts left out or null, and with fields of
other names, as long as those within the kind can be kept. Whatever else is added to the kind, the
text is refused if the kind cannot be kept, and else is read as the same entry. -/
theorem read_back_however_written :
    (read? entry.write = some entry ∧ read? entry.toJson.pretty = some entry ∧
      entry.WrittenAs (fun depth other => other.isSound depth = true) entry.toJson) ∧
    (∀ value, entry.WrittenAs (fun depth other => other.isSound depth = true) value →
      (∀ text, Json.parse? text = some value → read? text = some entry) ∧
      (∀ before text after, Json.Blank before → Json.Spells value text → Json.Blank after →
        read? (String.ofList (before ++ text ++ after)) = some entry) ∧
      (value.IsProper → read? value.compact = some entry ∧ read? value.pretty = some entry)) ∧
    ∀ location kind value, entry.location.WrittenAs location →
      entry.kind.WrittenAs (fun _ _ => True) kind →
      value.IsRecord (entry.record location kind) (fun _ => True) →
      ∀ text, Json.parse? text = some value →
        read? text = if kind.isSound EntryKind.deepest then some entry else none := by
  have reads : ∀ value, entry.WrittenAs (fun depth other => other.isSound depth = true) value →
      ∀ text, Json.parse? text = some value → read? text = some entry := by
    intro value written text parsed
    rw [read?, parsed, Option.bind_some, entry.ofJson?_of_written written]
  have own := entry.writtenAs_toJson fun depth other => other.isSound depth = true
  refine ⟨⟨reads _ own _ (Json.parse?_compact entry.isProper_toJson),
    reads _ own _ (Json.parse?_pretty entry.isProper_toJson), own⟩, ?_, ?_⟩
  · intro value written
    refine ⟨reads value written, ?_, fun proper => ⟨reads _ written _ (Json.parse?_compact proper),
      reads _ written _ (Json.parse?_pretty proper)⟩⟩
    intro before text after blankBefore spelled blankAfter
    exact reads value written _ (Json.parse?_eq_some spelled blankBefore blankAfter)
  · intro location kind value locationWritten kindWritten record text parsed
    rw [read?, parsed, Option.bind_some,
      entry.ofJson?_of_record locationWritten kindWritten record]

end

def plainClass : Entry where
  name := "A::B"
  filePath := "a.rb"
  location := ⟨1, 0, 2, 3⟩
  comments := []
  visibility := .isPublic
  kind := .classEntry none

def turnedKind : Json :=
  .object [("more", .array [.bool true]), ("superclass", .null), ("type", .string "class")]

/-- A class with its fields the other way round, a null superclass and a field of another name
in its kind. -/
def turnedClass : Json :=
  let own := plainClass.record plainClass.location.toJson turnedKind
  .object (own.filterMap Json.heldField).reverse

theorem turnedClass_read_back :
    (plainClass.WrittenAs (fun depth other => other.isSound depth = true) turnedClass ∧
      turnedClass.IsProper) ∧ read? turnedClass.compact = some plainClass := by
  have kindWritten : plainClass.kind.WrittenAs (fun depth other => other.isSound depth = true)
      turnedKind := by
    have order := List.reverse_perm
      ([("type", .string "class"), ("superclass", .null)] ++ [("more", Json.array [.bool true])])
    refine ⟨_, .classEntry .null, .object order ?_⟩
    simp only [List.mem_singleton, forall_eq]
    decide
  have record : turnedClass.IsRecord
      (plainClass.record plainClass.location.toJson turnedKind) fun _ => True := by
    have order := List.reverse_perm
      ((plainClass.record plainClass.location.toJson turnedKind).filterMap Json.heldField)
    rw [← List.append_nil (List.filterMap _ _)] at order
    exact .object order fun _ none => nomatch none
  have written :
      plainClass.WrittenAs (fun depth other => other.isSound depth = true) turnedClass :=
    ⟨_, turnedKind, Json.isRecord_object plainClass.location.record _, kindWritten, record⟩
  have proper : turnedClass.IsProper := by
    have kindProper : turnedKind.IsProper :=
      .object (by simp [Json.IsProper.string, Json.IsProper.null, Json.IsProper.array,
        Json.IsProper.bool])
    exact .object (by simp [Entry.record, Json.heldField, Json.IsProper.string, kindProper,
      Json.isProper_strings, plainClass.location.isProper_toJson])
  exact ⟨⟨written, proper⟩,
    (((read_back_however_written plainClass).2.1 turnedClass written).2.2 proper).1⟩

def plainModule : Entry :=
  { plainClass with kind := .moduleEntry }

def overfullKind : Json :=
  .object [("type", .string "module"), ("x", .number "1e999")]

/-- A module with a field of another name in its kind, a number beyond the range of doubles. -/
def overfullModule : Json :=
  .object ((plainModule.record plainModule.location.toJson overfullKind).filterMap Json.heldField)

theorem overfullModule_refused :
    (plainModule.WrittenAs (fun _ _ => True) overfullModule ∧ overfullModule.IsProper) ∧
      read? plainModule.write = some plainModule ∧ read? overfullModule.compact = none := by
  have locationWritten : plainModule.location.WrittenAs plainModule.location.toJson :=
    Json.isRecord_object plainModule.location.record _
  have kindWritten : plainModule.kind.WrittenAs (fun _ _ => True) overfullKind :=
    ⟨_, .moduleEntry, .object (List.Perm.refl _) (by simp)⟩
  have record : overfullModule.IsRecord
      (plainModule.record plainModule.location.toJson overfullKind) fun _ => True :=
    Json.isRecord_object _ _
  have proper : overfullModule.IsProper := by
    have whole : Json.IsWhole ['1'] := Json.isWhole_toDigits 1
    have exponent : Json.IsExponent ['e', '9', '9', '9'] :=
      .unsigned (Or.inl rfl) (Json.isDigits_toDigits 999)
    have number : Json.IsNumber "1e999".toList := .plain (.parts whole .absent exponent)
    have kindProper : overfullKind.IsProper :=
      .object (by simp [Json.IsProper.string, Json.IsProper.number number])
    exact .object (by simp [Entry.record, Json.heldField, Json.IsProper.string, kindProper,
      Json.isProper_strings, plainModule.location.isProper_toJson])
  have refused : overfullKind.isSound EntryKind.deepest = false := by decide +kernel
  refine ⟨⟨⟨_, _, locationWritten, kindWritten, record⟩, proper⟩, ?_, ?_⟩
  · rw [read?, write, Json.parse?_compact plainModule.isProper_toJson]
    exact plainModule.ofJson?_of_written (plainModule.writtenAs_toJson _)
  · rw [read?, Json.parse?_compact proper, Option.bind_some,
      plainModule.ofJson?_of_record locationWritten kindWritten record, refused]
    rfl

end Entry

end DeclarationIndex
