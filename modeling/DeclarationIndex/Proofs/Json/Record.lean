import DeclarationIndex.Json.Basic

/-!
Records as objects. Neither the order of their fields nor fields of other names matter to what is
read from them.
-/

namespace DeclarationIndex.Json

def heldField (field : String × Option Json) : Option (String × Json) :=
  field.2.map fun value => (field.1, value)

/-- That a value is a record of its own fields: an object that holds them, and under other names
only values as told, all in any order. -/
inductive IsRecord (own : List (String × Option Json)) (Other : Json → Prop) : Json → Prop where
  | object {fields others : List (String × Json)}
      (order : fields.Perm (own.filterMap heldField ++ others))
      (other : ∀ field ∈ others, field.1 ∉ own.map Prod.fst ∧ Other field.2) :
      IsRecord own Other (.object fields)

theorem isRecord_object (own : List (String × Option Json)) (Other : Json → Prop) :
    IsRecord own Other (.object (own.filterMap heldField)) := by
  have order : (own.filterMap heldField).Perm (own.filterMap heldField ++ []) := by
    rw [List.append_nil]
  exact .object order fun _ none => nomatch none

theorem fst_of_heldField {field : String × Option Json} {held : String × Json}
    (holds : heldField field = some held) : held.1 = field.1 := by
  obtain ⟨value, _, rfl⟩ := Option.map_eq_some_iff.mp holds
  rfl

section
variable {own : List (String × Option Json)}

theorem filter_held_of_not_mem {name : String} (unknown : name ∉ own.map Prod.fst) :
    (own.filterMap heldField).filter (·.1 == name) = [] := by
  rw [List.filter_eq_nil_iff]
  intro held member same
  obtain ⟨field, known, holds⟩ := List.mem_filterMap.mp member
  have named : field.1 = name := (fst_of_heldField holds).symm.trans (eq_of_beq same)
  exact unknown (List.mem_map.mpr ⟨field, known, named⟩)

theorem filter_held_of_mem (distinct : (own.map Prod.fst).Nodup) {field : String × Option Json}
    (member : field ∈ own) :
    (own.filterMap heldField).filter (·.1 == field.1) = (heldField field).toList := by
  induction own with
  | nil => cases member
  | cons first own ih =>
    obtain ⟨fresh, distinct⟩ := List.nodup_cons.mp distinct
    rw [List.filterMap_cons]
    rcases List.mem_cons.mp member with rfl | member
    · have others := filter_held_of_not_mem fresh
      cases holds : heldField field with
      | none => simpa using others
      | some held => simp [fst_of_heldField holds, others]
    · have rest := ih distinct member
      have apart : first.1 ≠ field.1 :=
        fun same => fresh (same ▸ List.mem_map_of_mem member)
      cases holds : heldField first with
      | none => exact rest
      | some held => simp [fst_of_heldField holds, apart, rest]

theorem uniqueField?_of_perm {fields others : List (String × Json)}
    (order : fields.Perm (own.filterMap heldField ++ others))
    (other : ∀ field ∈ others, field.1 ∉ own.map Prod.fst)
    (distinct : (own.map Prod.fst).Nodup) {field : String × Option Json} (member : field ∈ own) :
    uniqueField? fields field.1 = some field.2 := by
  have noOther : others.filter (·.1 == field.1) = [] := by
    rw [List.filter_eq_nil_iff]
    intro unknown held same
    exact other unknown held (eq_of_beq same ▸ List.mem_map_of_mem member)
  have found := order.filter (·.1 == field.1)
  rw [List.filter_append, filter_held_of_mem distinct member, noOther, List.append_nil] at found
  obtain ⟨name, value⟩ := field
  cases value with
  | none => rw [uniqueField?, List.perm_nil.mp found]
  | some value => rw [uniqueField?, List.perm_singleton.mp found]

variable {Other : Json → Prop} {value : Json}

theorem IsRecord.record?_eq (record : IsRecord own Other value)
    (distinct : (own.map Prod.fst).Nodup) (part : List (String × Option Json))
    (known : ∀ field ∈ part, field ∈ own) :
    value.record? (part.map Prod.fst) = some (part.map Prod.snd) := by
  obtain ⟨order, other⟩ := record
  rw [record?]
  induction part with
  | nil => rfl
  | cons field part ih =>
    have first := uniqueField?_of_perm order (fun field held => (other field held).1) distinct
      (known field (List.mem_cons_self ..))
    have rest := ih fun field member => known field (List.mem_cons_of_mem _ member)
    rw [List.map_cons, List.mapM_cons, first, rest]
    rfl

end

theorem texts?_strings (texts : List String) : (strings texts).texts? = some texts := by
  simp only [strings, Json.texts?]
  induction texts with
  | nil => rfl
  | cons text texts ih =>
    rw [List.map_cons, List.mapM_cons, ih]
    rfl

/-! What can be kept -/

theorem areSound_iff {depth : Nat} {items : List Json} :
    areSound depth items = true ↔ ∀ item ∈ items, item.isSound depth = true := by
  induction items with
  | nil => simp [areSound]
  | cons item items ih => simp [areSound, ih]

theorem areSoundFields_iff {depth : Nat} {fields : List (String × Json)} :
    areSoundFields depth fields = true ↔ ∀ field ∈ fields, field.2.isSound depth = true := by
  induction fields with
  | nil => simp [areSoundFields]
  | cons field fields ih => simp [areSoundFields, ih]

theorem IsRecord.isSound {own : List (String × Option Json)} {Other : Json → Prop} {value : Json}
    (record : IsRecord own Other value) {depth : Nat}
    (ownSound : ∀ field ∈ own, ∀ held ∈ field.2, held.isSound depth = true)
    (otherSound : ∀ other, Other other → other.isSound depth = true) :
    value.isSound (depth + 1) = true := by
  obtain ⟨order, other⟩ := record
  rw [Json.isSound, areSoundFields_iff]
  intro field member
  rcases List.mem_append.mp (order.subset member) with held | unknown
  · obtain ⟨source, known, holds⟩ := List.mem_filterMap.mp held
    obtain ⟨value, some, rfl⟩ := Option.map_eq_some_iff.mp holds
    exact ownSound source known value some
  · exact otherSound field.2 (other field unknown).2

theorem isSound_strings (depth : Nat) (texts : List String) :
    (strings texts).isSound (depth + 1) = true := by
  rw [strings, isSound, areSound_iff]
  intro item member
  obtain ⟨text, _, rfl⟩ := List.mem_map.mp member
  rfl

end DeclarationIndex.Json
