import DeclarationIndex.Proofs.Index.Append

/-!
Of the visibilities that changes write to an entry the last one stays. What they write does not
depend on the visibility that is there, so to make changes once more changes nothing more.
-/

namespace DeclarationIndex

namespace Change

variable (name : String) (entry : Entry)

def written? : Change → Option Visibility
  | .declare _ => none
  | .hide hidden => if hidden = name then some .isPrivate else none
  | .setMethodVisibility method owner visibility =>
      if method = name ∧ entry.isMethod = true ∧ entry.owner = owner then some visibility
      else none

def written (changes : List Change) : List Visibility :=
  changes.filterMap (written? name entry)

@[simp] theorem written?_withVisibility (visibility : Visibility) :
    written? name (entry.withVisibility visibility) = written? name entry := by
  funext change
  cases change <;> rfl

theorem retouch_eq (change : Change) :
    change.retouch name entry =
      entry.withVisibility ((change.written? name entry).getD entry.visibility) := by
  cases change with
  | declare added => rfl
  | hide hidden =>
    simp only [retouch, written?]
    split <;> rfl
  | setMethodVisibility method owner visibility =>
    simp only [retouch, written?]
    split <;> rfl

/-- The last writer wins. -/
theorem retouchAll_eq (changes : List Change) :
    retouchAll changes name entry =
      entry.withVisibility ((written name entry changes).getLast?.getD entry.visibility) := by
  induction changes generalizing entry with
  | nil => rfl
  | cons change rest ih =>
    have step : retouchAll (change :: rest) name entry =
        retouchAll rest name (change.retouch name entry) := rfl
    rw [step, ih, retouch_eq]
    simp only [written, written?_withVisibility, List.filterMap_cons]
    cases change.written? name entry with
    | none => rfl
    | some visibility => rw [List.getLast?_cons]; rfl

theorem retouchAll_eq_withVisibility (changes : List Change) :
    retouchAll changes name entry =
      entry.withVisibility (retouchAll changes name entry).visibility := by
  rw [retouchAll_eq]
  rfl

@[simp] theorem kind_retouchAll (changes : List Change) :
    (retouchAll changes name entry).kind = entry.kind := by
  rw [retouchAll_eq]
  rfl

@[simp] theorem isMethod_retouchAll (changes : List Change) :
    (retouchAll changes name entry).isMethod = entry.isMethod := by
  simp only [Entry.isMethod, kind_retouchAll]

theorem retouchAll_retouchAll (changes : List Change) :
    retouchAll changes name (retouchAll changes name entry) = retouchAll changes name entry := by
  have again := retouchAll_eq name (retouchAll changes name entry) changes
  rw [retouchAll_eq name entry changes] at again ⊢
  rw [again]
  simp only [written, written?_withVisibility]
  cases (changes.filterMap (written? name entry)).getLast? <;> rfl

end Change

end DeclarationIndex
