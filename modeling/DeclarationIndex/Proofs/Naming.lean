import DeclarationIndex.Naming
import Mathlib.Data.List.DropRight

/-!
The namespace of a list of nested names, told by the last rooted name among them. As long as no
name is rooted twice over, this is the namespace that a nesting stands for.
-/

namespace DeclarationIndex.Naming

/-- Whether a path still starts with the separator after it has been rooted. -/
def isRootedTwice (path : String) : Bool :=
  (stripRoot? path).any isRooted

def stripRoot (path : String) : String :=
  (stripRoot? path).getD path

/-- The names from the last rooted one on, that one without its separator; all if none is. -/
def counting (names : List String) : List String :=
  match (names.rdropWhile (!isRooted ·)).getLast? with
  | some root => stripRoot root :: names.rtakeWhile (!isRooted ·)
  | none => names

def lexicalNamespace (names : List String) : Option String :=
  if names.isEmpty then none else some (String.intercalate separator (counting names))

theorem join_eq_intercalate (segments : List String) :
    join segments = String.intercalate separator segments := by
  induction segments with
  | nil => rfl
  | cons segment rest ih =>
    cases rest with
    | nil => simp [join]
    | cons next rest => rw [join, String.intercalate_cons_cons, ih]

theorem stripRoot_of_not_isRooted {name : String} (unrooted : isRooted name = false) :
    stripRoot name = name := by
  simp only [isRooted, Option.isSome_eq_false_iff, Option.isNone_iff_eq_none] at unrooted
  simp [stripRoot, unrooted]

theorem dropSeparators_of_not_isRooted {name : String} (rootless : isRooted name = false) :
    dropSeparators name.toList = name.toList := by
  unfold dropSeparators
  split
  · rename_i rest chars
    simp [isRooted, stripRoot?, chars] at rootless
  · rfl

theorem unrooted_eq_stripRoot {name : String} (once : isRootedTwice name = false) :
    unrooted name = stripRoot name := by
  cases rooted : isRooted name with
  | false =>
    rw [stripRoot_of_not_isRooted rooted, unrooted, dropSeparators_of_not_isRooted rooted,
      String.ofList_toList]
  | true =>
    unfold isRooted at rooted
    obtain ⟨rest, stripped⟩ := Option.isSome_iff_exists.mp rooted
    have rootless : isRooted rest = false := by simpa [isRootedTwice, stripped] using once
    unfold stripRoot? at stripped
    split at stripped
    · rename_i chars nameChars
      obtain rfl : String.ofList chars = rest := Option.some.inj stripped
      have kept := dropSeparators_of_not_isRooted rootless
      rw [String.toList_ofList] at kept
      simp [unrooted, stripRoot, stripRoot?, nameChars, dropSeparators, kept]
    · cases stripped

theorem counting_of_last_rooted (outer : List String) {root : String} {inner : List String}
    (rooted : isRooted root = true) (rootless : ∀ name ∈ inner, isRooted name = false) :
    counting (outer ++ root :: inner) = stripRoot root :: inner := by
  have dropped : (outer ++ root :: inner).rdropWhile (!isRooted ·) = outer ++ [root] := by
    have passes : ∀ name ∈ inner.reverse, (!isRooted name) = true := by simpa using rootless
    rw [List.rdropWhile, List.reverse_append, List.reverse_cons, List.append_assoc,
      List.dropWhile_append_of_pos passes]
    simp [rooted]
  have taken : (outer ++ root :: inner).rtakeWhile (!isRooted ·) = inner := by
    have whole := List.rdropWhile_append_rtakeWhile (p := (!isRooted ·))
      (l := outer ++ root :: inner)
    rw [dropped, List.append_assoc] at whole
    simpa using whole
  simp [counting, dropped, taken]

theorem counting_of_rootless {names : List String}
    (rootless : ∀ name ∈ names, isRooted name = false) : counting names = names := by
  have dropped : names.rdropWhile (!isRooted ·) = [] :=
    List.rdropWhile_eq_nil_iff.mpr fun name member => by simp [rootless name member]
  simp [counting, dropped]

theorem map_unrooted_of_rootless {names : List String}
    (rootless : ∀ name ∈ names, isRooted name = false) : names.map unrooted = names := by
  have same : ∀ name ∈ names, unrooted name = id name := by
    intro name member
    rw [unrooted, dropSeparators_of_not_isRooted (rootless name member), String.ofList_toList, id]
  rw [List.map_congr_left same, List.map_id]

theorem fromLastRooted_cases (names : List String) :
    ((∀ name ∈ names, isRooted name = false) ∧ fromLastRooted names = names) ∨
      ∃ outer root inner, names = outer ++ root :: inner ∧ isRooted root = true ∧
        (∀ name ∈ inner, isRooted name = false) ∧ fromLastRooted names = root :: inner := by
  induction names with
  | nil => exact Or.inl ⟨by simp, rfl⟩
  | cons name rest ih =>
    rcases ih with ⟨rootless, _⟩ | ⟨outer, root, inner, rfl, rooted, rootless, kept⟩
    · have none : rest.any isRooted = false := by simpa using rootless
      cases rooted : isRooted name with
      | false =>
        refine Or.inl ⟨List.forall_mem_cons.mpr ⟨rooted, rootless⟩, ?_⟩
        simp [fromLastRooted, none]
      | true =>
        exact Or.inr ⟨[], name, rest, rfl, rooted, rootless, by simp [fromLastRooted, none]⟩
    · have some : (outer ++ root :: inner).any isRooted = true := by simp [rooted]
      refine Or.inr ⟨name :: outer, root, inner, rfl, rooted, rootless, ?_⟩
      rw [fromLastRooted, if_pos some, kept]

theorem map_unrooted_fromLastRooted {names : List String}
    (once : ∀ name ∈ names, isRootedTwice name = false) :
    (fromLastRooted names).map unrooted = counting names := by
  rcases fromLastRooted_cases names with
    ⟨rootless, kept⟩ | ⟨outer, root, inner, rfl, rooted, rootless, kept⟩
  · rw [kept, map_unrooted_of_rootless rootless, counting_of_rootless rootless]
  · have rootOnce := once root (by simp)
    rw [kept, List.map_cons, map_unrooted_of_rootless rootless, unrooted_eq_stripRoot rootOnce,
      counting_of_last_rooted outer rooted rootless]

theorem namespaceOf_eq {names : List String}
    (once : ∀ name ∈ names, isRootedTwice name = false) :
    namespaceOf names = lexicalNamespace names := by
  have segments := map_unrooted_fromLastRooted once
  unfold namespaceOf lexicalNamespace
  cases names with
  | nil => rfl
  | cons name rest =>
    rw [← segments, ← join_eq_intercalate]
    split
    · rename_i empty
      rcases fromLastRooted_cases (name :: rest) with ⟨_, kept⟩ | ⟨_, _, _, _, _, _, kept⟩
      · rw [kept] at empty
        cases empty
      · rw [kept] at empty
        cases empty
    · simp

example : qualify ["A", "::B", "C"] "D" = "B::C::D" := by decide +kernel

end DeclarationIndex.Naming
