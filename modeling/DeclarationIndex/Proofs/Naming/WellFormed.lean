import DeclarationIndex.Proofs.Naming

/-!
When a full name is well formed, told from the local names that it is made of. Between two
separators nothing can go wrong: it is the first name that counts and the last one that show at the
ends.
-/

namespace DeclarationIndex.Naming

/-- Whether a constant can be kept under a name: there is something to it, and no separator stands
at its beginning or at its end. -/
structure IsWellFormed (name : String) : Prop where
  nonempty : name ≠ ""
  start : ¬ separator.toList <+: name.toList
  stop : ¬ separator.toList <:+ name.toList

instance (name : String) : Decidable (IsWellFormed name) :=
  decidable_of_iff
    (name ≠ "" ∧ ¬ separator.toList <+: name.toList ∧ ¬ separator.toList <:+ name.toList)
    ⟨fun ⟨nonempty, start, stop⟩ => ⟨nonempty, start, stop⟩,
      fun ⟨nonempty, start, stop⟩ => ⟨nonempty, start, stop⟩⟩

def IsColons (name : String) : Prop :=
  ∀ c ∈ name.toList, c = ':'

instance (name : String) : Decidable (IsColons name) :=
  List.decidableBAll (· = ':') name.toList

/-- Whether a local name makes a well-formed full name in bodies of these names. It has to be well
formed itself, without its leading separator. Where it stands under a namespace it must not be a
lone colon, and the last rooted name around it must not be of colons only. -/
def FitsIn (names : List String) (name : String) : Prop :=
  IsWellFormed (stripRoot name) ∧
    (isRooted name = true ∨ names = [] ∨
      name ≠ ":" ∧ ∀ root ∈ (names.filter isRooted).getLast?, ¬ IsColons root)

instance (names : List String) (name : String) : Decidable (FitsIn names name) :=
  inferInstanceAs (Decidable (_ ∧ (_ ∨ _ ∨ _ ∧ _)))

theorem separator_prefix_append_iff (front rest : List Char) :
    separator.toList <+: front ++ separator.toList ++ rest ↔
      front = [] ∨ front = [':'] ∨ separator.toList <+: front := by
  rw [toList_separator]
  match front with
  | [] => simp
  | [first] => simp [eq_comm]
  | first :: second :: later => simp

theorem separator_suffix_append_iff (front rest : List Char) :
    separator.toList <:+ front ++ separator.toList ++ rest ↔
      rest = [] ∨ rest = [':'] ∨ separator.toList <:+ rest := by
  have palindrome : separator.toList.reverse = separator.toList := rfl
  have turned := separator_prefix_append_iff rest.reverse front.reverse
  rw [← List.reverse_prefix, palindrome, List.reverse_append, List.reverse_append, palindrome,
    ← List.append_assoc, turned, List.reverse_eq_nil_iff, ← List.reverse_prefix, palindrome,
    List.reverse_eq_iff]
  rfl

theorem isRooted_iff (name : String) : isRooted name = true ↔ separator.toList <+: name.toList := by
  rw [toList_separator, isRooted, stripRoot?]
  constructor
  · intro rooted
    split at rooted
    · rename_i rest chars
      exact ⟨rest, chars.symm⟩
    · cases rooted
  · intro starts
    obtain ⟨rest, chars⟩ := starts
    simp [← chars]

theorem not_separator_prefix_dropSeparators (path : List Char) :
    ¬ separator.toList <+: dropSeparators path := by
  fun_induction dropSeparators path with
  | case1 rest ih => exact ih
  | case2 path unrooted =>
    intro starts
    obtain ⟨rest, rfl⟩ := starts
    exact unrooted rest rfl

theorem dropSeparators_iff_colons (path : List Char) :
    dropSeparators path = [] ∨ dropSeparators path = [':'] ↔ ∀ c ∈ path, c = ':' := by
  fun_induction dropSeparators path with
  | case1 rest ih => simpa using ih
  | case2 path unrooted =>
    match path with
    | [] => simp
    | [first] => simp
    | first :: second :: rest =>
      have apart : ¬ (first = ':' ∧ second = ':') := by
        intro both
        exact unrooted rest (by rw [both.1, both.2])
      simp only [reduceCtorEq, List.cons.injEq, and_false, or_self, List.forall_mem_cons, false_iff]
      exact fun colons => apart ⟨colons.1, colons.2.1⟩

theorem separator_prefix_unrooted_iff (name : String) (rest : List Char) :
    separator.toList <+: (unrooted name).toList ++ separator.toList ++ rest ↔ IsColons name := by
  rw [separator_prefix_append_iff, unrooted, String.toList_ofList, IsColons,
    ← dropSeparators_iff_colons, ← or_assoc]
  exact or_iff_left (not_separator_prefix_dropSeparators name.toList)

theorem not_isColons_of_startsUppercase {name : String} (upper : startsUppercase name = true) :
    ¬ IsColons name := by
  intro colons
  unfold startsUppercase at upper
  split at upper
  · rename_i first rest chars
    obtain rfl : first = ':' := colons first (by simp [chars])
    exact absurd upper (by decide)
  · cases upper

theorem join_append_eq (segment : String) (later : List String) (name : String) :
    ∃ rest, join (segment :: later) ++ separator ++ name = segment ++ separator ++ rest := by
  cases later with
  | nil => exact ⟨name, rfl⟩
  | cons next later =>
    refine ⟨join (next :: later) ++ separator ++ name, ?_⟩
    simp only [join, String.append_assoc]

theorem filter_isRooted_of_rootless {names : List String}
    (rootless : ∀ name ∈ names, isRooted name = false) : names.filter isRooted = [] := by
  rw [List.filter_eq_nil_iff]
  intro name member
  simp [rootless name member]

theorem exists_fromLastRooted_eq_cons {names : List String} (nested : names ≠ []) :
    ∃ head inner, fromLastRooted names = head :: inner ∧
      ((names.filter isRooted).getLast? = some head ∨
        names.filter isRooted = [] ∧ head ∈ names) := by
  rcases fromLastRooted_cases names with
    ⟨rootless, kept⟩ | ⟨outer, root, inner, rfl, rooted, rootless, kept⟩
  · obtain ⟨head, inner, rfl⟩ := List.exists_cons_of_ne_nil nested
    have none := filter_isRooted_of_rootless rootless
    exact ⟨head, inner, kept, Or.inr ⟨none, List.mem_cons_self ..⟩⟩
  · refine ⟨root, inner, kept, Or.inl ?_⟩
    rw [List.filter_append, List.filter_cons_of_pos rooted, filter_isRooted_of_rootless rootless]
    simp

theorem exists_namespaceOf_eq {names : List String} (nested : names ≠ [])
    (paths : ∀ name ∈ names, isConstantPath name = true) :
    ∃ outer, namespaceOf names = some outer ∧ ∀ name : String,
      separator.toList <+: (outer ++ separator ++ name).toList ↔
        ∃ root ∈ (names.filter isRooted).getLast?, IsColons root := by
  obtain ⟨head, inner, kept, first⟩ := exists_fromLastRooted_eq_cons nested
  refine ⟨join ((head :: inner).map unrooted), by rw [namespaceOf, kept], ?_⟩
  intro name
  obtain ⟨rest, whole⟩ := join_append_eq (unrooted head) (inner.map unrooted) name
  rw [List.map_cons, whole, String.toList_append, String.toList_append,
    separator_prefix_unrooted_iff]
  rcases first with last | ⟨none, member⟩
  · simp [last]
  · -- With no rooted name around, the first one is told as a constant by its first letter.
    have rootless : ¬ isRooted head = true := List.filter_eq_nil_iff.mp none head member
    have upper : startsUppercase head = true := by
      have path := paths head member
      simpa only [isConstantPath, rootless, Bool.false_or] using path
    simp [none, not_isColons_of_startsUppercase upper]

theorem nonempty_append_separator (outer name : String) : outer ++ separator ++ name ≠ "" := by
  intro empty
  have chars := congrArg String.toList empty
  simp [toList_separator] at chars

theorem isWellFormed_under_iff (outer name : String) :
    IsWellFormed (outer ++ separator ++ name) ↔
      name ≠ "" ∧ name ≠ ":" ∧ ¬ separator.toList <:+ name.toList ∧
        ¬ separator.toList <+: (outer ++ separator ++ name).toList := by
  have lone : [':'] = String.toList ":" := rfl
  have stop : separator.toList <:+ (outer ++ separator ++ name).toList ↔
      name = "" ∨ name = ":" ∨ separator.toList <:+ name.toList := by
    rw [String.toList_append, String.toList_append, separator_suffix_append_iff,
      String.toList_eq_nil_iff, lone, String.toList_inj]
  constructor
  · intro whole
    have ends := mt stop.mpr whole.stop
    simp only [not_or] at ends
    exact ⟨ends.1, ends.2.1, ends.2.2, whole.start⟩
  · intro parts
    refine ⟨nonempty_append_separator outer name, parts.2.2.2, mt stop.mp ?_⟩
    simp only [not_or]
    exact ⟨parts.1, parts.2.1, parts.2.2.1⟩

theorem isWellFormed_qualify_iff {names : List String}
    (paths : ∀ name ∈ names, isConstantPath name = true) (name : String) :
    IsWellFormed (qualify names name) ↔ FitsIn names name := by
  unfold qualify FitsIn
  cases stripped : stripRoot? name with
  | some rest =>
    have rooted : isRooted name = true := by simp [isRooted, stripped]
    simp [stripRoot, stripped, rooted]
  | none =>
    have rootless : isRooted name = false := by simp [isRooted, stripped]
    rw [stripRoot_of_not_isRooted rootless]
    by_cases nested : names = []
    · simp [nested, namespaceOf, fromLastRooted]
    · obtain ⟨outer, space, start⟩ := exists_namespaceOf_eq nested paths
      have begins : ¬ separator.toList <+: name.toList := by
        rw [← isRooted_iff, rootless]
        decide
      rw [space, isWellFormed_under_iff, start]
      simp only [rootless, nested, Bool.false_eq_true, false_or, not_exists, not_and]
      constructor
      · intro parts
        exact ⟨⟨parts.1, begins, parts.2.2.1⟩, parts.2.1, parts.2.2.2⟩
      · intro parts
        exact ⟨parts.1.nonempty, parts.2.1, parts.1.stop, parts.2.2⟩

end DeclarationIndex.Naming
