import DeclarationIndex.Proofs.Index.Enumeration

/-!
Statistics counted in one pass: entry by entry, with the files that have been met so far and an
ascending list of the kinds, each with its count. The pass comes to the same as counting the entries
anew for each kind.
-/

namespace DeclarationIndex

namespace Statistics

def countOne (kind : String) : List (String × Nat) → List (String × Nat)
  | [] => [(kind, 1)]
  | (other, count) :: rest =>
      if kind < other then (kind, 1) :: (other, count) :: rest
      else if kind = other then (other, count + 1) :: rest
      else (other, count) :: countOne kind rest

def countOf (kind : String) (counts : List (String × Nat)) : Nat :=
  ((counts.filter (·.1 = kind)).map (·.2)).sum

theorem countOf_cons (kind : String) (first : String × Nat) (rest : List (String × Nat)) :
    countOf kind (first :: rest) = (if first.1 = kind then first.2 else 0) + countOf kind rest := by
  by_cases same : first.1 = kind <;> simp [countOf, same]

theorem countOf_of_absent {kind : String} {counts : List (String × Nat)}
    (absent : kind ∉ counts.map (·.1)) : countOf kind counts = 0 := by
  have none : counts.filter (·.1 = kind) = [] := by
    rw [List.filter_eq_nil_iff]
    intro pair member same
    exact absent (List.mem_map.mpr ⟨pair, member, of_decide_eq_true same⟩)
  rw [countOf, none]
  rfl

theorem mem_iff_countOf {counts : List (String × Nat)} (distinct : (counts.map (·.1)).Nodup)
    (positive : ∀ pair ∈ counts, 0 < pair.2) {kind : String} {count : Nat} :
    (kind, count) ∈ counts ↔ 0 < count ∧ count = countOf kind counts := by
  induction counts with
  | nil =>
    simp only [countOf, List.not_mem_nil, List.filter_nil, List.map_nil, List.sum_nil, false_iff]
    omega
  | cons first rest ih =>
    obtain ⟨absent, distinctRest⟩ := List.nodup_cons.mp distinct
    obtain ⟨positiveFirst, positiveRest⟩ := List.forall_mem_cons.mp positive
    rw [countOf_cons, List.mem_cons, ih distinctRest positiveRest, Prod.ext_iff]
    by_cases same : first.1 = kind
    · rw [if_pos same, countOf_of_absent (same ▸ absent)]
      simp only [same, true_and, Nat.add_zero]
      omega
    · rw [if_neg same]
      simp only [Ne.symm same, false_and, false_or, Nat.zero_add]

theorem nodup_of_ascending {texts : List String} (ascending : texts.Pairwise (· < ·)) :
    texts.Nodup := by
  refine ascending.imp fun {first second} below same => ?_
  exact String.lt_irrefl second (same ▸ below)

theorem countOf_countOne (kind other : String) (counts : List (String × Nat)) :
    countOf other (countOne kind counts) =
      countOf other counts + if kind = other then 1 else 0 := by
  induction counts with
  | nil =>
    rw [countOne, countOf_cons, Nat.add_comm]
  | cons first rest ih =>
    simp only [countOne]
    split
    · rw [countOf_cons, Nat.add_comm]
    · split
      · rename_i same
        simp only [countOf_cons, same]
        split <;> omega
      · simp only [countOf_cons, ih, Nat.add_assoc]

theorem sum_countOne (kind : String) (counts : List (String × Nat)) :
    ((countOne kind counts).map (·.2)).sum = (counts.map (·.2)).sum + 1 := by
  induction counts with
  | nil => rfl
  | cons first rest ih =>
    simp only [countOne]
    split
    · simp only [List.map_cons, List.sum_cons]
      omega
    · split
      · simp only [List.map_cons, List.sum_cons]
        omega
      · simp only [List.map_cons, List.sum_cons, ih]
        omega

theorem positive_countOne (kind : String) {counts : List (String × Nat)}
    (positive : ∀ pair ∈ counts, 0 < pair.2) : ∀ pair ∈ countOne kind counts, 0 < pair.2 := by
  induction counts with
  | nil => simp [countOne]
  | cons first rest ih =>
    obtain ⟨positiveFirst, positiveRest⟩ := List.forall_mem_cons.mp positive
    simp only [countOne]
    split
    · exact List.forall_mem_cons.mpr ⟨Nat.one_pos, positive⟩
    · split
      · exact List.forall_mem_cons.mpr ⟨Nat.succ_pos _, positiveRest⟩
      · exact List.forall_mem_cons.mpr ⟨positiveFirst, ih positiveRest⟩

theorem mem_kinds_countOne {kind other : String} {counts : List (String × Nat)} :
    other ∈ (countOne kind counts).map (·.1) ↔ other = kind ∨ other ∈ counts.map (·.1) := by
  induction counts with
  | nil => simp [countOne]
  | cons first rest ih =>
    simp only [countOne]
    split
    · simp
    · split
      · rename_i same
        simp [same]
      · simp only [List.map_cons, List.mem_cons, ih]
        exact or_left_comm

theorem ascending_countOne (kind : String) {counts : List (String × Nat)}
    (ascending : (counts.map (·.1)).Pairwise (· < ·)) :
    ((countOne kind counts).map (·.1)).Pairwise (· < ·) := by
  induction counts with
  | nil => exact List.pairwise_singleton ..
  | cons first rest ih =>
    obtain ⟨least, ascendingRest⟩ := List.pairwise_cons.mp ascending
    simp only [countOne]
    split
    · rename_i below
      refine List.pairwise_cons.mpr ⟨fun other member => ?_, ascending⟩
      rcases List.mem_cons.mp member with rfl | later
      · exact below
      · exact String.lt_trans below (least other later)
    · split
      · exact ascending
      · rename_i notBelow different
        refine List.pairwise_cons.mpr ⟨fun other member => ?_, ih ascendingRest⟩
        rcases mem_kinds_countOne.mp member with rfl | old
        · by_contra notAbove
          have same := String.le_antisymm (String.not_lt.mp notBelow) (String.not_lt.mp notAbove)
          exact different same.symm
        · exact least other old

structure Tally where
  files : List String
  byKind : List (String × Nat)

namespace Tally

def meet (tally : Tally) (entry : Entry) : Tally where
  files := tally.files.insert entry.filePath
  byKind := countOne entry.kind.name tally.byKind

def ofEntries (entries : List Entry) : Tally :=
  entries.foldl meet ⟨[], []⟩

/-- That a tally is that of some entries: it has each of their files once and, in ascending order,
each of their kinds with the number of its entries. -/
structure Counts (tally : Tally) (entries : List Entry) : Prop where
  distinct : tally.files.Nodup
  mem_files : ∀ path, path ∈ tally.files ↔ ∃ entry ∈ entries, entry.filePath = path
  ascending : (tally.byKind.map (·.1)).Pairwise (· < ·)
  positive : ∀ pair ∈ tally.byKind, 0 < pair.2
  countOf_eq : ∀ kind, countOf kind tally.byKind = countKind entries kind
  sum_eq : (tally.byKind.map (·.2)).sum = entries.length

theorem counts_nil : Counts ⟨[], []⟩ [] where
  distinct := List.nodup_nil
  mem_files := by simp
  ascending := List.Pairwise.nil
  positive := by simp
  countOf_eq _ := rfl
  sum_eq := rfl

theorem Counts.meet {tally : Tally} {entries : List Entry} (counts : tally.Counts entries)
    (entry : Entry) : (tally.meet entry).Counts (entries ++ [entry]) where
  distinct := counts.distinct.insert
  mem_files path := by
    rw [Tally.meet, List.mem_insert_iff, counts.mem_files]
    simp only [List.mem_append, List.mem_singleton, or_and_right, exists_or, exists_eq_left]
    rw [or_comm, eq_comm (a := path)]
  ascending := ascending_countOne entry.kind.name counts.ascending
  positive := positive_countOne entry.kind.name counts.positive
  countOf_eq kind := by
    rw [Tally.meet, countOf_countOne, counts.countOf_eq]
    simp [countKind, List.countP_append, List.countP_singleton]
  sum_eq := by
    rw [Tally.meet, sum_countOne, counts.sum_eq, List.length_append, List.length_singleton]

theorem counts_ofEntries (entries : List Entry) : (ofEntries entries).Counts entries := by
  induction entries using List.reverseRecOn with
  | nil => exact counts_nil
  | append_singleton before last ih =>
    rw [ofEntries, List.foldl_append]
    exact ih.meet last

variable {tally : Tally} {entries : List Entry}

theorem Counts.mem_byKind (counts : tally.Counts entries) (kind : String) (count : Nat) :
    (kind, count) ∈ tally.byKind ↔ 0 < count ∧ count = countKind entries kind := by
  rw [mem_iff_countOf (nodup_of_ascending counts.ascending) counts.positive, counts.countOf_eq]

theorem Counts.length_files (counts : tally.Counts entries) :
    tally.files.length = (entries.map Entry.filePath).eraseDups.length := by
  apply List.Perm.length_eq
  rw [List.perm_ext_iff_of_nodup counts.distinct (nodup_eraseDups _)]
  intro path
  rw [counts.mem_files, List.mem_eraseDups, List.mem_map]

end Tally

theorem eq_of_ascending {first second : List (String × Nat)}
    (ascendingFirst : (first.map (·.1)).Pairwise (· < ·))
    (ascendingSecond : (second.map (·.1)).Pairwise (· < ·))
    (same : ∀ pair, pair ∈ first ↔ pair ∈ second) : first = second := by
  have distinctFirst : first.Nodup := (nodup_of_ascending ascendingFirst).of_map
  have distinctSecond : second.Nodup := (nodup_of_ascending ascendingSecond).of_map
  have perm : first.Perm second :=
    (List.perm_ext_iff_of_nodup distinctFirst distinctSecond).mpr same
  rw [List.pairwise_map] at ascendingFirst ascendingSecond
  exact perm.eq_of_pairwise (fun _ _ _ _ below above => absurd above (String.lt_asymm below))
    ascendingFirst ascendingSecond

theorem name_mem_kindNames (kind : EntryKind) : kind.name ∈ kindNames := by
  cases kind <;> simp [EntryKind.name, kindNames]

theorem byKind_eq_tally (index : Index) :
    (ofIndex index).byKind = (Tally.ofEntries index.entries).byKind := by
  have counts := Tally.counts_ofEntries index.entries
  have ascending : ((ofIndex index).byKind.map (·.1)).Pairwise (· < ·) := by
    have kinds : kindNames.Pairwise (· < ·) := by decide
    have all : ((kindNames.map fun kind => (kind, countKind index.entries kind)).map
        (·.1)).Pairwise (· < ·) := by
      rwa [List.map_map, Function.comp_def, List.map_id']
    exact all.sublist (List.filter_sublist.map _)
  refine eq_of_ascending ascending counts.ascending fun (kind, count) => ?_
  have known : 0 < countKind index.entries kind → kind ∈ kindNames := by
    intro positive
    obtain ⟨entry, _, named⟩ := List.countP_pos_iff.mp positive
    exact beq_iff_eq.mp named ▸ name_mem_kindNames entry.kind
  rw [counts.mem_byKind]
  simp only [ofIndex, List.mem_filter, List.mem_map, Prod.mk.injEq, bne_iff_ne]
  constructor
  · rintro ⟨⟨_, _, rfl, rfl⟩, positive⟩
    exact ⟨Nat.pos_of_ne_zero positive, rfl⟩
  · rintro ⟨positive, rfl⟩
    exact ⟨⟨kind, known positive, rfl, rfl⟩, Nat.ne_of_gt positive⟩

def inOnePass (index : Index) : Statistics :=
  let tally := Tally.ofEntries index.entries
  { files := tally.files.length
    names := index.buckets.length
    entries := (index.buckets.map (·.entries.length)).sum
    byKind := tally.byKind }

theorem ofIndex_eq_inOnePass (index : Index) : ofIndex index = inOnePass index := by
  have files := (Tally.counts_ofEntries index.entries).length_files
  have size : index.size = (index.buckets.map (·.entries.length)).sum := by
    rw [Index.size, Index.entries, List.length_flatMap]
  calc
    ofIndex index
      = ⟨(ofIndex index).files, index.buckets.length, index.size, (ofIndex index).byKind⟩ := rfl
    _ = inOnePass index := by rw [byKind_eq_tally, size, ofIndex, ← files]; rfl

end Statistics

end DeclarationIndex
