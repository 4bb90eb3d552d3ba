import DeclarationIndex.Proofs.Statistics.Tally

/-!
Whatever was done to an index, its statistics agree with each other and with all else that it shows.
They are counted apart: the names from the buckets, the entries from what the buckets hold, the
files and the kinds from the entries. An empty bucket would set them at odds, but no operation
leaves one behind; the index shows what a flat log of its history shows.
-/

namespace DeclarationIndex

def Change.edit : Change → Edit
  | .declare entry => .insert entry
  | .hide name => .setVisibility name .isPrivate
  | .setMethodVisibility name owner visibility =>
      .update name fun entry =>
        if entry.isMethod && entry.owner == owner then entry.withVisibility visibility else entry

def Operation.edits : Operation → List Edit
  | .edit change => [change]
  | .visit indexer file => (indexer.changes file).map Change.edit

def Log.ofHistory (operations : List Operation) : Log :=
  (Log.performAll [] (operations.flatMap Operation.edits)).2

namespace Index

theorem performAll_append (index : Index) (first second : List Edit) :
    (index.performAll (first ++ second)).2 =
      ((index.performAll first).2.performAll second).2 := by
  induction first generalizing index with
  | nil => rfl
  | cons edit rest ih => exact ih (index.perform edit).2

theorem applyAll_eq_performAll (index : Index) (changes : List Change) :
    index.applyAll changes = (index.performAll (changes.map Change.edit)).2 := by
  induction changes generalizing index with
  | nil => rfl
  | cons change rest ih =>
    have same : index.apply change = (index.perform change.edit).2 := by
      cases change <;> rfl
    have step : index.applyAll (change :: rest) = (index.apply change).applyAll rest := rfl
    rw [step, ih, same]
    rfl

theorem foldl_after_eq_performAll (index : Index) (operations : List Operation) :
    operations.foldl after index = (index.performAll (operations.flatMap Operation.edits)).2 := by
  induction operations generalizing index with
  | nil => rfl
  | cons operation rest ih =>
    have first : index.after operation = (index.performAll operation.edits).2 := by
      cases operation with
      | edit edit => rfl
      | visit indexer file => exact index.applyAll_eq_performAll (indexer.changes file)
    rw [List.foldl_cons, List.flatMap_cons, performAll_append, ih, first]

theorem shows_ofHistory {operations : List Operation} {index : Index}
    (reached : index.ReachedBy operations) : index.Shows (Log.ofHistory operations) := by
  have start : ∀ name, empty.get name = Log.under [] name := fun _ => rfl
  apply shows_of_get_eq
  intro name
  rw [get_of_reachedBy reached, foldl_after_eq_performAll]
  exact (performAll_agrees start (operations.flatMap Operation.edits)).2 name

def listed (index : Index) : List Entry :=
  index.sortedBuckets.flatMap Bucket.entries

theorem listed_perm (index : Index) : index.listed.Perm index.entries :=
  (List.mergeSort_perm _ _).flatMap_right _

/-- That to take out a file takes entries out of the index: it says so and leaves so many less. -/
def Loses (index : Index) (path : String) : Prop :=
  ∃ removed, 0 < removed ∧ (index.perform (.eraseFile path)).1 = .count removed ∧
    (index.perform (.eraseFile path)).2.size + removed = index.size

theorem size_eraseFile (index : Index) (path : String) :
    (index.eraseFile path).size + index.countFile path = index.size := by
  have agrees := (perform_agrees (get_eq_under index) (.eraseFile path)).2
  have size : (index.eraseFile path).size =
      (index.pairs.filter (·.2.filePath ≠ path)).length := (shows_of_get_eq agrees).size
  have dropped := Log.length_sub_length_filter index.pairs path
  have fewer : (index.pairs.filter (·.2.filePath ≠ path)).length ≤ index.pairs.length :=
    List.length_filter_le _ _
  rw [size, countFile_eq_countP_pairs, size_eq_length_pairs, ← dropped]
  omega

theorem loses_iff (index : Index) (path : String) :
    index.Loses path ↔ ∃ entry ∈ index.entries, entry.filePath = path := by
  have counted : 0 < index.countFile path ↔ ∃ entry ∈ index.entries, entry.filePath = path := by
    simp [countFile, List.countP_pos_iff]
  rw [← counted]
  constructor
  · rintro ⟨removed, positive, replied, _⟩
    cases replied
    exact positive
  · intro positive
    exact ⟨index.countFile path, positive, rfl, index.size_eraseFile path⟩

end Index

namespace Statistics

structure AgreesWith (statistics : Statistics) (index : Index) : Prop where
  entries : statistics.entries = index.size
  sum_eq : (statistics.byKind.map (·.2)).sum = statistics.entries
  names : statistics.names = index.names.length
  files : ∃ paths : List String, paths.Nodup ∧ paths.length = statistics.files ∧
    ∀ path, path ∈ paths ↔ index.Loses path
  ascending : (statistics.byKind.map (·.1)).Pairwise (· < ·)
  mem_byKind : ∀ kind count, (kind, count) ∈ statistics.byKind ↔
    0 < count ∧ count = index.listed.countP (·.kind.name = kind)

theorem agreesWith_ofIndex (index : Index) : (ofIndex index).AgreesWith index := by
  have counts := Tally.counts_ofEntries index.entries
  have pass := ofIndex_eq_inOnePass index
  exact {
    entries := rfl
    sum_eq := by
      rw [byKind_eq_tally]
      exact counts.sum_eq
    names := by
      rw [Index.names, List.length_mergeSort, List.length_map]
      rfl
    files := by
      refine ⟨(Tally.ofEntries index.entries).files, counts.distinct, ?_, fun path => ?_⟩
      · rw [pass]
        rfl
      · rw [counts.mem_files, index.loses_iff]
    ascending := by
      rw [byKind_eq_tally]
      exact counts.ascending
    mem_byKind := fun kind count => by
      rw [byKind_eq_tally, counts.mem_byKind, index.listed_perm.countP_eq]
      rfl }

/-- After any history an index shows the log of that history, and its statistics agree with all that
it shows; and one pass over its entries finds them. -/
theorem statistics_agree {operations : List Operation} {index : Index}
    (reached : index.ReachedBy operations) :
    index.Shows (Log.ofHistory operations) ∧ (ofIndex index).AgreesWith index ∧
      ofIndex index = inOnePass index :=
  ⟨Index.shows_ofHistory reached, agreesWith_ofIndex index, ofIndex_eq_inOnePass index⟩

/-- One name is replaced by nothing and another loses its only file, a class moves to another file,
and a file with a module and a method is indexed. -/
def emptyingOperations : List Operation :=
  let entry (name path : String) (kind : EntryKind) : Entry :=
    ⟨name, path, ⟨1, 0, 1, 3⟩, [], .isPublic, kind⟩
  [.edit (.insert (entry "Old" "a.rb" .moduleEntry)),
    .edit .clear,
    .edit (.insert (entry "B" "b.rb" (.classEntry none))),
    .edit (.insert (entry "D" "c.rb" .constant)),
    .edit (.insert (entry "E" "c.rb" .constant)),
    .edit (.replace "E" []),
    .edit (.update "B" fun entry => { entry with filePath := "d.rb" }),
    .edit (.eraseFile "c.rb"),
    .visit ⟨[], []⟩ Indexer.privateMethodFile]

theorem statistics_of_emptied_names :
    let index := emptyingOperations.foldl Index.after .empty
    index.ReachedBy emptyingOperations ∧ index.Shows (Log.ofHistory emptyingOperations) ∧
      (ofIndex index).AgreesWith index ∧
      ofIndex index = ⟨2, 3, 3, [("class", 1), ("method", 1), ("module", 1)]⟩ := by
  intro index
  have reached : index.ReachedBy emptyingOperations := Index.reachedBy_foldl emptyingOperations
  have agrees := statistics_agree reached
  exact ⟨reached, agrees.1, agrees.2.1, by decide +kernel⟩

end Statistics

end DeclarationIndex
