import DeclarationIndex.Proofs.Index.LastWrite

/-!
A file that has changed is taken out of the index and indexed again. To do so twice in a row leaves
what doing so once leaves, also where the file writes visibilities of other files' entries, and
the second time just as many entries are taken out as were put in the first time.
-/

namespace DeclarationIndex

namespace Index

theorem names_eq_of_get_eq_nil_iff {first second : Index}
    (same : ∀ name, first.get name = [] ↔ second.get name = []) :
    first.names = second.names := by
  have mem_iff : ∀ name, name ∈ first.names ↔ name ∈ second.names := by
    intro name
    rw [mem_names_iff_get, mem_names_iff_get, not_iff_not, same]
  have nodup (index : Index) : index.names.Nodup := by
    refine index.names_pairwise_lt.imp fun {name other} less same => ?_
    exact String.lt_irrefl name (same ▸ less)
  have perm : first.names.Perm second.names :=
    (List.perm_ext_iff_of_nodup (nodup first) (nodup second)).mpr mem_iff
  exact perm.eq_of_pairwise (fun _ _ _ _ below above => absurd above (String.lt_asymm below))
    first.names_pairwise_lt second.names_pairwise_lt

theorem names_eq_of_get_eq {first second : Index}
    (same : ∀ name, first.get name = second.get name) : first.names = second.names :=
  names_eq_of_get_eq_nil_iff fun name => by rw [same]

theorem countFile_insert (index : Index) (entry : Entry) (path : String) :
    (index.insert entry).countFile path =
      index.countFile path + if entry.filePath = path then 1 else 0 := by
  have agrees := (perform_agrees (get_eq_under index) (.insert entry)).2
  have perm : (index.insert entry).pairs.Perm (index.pairs ++ [(entry.name, entry)]) :=
    pairs_perm agrees
  rw [countFile_eq_countP_pairs, perm.countP_eq, List.countP_append, ← countFile_eq_countP_pairs,
    List.countP_singleton]
  simp

theorem countFile_update (index : Index) (name : String) {change : Entry → Entry}
    (stays : ∀ entry, (change entry).filePath = entry.filePath) (path : String) :
    (index.update name change).countFile path = index.countFile path := by
  have agrees := (perform_agrees (get_eq_under index) (.update name change)).2
  have perm : (index.update name change).pairs.Perm (index.pairs.update name change) :=
    pairs_perm agrees
  rw [countFile_eq_countP_pairs, perm.countP_eq, countFile_eq_countP_pairs, Log.update,
    List.countP_map]
  congr
  funext pair
  simp only [Function.comp_apply]
  split
  · rw [stays]
  · rfl

theorem countFile_eraseFile (index : Index) (path : String) :
    (index.eraseFile path).countFile path = 0 := by
  have agrees := (perform_agrees (get_eq_under index) (.eraseFile path)).2
  have perm : (index.eraseFile path).pairs.Perm (index.pairs.filter (·.2.filePath ≠ path)) :=
    pairs_perm agrees
  rw [countFile_eq_countP_pairs, perm.countP_eq, List.countP_eq_zero]
  intro pair member
  simpa using (List.mem_filter.mp member).2

theorem countFile_applyAll (index : Index) (changes : List Change) (path : String) :
    (index.applyAll changes).countFile path = index.countFile path +
      (changes.filterMap Change.declared?).countP (·.filePath = path) := by
  induction changes generalizing index with
  | nil => rfl
  | cons change rest ih =>
    have step : index.applyAll (change :: rest) = (index.apply change).applyAll rest := rfl
    rw [step, ih]
    cases change with
    | declare entry =>
      simp only [apply, countFile_insert, List.filterMap_cons, Change.declared?,
        List.countP_cons, decide_eq_true_eq]
      omega
    | hide name =>
      have stays : ∀ entry : Entry,
          (entry.withVisibility .isPrivate).filePath = entry.filePath := fun _ => rfl
      rw [apply, setVisibility, countFile_update index name stays]
      rfl
    | setMethodVisibility name owner visibility =>
      have stays : ∀ entry : Entry,
          (if entry.isMethod && entry.owner == owner then entry.withVisibility visibility
            else entry).filePath = entry.filePath := by
        intro entry
        split <;> rfl
      rw [apply, setMethodVisibility, countFile_update index name stays]
      rfl

end Index

/-- What comes of indexing a file anew: the answer to taking it out, the number of entries that
are inserted then, and the index after both. -/
structure Reindexed where
  removed : Reply
  inserted : Nat
  index : Index

namespace Indexer

def reindexFile (indexer : Indexer) (index : Index) (file : SourceFile) : Reindexed :=
  let (removed, rest) := index.perform (.eraseFile file.path)
  let (index, inserted) := indexer.indexFile rest file
  ⟨removed, inserted, index⟩

variable (indexer : Indexer) (file : SourceFile)

theorem filter_indexFile_empty (path name : String) :
    ((indexer.indexFile .empty file).1.get name).filter (·.filePath != path) =
      if path = file.path then [] else (indexer.indexFile .empty file).1.get name := by
  split
  · rename_i same
    apply List.filter_eq_nil_iff.mpr
    intro entry member
    simpa [same] using indexer.filePath_of_mem_indexFile_empty file member
  · rename_i different
    apply List.filter_eq_self.mpr
    intro entry member
    have own := indexer.filePath_of_mem_indexFile_empty file member
    simpa [own] using Ne.symm different

theorem countFile_indexFile (index : Index) (path : String) :
    (indexer.indexFile index file).1.countFile path =
      index.countFile path + if path = file.path then (indexer.declared file).length else 0 := by
  have own : ∀ entry ∈ indexer.declared file, entry.filePath = file.path := by
    intro entry member
    obtain ⟨change, made, declares⟩ := List.mem_filterMap.mp member
    cases change with
    | declare added =>
      cases declares
      exact indexer.filePath_of_declared file made
    | _ => cases declares
  have counted : (indexer.declared file).countP (·.filePath = path) =
      if path = file.path then (indexer.declared file).length else 0 := by
    split
    · rename_i same
      apply List.countP_eq_length.mpr
      intro entry member
      simpa [same] using own entry member
    · rename_i different
      apply List.countP_eq_zero.mpr
      intro entry member
      simpa [own entry member] using Ne.symm different
  rw [← counted]
  exact index.countFile_applyAll (indexer.changes file) path

theorem get_reindexFile (index : Index) (name : String) :
    (indexer.reindexFile index file).index.get name =
      ((index.get name).filter (·.filePath != file.path)).map
          (Change.retouchAll (indexer.changes file) name) ++
        (indexer.indexFile .empty file).1.get name := by
  have appended := (index.eraseFile file.path).get_applyAll (indexer.changes file) name
  rw [Index.get_eraseFile] at appended
  exact appended

theorem filter_get_reindexFile (index : Index) (name : String) :
    ((indexer.reindexFile index file).index.get name).filter (·.filePath != file.path) =
      ((index.get name).filter (·.filePath != file.path)).map
        (Change.retouchAll (indexer.changes file) name) := by
  rw [get_reindexFile, List.filter_append, filter_indexFile_empty, if_pos rfl, List.append_nil,
    Change.filter_map_retouchAll, List.filter_filter]
  simp

theorem countFile_reindexFile (index : Index) :
    (indexer.reindexFile index file).index.countFile file.path =
      (indexer.reindexFile index file).inserted := by
  have counted := indexer.countFile_indexFile file (index.eraseFile file.path) file.path
  rw [Index.countFile_eraseFile, Nat.zero_add, if_pos rfl] at counted
  exact counted

/-- Indexing a file anew is idempotent, and each time takes out what the last time put in. -/
theorem reindexFile_idempotent (index : Index) :
    let once := indexer.reindexFile index file
    let twice := indexer.reindexFile once.index file
    (∀ name, twice.index.get name = once.index.get name) ∧
      twice.index.names = once.index.names ∧
      twice.removed = .count once.inserted ∧ twice.inserted = once.inserted := by
  intro once twice
  have same : ∀ name, twice.index.get name = once.index.get name := by
    intro name
    have again : Change.retouchAll (indexer.changes file) name ∘
        Change.retouchAll (indexer.changes file) name =
          Change.retouchAll (indexer.changes file) name := by
      funext entry
      exact Change.retouchAll_retouchAll name entry (indexer.changes file)
    rw [get_reindexFile, filter_get_reindexFile, List.map_map, again, get_reindexFile]
  exact ⟨same, Index.names_eq_of_get_eq same,
    congrArg Reply.count (indexer.countFile_reindexFile file index), rfl⟩

end Indexer

end DeclarationIndex
