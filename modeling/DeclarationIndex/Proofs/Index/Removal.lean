import DeclarationIndex.Proofs.Index.Reindex
import Mathlib.Data.List.Forall2

/-!
To take one file out of an index and to index another can be done in either order: the answers and
the index after both are the same. A file that is taken out right after it was indexed leaves what
was there before, but for visibilities.
-/

namespace DeclarationIndex

namespace Index

structure Agrees (first second : Index) : Prop where
  names : first.names = second.names
  get : ∀ name, first.get name = second.get name

/-- Whether two indexes agree in everything but the visibilities of their entries. -/
structure AgreesButVisibility (first second : Index) : Prop where
  names : first.names = second.names
  get : ∀ name, List.Forall₂
    (fun entry other => ∃ visibility, entry = other.withVisibility visibility)
    (first.get name) (second.get name)

theorem filePath_ne_of_countFile_eq_zero {index : Index} {path name : String} {entry : Entry}
    (none : index.countFile path = 0) (held : entry ∈ index.get name) : entry.filePath ≠ path := by
  rw [get_eq_under] at held
  obtain ⟨pair, member, rfl⟩ := List.mem_map.mp held
  have inside : pair ∈ index.pairs := (List.mem_filter.mp member).1
  rw [countFile_eq_countP_pairs, List.countP_eq_zero] at none
  simpa using none pair inside

end Index

namespace Indexer

variable (indexer : Indexer) (file : SourceFile)

theorem get_eraseFile_indexFile (index : Index) (path name : String) :
    ((indexer.indexFile index file).1.eraseFile path).get name =
      ((index.get name).filter (·.filePath != path)).map
          (Change.retouchAll (indexer.changes file) name) ++
        if path = file.path then [] else (indexer.indexFile .empty file).1.get name := by
  have appended := index.get_applyAll (indexer.changes file) name
  calc ((indexer.indexFile index file).1.eraseFile path).get name
      = ((indexer.indexFile index file).1.get name).filter (·.filePath != path) :=
        Index.get_eraseFile ..
    _ = ((index.get name).map (Change.retouchAll (indexer.changes file) name)).filter
            (·.filePath != path) ++
          ((indexer.indexFile .empty file).1.get name).filter (·.filePath != path) := by
        rw [← List.filter_append]
        exact congrArg (List.filter _) appended
    _ = _ := by rw [Change.filter_map_retouchAll, filter_indexFile_empty]

theorem get_indexFile_eraseFile {path : String} (different : path ≠ file.path) (index : Index)
    (name : String) :
    (indexer.indexFile (index.eraseFile path) file).1.get name =
      ((indexer.indexFile index file).1.eraseFile path).get name := by
  have appended := (index.eraseFile path).get_applyAll (indexer.changes file) name
  rw [Index.get_eraseFile] at appended
  rw [get_eraseFile_indexFile, if_neg different]
  exact appended

theorem get_eraseFile_indexFile_self {index : Index} (none : index.countFile file.path = 0)
    (name : String) :
    ((indexer.indexFile index file).1.eraseFile file.path).get name =
      (index.get name).map (Change.retouchAll (indexer.changes file) name) := by
  have others : (index.get name).filter (·.filePath != file.path) = index.get name := by
    apply List.filter_eq_self.mpr
    intro entry held
    simpa using Index.filePath_ne_of_countFile_eq_zero none held
  rw [get_eraseFile_indexFile, others, if_pos rfl, List.append_nil]

/-- Taking out a file and indexing another commute, answers included, and taking out a file that
was new to the index undoes indexing it, but for visibilities. -/
theorem removal_commutes_with_indexing (index : Index) :
    (∀ path, path ≠ file.path →
      let removed := index.perform (.eraseFile path)
      let indexed := indexer.indexFile index file
      let indexedLast := indexer.indexFile removed.2 file
      let removedLast := indexed.1.perform (.eraseFile path)
      indexedLast.1.Agrees removedLast.2 ∧ removed.1 = removedLast.1 ∧
        indexedLast.2 = indexed.2) ∧
    (index.countFile file.path = 0 →
      let indexed := indexer.indexFile index file
      let removed := indexed.1.perform (.eraseFile file.path)
      removed.2.AgreesButVisibility index ∧ removed.1 = .count indexed.2) := by
  constructor
  · intro path different removed indexed indexedLast removedLast
    have same : ∀ name, indexedLast.1.get name = removedLast.2.get name :=
      indexer.get_indexFile_eraseFile file different index
    have counted : indexed.1.countFile path = index.countFile path := by
      rw [countFile_indexFile, if_neg different, Nat.add_zero]
    exact ⟨⟨Index.names_eq_of_get_eq same, same⟩, congrArg Reply.count counted.symm, rfl⟩
  · intro none indexed removed
    have left : ∀ name, removed.2.get name =
        (index.get name).map (Change.retouchAll (indexer.changes file) name) :=
      indexer.get_eraseFile_indexFile_self file none
    have counted : indexed.1.countFile file.path = indexed.2 := by
      rw [countFile_indexFile, if_pos rfl, none, Nat.zero_add]
      rfl
    refine ⟨⟨Index.names_eq_of_get_eq_nil_iff ?_, ?_⟩, congrArg Reply.count counted⟩
    · intro name
      rw [left, List.map_eq_nil_iff]
    · intro name
      rw [left, List.forall₂_map_left_iff, List.forall₂_same]
      intro entry _
      exact Change.exists_retouchAll_eq (indexer.changes file) name entry

/-- Two files with a method that a third one declares too and makes private. -/
def methodTwice : Index :=
  (Index.empty.insert earlierMethod).insert { earlierMethod with filePath := "c.rb" }

theorem removal_around_private_call :
    let indexer : Indexer := ⟨[], []⟩
    let indexed := indexer.indexFile methodTwice privateMethodFile
    let removed := indexed.1.perform (.eraseFile "b.rb")
    ("b.rb" ≠ privateMethodFile.path ∧ methodTwice.countFile privateMethodFile.path = 0) ∧
      (indexer.indexFile (methodTwice.eraseFile "b.rb") privateMethodFile).1.Agrees removed.2 ∧
      removed.1 = .count 1 ∧
      (removed.2.get "c").map (fun entry => (entry.filePath, entry.visibility)) =
        [("c.rb", .isPrivate), ("a.rb", .isPrivate)] ∧
      (indexed.1.eraseFile "a.rb").AgreesButVisibility methodTwice ∧ indexed.2 = 2 := by
  intro indexer indexed removed
  have different : "b.rb" ≠ privateMethodFile.path := by decide
  have none : methodTwice.countFile privateMethodFile.path = 0 := by decide +kernel
  obtain ⟨commutes, undoes⟩ :=
    removal_commutes_with_indexing indexer privateMethodFile methodTwice
  exact ⟨⟨different, none⟩, (commutes "b.rb" different).1, by decide +kernel, by decide +kernel,
    (undoes none).1, by decide +kernel⟩

end Indexer

end DeclarationIndex
