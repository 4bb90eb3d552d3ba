import DeclarationIndex.Proofs.Index.Append
import Mathlib.Algebra.GroupWithZero.Nat
import Mathlib.Data.Finset.Card

/-!
Batches against single files. A batch leaves the index that is left when its files are indexed one
by one, in order, and its report counts every candidate once: as indexed or as skipped.
-/

namespace DeclarationIndex

namespace FileView

variable (view : FileView)

def sameFile (first second : String) : Bool :=
  view.key first == view.key second

theorem firstPaths_eq_eraseDupsBy (seen : List (List PathPart)) (paths : List String) :
    view.firstPaths seen paths =
      (paths.filter fun path => !seen.contains (view.key path)).eraseDupsBy view.sameFile := by
  induction paths generalizing seen with
  | nil => rfl
  | cons path rest ih =>
    simp only [firstPaths, List.filter_cons]
    cases known : seen.contains (view.key path) with
    | true => simpa using ih seen
    | false =>
      have later : (rest.filter fun other => !(view.key path :: seen).contains (view.key other)) =
          (rest.filter fun other => !seen.contains (view.key other)).filter
            fun other => view.sameFile other path = false := by
        rw [List.filter_filter]
        refine List.filter_congr fun other _ => ?_
        simp [sameFile, Bool.not_or, Bool.beq_eq_decide_eq]
      simp only [Bool.false_eq_true, if_false, Bool.not_false, if_true, List.eraseDupsBy_cons]
      rw [ih, later]

theorem firstPaths_eq (paths : List String) :
    view.firstPaths [] paths = paths.eraseDupsBy view.sameFile := by
  rw [firstPaths_eq_eraseDupsBy]
  simp

theorem mem_firstPaths {path : String} {seen : List (List PathPart)} {paths : List String} :
    path ∈ view.firstPaths seen paths ↔
      view.key path ∉ seen ∧ paths.find? (view.sameFile path) = some path := by
  induction paths generalizing seen with
  | nil => simp [firstPaths]
  | cons first rest ih =>
    simp only [firstPaths, List.find?_cons, List.contains_iff_mem]
    by_cases known : view.key first ∈ seen
    · simp only [known, if_true, ih]
      by_cases same : view.sameFile path first = true
      · have keys : view.key path = view.key first := by simpa [sameFile] using same
        simp [keys, known]
      · simp [same]
    · simp only [known, if_false, List.mem_cons, ih]
      by_cases same : view.sameFile path first = true
      · have keys : view.key path = view.key first := by simpa [sameFile] using same
        simp [same, keys, known, eq_comm]
      · have keys : view.key path ≠ view.key first := by simpa [sameFile] using same
        have different : path ≠ first := fun equal => keys (congrArg view.key equal)
        simp [same, keys, different]

theorem nodup_keys_firstPaths (seen : List (List PathPart)) (paths : List String) :
    ((view.firstPaths seen paths).map view.key).Nodup := by
  induction paths generalizing seen with
  | nil => exact List.nodup_nil
  | cons path rest ih =>
    simp only [firstPaths]
    split
    · exact ih seen
    · refine List.nodup_cons.mpr ⟨fun again => ?_, ih _⟩
      obtain ⟨other, member, same⟩ := List.mem_map.mp again
      have fresh := (view.mem_firstPaths.mp member).1
      exact fresh (by simp [same])

theorem mem_keys_firstPaths {key : List PathPart} {paths : List String} :
    key ∈ (view.firstPaths [] paths).map view.key ↔ key ∈ paths.map view.key := by
  simp only [List.mem_map, mem_firstPaths, List.not_mem_nil, not_false_eq_true, true_and]
  constructor
  · rintro ⟨path, first, rfl⟩
    exact ⟨path, List.mem_of_find?_eq_some first, rfl⟩
  · rintro ⟨path, member, rfl⟩
    have some : (paths.find? (view.sameFile path)).isSome = true :=
      List.find?_isSome.mpr ⟨path, member, by simp [sameFile]⟩
    obtain ⟨first, found⟩ := Option.isSome_iff_exists.mp some
    have keys : view.key path = view.key first := by
      simpa [sameFile] using List.find?_some found
    have same : view.sameFile first = view.sameFile path := by
      funext other
      simp [sameFile, keys]
    exact ⟨first, by rwa [same], keys.symm⟩

theorem length_firstPaths (paths : List String) :
    (view.firstPaths [] paths).length = (paths.map view.key).toFinset.card := by
  have same : (paths.map view.key).toFinset =
      ((view.firstPaths [] paths).map view.key).toFinset := by
    ext key
    rw [List.mem_toFinset, List.mem_toFinset, mem_keys_firstPaths]
  rw [same, List.toFinset_card_of_nodup (view.nodup_keys_firstPaths [] paths), List.length_map]

end FileView

theorem SourceFile.path_of_read {view : FileView} {path : String} {file : SourceFile}
    (read : SourceFile.read view path = .ok file) : file.path = path := by
  unfold SourceFile.read at read
  split at read
  · split at read
    · obtain rfl := Except.ok.inj read
      rfl
    · cases read
  · cases read

def Report.add (first second : Report) : Report where
  filesIndexed := first.filesIndexed + second.filesIndexed
  filesSkipped := first.filesSkipped + second.filesSkipped
  entries := first.entries + second.entries

namespace Indexer

variable (indexer : Indexer)

/-- Indexes files one after the other, the excluded ones too. -/
def indexEach (index : Index) (files : List SourceFile) : Index :=
  files.foldl (fun index file => (indexer.indexFile index file).1) index

/-- The files that some paths stand for: of the paths to one file the first, if it can be read and
is not excluded. -/
def filesOf (view : FileView) (paths : List String) : List SourceFile :=
  (paths.eraseDupsBy view.sameFile).filterMap fun path =>
    if indexer.includes path then (SourceFile.read view path).toOption else none

structure IndexesOneByOne (index : Index) (files : List SourceFile) (candidates : Nat)
    (outcome : Index × Report) : Prop where
  index_eq : outcome.1 = indexer.indexEach index files
  indexed : outcome.2.filesIndexed = files.length
  skipped : outcome.2.filesIndexed + outcome.2.filesSkipped = candidates
  entries : index.size + outcome.2.entries = outcome.1.size

def tally (files : List SourceFile) : Report where
  filesIndexed := files.countP (indexer.includes ·.path)
  filesSkipped := files.countP (!indexer.includes ·.path)
  entries := ((files.filter (indexer.includes ·.path)).map (indexer.declared · |>.length)).sum

theorem tally_append (first second : List SourceFile) :
    indexer.tally (first ++ second) = (indexer.tally first).add (indexer.tally second) := by
  simp [tally, Report.add, List.countP_append]

theorem indexEach_append (index : Index) (first second : List SourceFile) :
    indexer.indexEach index (first ++ second) =
      indexer.indexEach (indexer.indexEach index first) second :=
  List.foldl_append ..

theorem size_indexEach (index : Index) (files : List SourceFile) :
    (indexer.indexEach index files).size =
      index.size + (files.map (indexer.declared · |>.length)).sum := by
  induction files generalizing index with
  | nil => rfl
  | cons file rest ih =>
    have step : indexer.indexEach index (file :: rest) =
        indexer.indexEach (indexer.indexFile index file).1 rest := rfl
    have grown : (indexer.indexFile index file).1.size =
        index.size + (indexer.declared file).length := indexer.indexFile_size file index
    rw [step, ih, grown, List.map_cons, List.sum_cons, Nat.add_assoc]

theorem addFile_eq (index : Index) (report : Report) (file : SourceFile) :
    indexer.addFile (index, report) file =
      (indexer.indexEach index ([file].filter (indexer.includes ·.path)),
        report.add (indexer.tally [file])) := by
  unfold addFile
  cases included : indexer.includes file.path <;>
    simp [included, tally, indexEach, Report.add, indexFile]

theorem foldl_addFile (index : Index) (report : Report) (files : List SourceFile) :
    files.foldl indexer.addFile (index, report) =
      (indexer.indexEach index (files.filter (indexer.includes ·.path)),
        report.add (indexer.tally files)) := by
  induction files generalizing index report with
  | nil => rfl
  | cons file rest ih =>
    have whole : file :: rest = [file] ++ rest := rfl
    rw [List.foldl_cons, addFile_eq, ih, ← indexEach_append, ← List.filter_append, whole,
      tally_append]
    simp [Report.add, Nat.add_assoc]

theorem indexFiles_eq (index : Index) (files : List SourceFile) :
    indexer.indexFiles index files =
      (indexer.indexEach index (files.filter (indexer.includes ·.path)),
        indexer.tally files) := by
  rw [indexFiles, foldl_addFile]
  simp [Report.add]

theorem indexFiles_one_by_one (index : Index) (files : List SourceFile) :
    indexer.IndexesOneByOne index (files.filter (indexer.includes ·.path)) files.length
      (indexer.indexFiles index files) := by
  rw [indexFiles_eq]
  exact {
    index_eq := rfl
    indexed := List.countP_eq_length_filter
    skipped := by
      have parts := List.length_eq_countP_add_countP
        (fun file : SourceFile => indexer.includes file.path) (l := files)
      simpa [tally] using parts.symm
    entries := (indexer.size_indexEach index _).symm }

theorem indexFiles_append (index : Index) (first second : List SourceFile) :
    indexer.indexFiles index (first ++ second) =
      let (middle, before) := indexer.indexFiles index first
      let (last, after) := indexer.indexFiles middle second
      (last, before.add after) := by
  simp only [indexFiles_eq, List.filter_append, indexEach_append, tally_append]

theorem filter_read_firstPaths (view : FileView) (paths : List String) :
    ((view.firstPaths [] paths).filterMap fun path => (SourceFile.read view path).toOption).filter
      (indexer.includes ·.path) = indexer.filesOf view paths := by
  rw [filesOf, ← view.firstPaths_eq, List.filter_filterMap]
  refine List.filterMap_congr fun path _ => ?_
  cases read : SourceFile.read view path with
  | error failure => simp [Except.toOption]
  | ok file => simp [Except.toOption, Option.filter, SourceFile.path_of_read read]

theorem indexPaths_one_by_one (view : FileView) (index : Index) (paths : List String) :
    indexer.IndexesOneByOne index (indexer.filesOf view paths)
      (paths.map view.key).toFinset.card (indexer.indexPaths view index paths) := by
  let files := (view.firstPaths [] paths).filterMap fun path => (SourceFile.read view path).toOption
  have batch := indexer.indexFiles_one_by_one index files
  have readable : files.length ≤ (view.firstPaths [] paths).length := List.length_filterMap_le ..
  have outcome : indexer.indexPaths view index paths =
      ((indexer.indexFiles index files).1,
        { (indexer.indexFiles index files).2 with
          filesSkipped := (indexer.indexFiles index files).2.filesSkipped +
            ((view.firstPaths [] paths).length - files.length) }) := rfl
  rw [indexer.filter_read_firstPaths view paths] at batch
  rw [← view.length_firstPaths, outcome]
  exact {
    index_eq := batch.index_eq
    indexed := batch.indexed
    skipped := by
      have counted := batch.skipped
      dsimp only
      omega
    entries := batch.entries }

/-- A batch of paths does what its first readable paths do one by one, and so does a batch of
files; batches of files can be cut anywhere. -/
theorem batches_index_one_by_one :
    (∀ view index paths,
      indexer.IndexesOneByOne index (indexer.filesOf view paths)
        (paths.map view.key).toFinset.card (indexer.indexPaths view index paths)) ∧
    (∀ index files,
      indexer.IndexesOneByOne index (files.filter (indexer.includes ·.path)) files.length
        (indexer.indexFiles index files)) ∧
    ∀ index first second,
      indexer.indexFiles index (first ++ second) =
        let (middle, before) := indexer.indexFiles index first
        let (last, after) := indexer.indexFiles middle second
        (last, before.add after) :=
  ⟨indexer.indexPaths_one_by_one, indexer.indexFiles_one_by_one, indexer.indexFiles_append⟩

end Indexer

end DeclarationIndex
