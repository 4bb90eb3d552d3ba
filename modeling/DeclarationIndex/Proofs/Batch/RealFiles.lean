import DeclarationIndex.File.System
import DeclarationIndex.Proofs.Batch.OneByOne

/-!
How often a batch of paths indexes a real file: never twice, and once exactly if it takes the first
path to the file. What other paths to the file say has no weight, even where they could be read and
the first one could not.
-/

namespace DeclarationIndex

def Place.key (place : Place) : List PathPart :=
  .root :: place.map .name

theorem Place.key_injective {first second : Place} (same : first.key = second.key) :
    first = second := by
  have names : first.map PathPart.name = second.map PathPart.name := (List.cons.inj same).2
  exact List.map_injective_iff.mpr (fun _ _ equal => PathPart.name.inj equal) names

theorem FileView.key_of_realPlace? {view : FileView} {path : String} {place : Place}
    (leads : view.realPlace? path = some place) : view.key path = place.key := by
  simp only [key, leads, Place.key]

theorem SourceFile.document_of_read {view : FileView} {path : String} {file : SourceFile}
    (read : SourceFile.read view path = .ok file) :
    ∃ document, view.read path = .ok document := by
  unfold SourceFile.read at read
  split at read
  · cases outcome : view.read path with
    | ok document => exact ⟨document, rfl⟩
    | error error =>
      rw [outcome] at read
      cases read
  · cases read

namespace FileSystem

variable {system : FileSystem} {path : String}

theorem resolve_of_node {node : FileNode} (found : system.node path = .ok node) :
    ∃ place, system.resolve path = .ok place := by
  cases resolved : system.resolve path with
  | ok place => exact ⟨place, rfl⟩
  | error error =>
    simp only [FileSystem.node, resolved] at found
    split at found <;> cases found

theorem realPlace?_of_read {document : Document} (read : system.view.read path = .ok document) :
    ∃ place, system.view.realPlace? path = some place := by
  cases found : system.node path with
  | ok node =>
    obtain ⟨place, resolved⟩ := resolve_of_node found
    exact ⟨place, by simp only [view, resolved, Except.toOption]⟩
  | error error =>
    change system.read path = _ at read
    rw [FileSystem.read, found] at read
    cases read

end FileSystem

namespace Indexer

variable (indexer : Indexer)

def takes (view : FileView) (path : String) : Bool :=
  Path.isSource path && (view.read path).toOption.isSome && indexer.includes path

variable {indexer}

theorem takes_iff {view : FileView} {path : String} :
    indexer.takes view path = true ↔
      indexer.includes path = true ∧ ∃ file, SourceFile.read view path = .ok file := by
  unfold takes SourceFile.read
  cases Path.isSource path
  · simp
  · cases view.read path with
    | ok document => simp [Except.toOption]
    | error error => simp [Except.toOption]

theorem paths_filesOf (view : FileView) (paths : List String) :
    (indexer.filesOf view paths).map SourceFile.path =
      (view.firstPaths [] paths).filter (indexer.takes view) := by
  rw [filesOf, ← view.firstPaths_eq, List.map_filterMap, ← List.filterMap_eq_filter]
  refine List.filterMap_congr fun path _ => ?_
  by_cases included : indexer.includes path = true
  · cases read : SourceFile.read view path with
    | ok file =>
      have taken : indexer.takes view path = true := takes_iff.mpr ⟨included, file, read⟩
      simp [included, taken, Option.guard, Except.toOption, SourceFile.path_of_read read]
    | error failure =>
      have refused : indexer.takes view path = false := by
        simp [← Bool.not_eq_true, takes_iff, read]
      simp [included, refused, Option.guard, Except.toOption]
  · have refused : indexer.takes view path = false := by
      simp [← Bool.not_eq_true, takes_iff, included]
    simp [included, refused, Option.guard]

theorem realPlace?_eq_iff_of_takes {system : FileSystem} {path : String} {place : Place}
    (taken : indexer.takes system.view path = true) :
    system.view.realPlace? path = some place ↔ system.view.key path = place.key := by
  constructor
  · exact FileView.key_of_realPlace?
  · intro same
    obtain ⟨_, file, read⟩ := takes_iff.mp taken
    obtain ⟨document, readable⟩ := SourceFile.document_of_read read
    obtain ⟨real, leads⟩ := FileSystem.realPlace?_of_read readable
    have place : real = place :=
      Place.key_injective ((FileView.key_of_realPlace? leads).symm.trans same)
    rw [leads, place]

def keysOf (indexer : Indexer) (view : FileView) (paths : List String) : List (List PathPart) :=
  ((view.firstPaths [] paths).filter (indexer.takes view)).map view.key

theorem nodup_keysOf (view : FileView) (paths : List String) :
    (indexer.keysOf view paths).Nodup :=
  (view.nodup_keys_firstPaths [] paths).sublist (List.filter_sublist.map view.key)

theorem mem_keysOf {view : FileView} {paths : List String} {key : List PathPart} :
    key ∈ indexer.keysOf view paths ↔
      ∃ path, paths.find? (view.key · == key) = some path ∧ indexer.takes view path = true := by
  simp only [keysOf, List.mem_map, List.mem_filter, FileView.mem_firstPaths, List.not_mem_nil,
    not_false_eq_true, true_and]
  have sameFile (path : String) : view.sameFile path = (view.key · == view.key path) := by
    funext other
    simp [FileView.sameFile, eq_comm]
  constructor
  · rintro ⟨path, ⟨first, taken⟩, rfl⟩
    exact ⟨path, sameFile path ▸ first, taken⟩
  · rintro ⟨path, first, taken⟩
    have same : view.key path = key := by simpa using List.find?_some first
    exact ⟨path, ⟨by rwa [sameFile, same], taken⟩, same⟩

theorem countP_realPlace?_eq (system : FileSystem) (paths : List String) (place : Place) :
    (indexer.filesOf system.view paths).countP (system.view.realPlace? ·.path = some place) =
      (indexer.keysOf system.view paths).count place.key := by
  have files : (indexer.filesOf system.view paths).countP
      (system.view.realPlace? ·.path = some place) =
      ((indexer.filesOf system.view paths).map SourceFile.path).countP
        (system.view.realPlace? · = some place) := by
    rw [List.countP_map]
    rfl
  rw [files, paths_filesOf, keysOf, List.count, List.countP_map]
  refine List.countP_congr fun path member => ?_
  have taken := (List.mem_filter.mp member).2
  simpa using realPlace?_eq_iff_of_takes taken

/-- A batch indexes the files at some paths one by one. No real file is among them twice, and a
real file is among them once exactly if the first path with its key is taken. -/
theorem real_file_indexed_once_iff (indexer : Indexer) (system : FileSystem) (index : Index)
    (paths : List String) :
    let outcome := indexer.indexPaths system.view index paths
    let files := indexer.filesOf system.view paths
    outcome.1 = indexer.indexEach index files ∧ outcome.2.filesIndexed = files.length ∧
      ∀ place : Place,
        files.countP (system.view.realPlace? ·.path = some place) ≤ 1 ∧
        (files.countP (system.view.realPlace? ·.path = some place) = 1 ↔
          ∃ path, paths.find? (system.view.key · == place.key) = some path ∧
            indexer.takes system.view path = true) := by
  have batch := indexer.indexPaths_one_by_one system.view index paths
  refine ⟨batch.index_eq, batch.indexed, fun place => ?_⟩
  have distinct : (indexer.keysOf system.view paths).Nodup := nodup_keysOf system.view paths
  rw [countP_realPlace?_eq, ← mem_keysOf]
  refine ⟨List.nodup_iff_count_le_one.mp distinct _, ?_⟩
  rw [distinct.count]
  split <;> simp_all

/-- One source file with a link to it under a name that is not that of a source. -/
def linkedSource : FileSystem :=
  let className : Node := ⟨.constant, true, some .name, .onRow 6 7 0 6, []⟩
  let definition : Node := ⟨.classDefinition, true, none, ⟨0, 11, ⟨0, 0⟩, ⟨1, 3⟩⟩, [className]⟩
  let root : Node := ⟨.program, true, none, ⟨0, 12, ⟨0, 0⟩, ⟨2, 0⟩⟩, [definition]⟩
  (FileSystem.empty.put "a.rb" (.file "class A\nend\n".toUTF8 ⟨root, false⟩)).put "a.txt"
    (.link "a.rb")

/-- The file can be taken under its own name, and is when that name comes first. After the link it
is not taken under either name. -/
theorem source_after_refused_link_not_indexed :
    let indexer : Indexer := ⟨[], []⟩
    let place : Place := ["tmp", "", "a.rb"]
    indexer.takes linkedSource.view "a.rb" = true ∧
      linkedSource.view.realPlace? "a.rb" = some place ∧
      (indexer.filesOf linkedSource.view ["a.rb", "a.txt"]).countP
        (linkedSource.view.realPlace? ·.path = some place) = 1 ∧
      (indexer.filesOf linkedSource.view ["a.txt", "a.rb"]).countP
        (linkedSource.view.realPlace? ·.path = some place) = 0 ∧
      (indexer.indexPaths linkedSource.view .empty ["a.txt", "a.rb"]).2 = ⟨0, 1, 0⟩ := by
  decide +kernel

end Indexer

end DeclarationIndex
