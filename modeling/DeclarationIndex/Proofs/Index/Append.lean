import DeclarationIndex.Indexer
import DeclarationIndex.Proofs.Declaration.Sections
import DeclarationIndex.Proofs.Index.Log

/-!
Indexing a file only appends. Whatever the index holds, the file puts the same entries behind what
is there, and of what is there it changes nothing but visibilities.
-/

namespace DeclarationIndex

namespace Change

/-- What a change makes of an entry that is there already under a name. -/
def retouch (name : String) (entry : Entry) : Change → Entry
  | .declare _ => entry
  | .hide hidden => if hidden = name then entry.withVisibility .isPrivate else entry
  | .setMethodVisibility method owner visibility =>
      if method = name ∧ entry.isMethod = true ∧ entry.owner = owner then
        entry.withVisibility visibility
      else entry

def retouchAll (changes : List Change) (name : String) (entry : Entry) : Entry :=
  changes.foldl (fun entry change => change.retouch name entry) entry

def added (name : String) : Change → List Entry
  | .declare entry => if entry.name = name then [entry] else []
  | _ => []

theorem exists_retouch_eq (change : Change) (name : String) (entry : Entry) :
    ∃ visibility, change.retouch name entry = entry.withVisibility visibility := by
  cases change with
  | declare _ => exact ⟨entry.visibility, rfl⟩
  | hide hidden =>
    simp only [retouch]
    split
    · exact ⟨_, rfl⟩
    · exact ⟨entry.visibility, rfl⟩
  | setMethodVisibility method owner visibility =>
    simp only [retouch]
    split
    · exact ⟨_, rfl⟩
    · exact ⟨entry.visibility, rfl⟩

theorem exists_retouchAll_eq (changes : List Change) (name : String) (entry : Entry) :
    ∃ visibility, retouchAll changes name entry = entry.withVisibility visibility := by
  induction changes generalizing entry with
  | nil => exact ⟨entry.visibility, rfl⟩
  | cons change rest ih =>
    obtain ⟨first, once⟩ := change.exists_retouch_eq name entry
    obtain ⟨last, later⟩ := ih (change.retouch name entry)
    refine ⟨last, ?_⟩
    have again : retouchAll (change :: rest) name entry =
        retouchAll rest name (change.retouch name entry) := rfl
    rw [again, later, once]
    rfl

@[simp] theorem filePath_retouchAll (changes : List Change) (name : String) (entry : Entry) :
    (retouchAll changes name entry).filePath = entry.filePath := by
  obtain ⟨visibility, retouched⟩ := exists_retouchAll_eq changes name entry
  rw [retouched]
  rfl

theorem filter_map_retouchAll (changes : List Change) (name path : String)
    (entries : List Entry) :
    (entries.map (retouchAll changes name)).filter (·.filePath != path) =
      (entries.filter (·.filePath != path)).map (retouchAll changes name) := by
  simp only [List.filter_map, Function.comp_def, filePath_retouchAll]

end Change

namespace Index

theorem size_insert (index : Index) (entry : Entry) :
    (index.insert entry).size = index.size + 1 := by
  have agrees := (perform_agrees (get_eq_under index) (.insert entry)).2
  have size := (shows_of_get_eq agrees).size
  simpa [perform, Log.perform, ← size_eq_length_pairs] using size

theorem size_update (index : Index) (name : String) (change : Entry → Entry) :
    (index.update name change).size = index.size := by
  have agrees := (perform_agrees (get_eq_under index) (.update name change)).2
  have size := (shows_of_get_eq agrees).size
  simpa [perform, Log.perform, Log.update, ← size_eq_length_pairs] using size

theorem size_applyAll (index : Index) (changes : List Change) :
    (index.applyAll changes).size =
      index.size + (changes.filterMap Change.declared?).length := by
  induction changes generalizing index with
  | nil => rfl
  | cons change rest ih =>
    have step : index.applyAll (change :: rest) = (index.apply change).applyAll rest := rfl
    rw [step, ih]
    cases change with
    | declare entry =>
      simp only [apply, size_insert, List.filterMap_cons, Change.declared?, List.length_cons]
      omega
    | hide name =>
      simp only [apply, setVisibility, size_update, List.filterMap_cons, Change.declared?]
    | setMethodVisibility name owner visibility =>
      simp only [apply, setMethodVisibility, size_update, List.filterMap_cons, Change.declared?]

theorem get_apply (index : Index) (change : Change) (name : String) :
    (index.apply change).get name =
      (index.get name).map (change.retouch name ·) ++ change.added name := by
  cases change with
  | declare entry =>
    simp only [apply, get_insert, Change.retouch, Change.added, List.map_id']
    split
    · rfl
    · rw [List.append_nil]
  | hide hidden =>
    simp only [apply, setVisibility, get_update, Change.retouch, Change.added, List.append_nil]
    split
    · rename_i same
      rw [same]
    · rw [List.map_id']
  | setMethodVisibility method owner visibility =>
    simp only [apply, setMethodVisibility, get_update, Change.retouch, Change.added,
      List.append_nil]
    by_cases same : method = name
    · simp [same]
    · simp [same]

theorem get_applyAll (index : Index) (changes : List Change) (name : String) :
    (index.applyAll changes).get name =
      (index.get name).map (Change.retouchAll changes name) ++
        (empty.applyAll changes).get name := by
  induction changes generalizing index with
  | nil =>
    have same : Change.retouchAll [] name = id := rfl
    rw [same, List.map_id]
    exact (List.append_nil _).symm
  | cons change rest ih =>
    have step (start : Index) : start.applyAll (change :: rest) =
        (start.apply change).applyAll rest := rfl
    have again : Change.retouchAll (change :: rest) name =
        Change.retouchAll rest name ∘ (change.retouch name ·) := rfl
    rw [step, step, ih (index.apply change), ih (empty.apply change), get_apply, get_apply,
      get_empty, List.map_nil, List.nil_append, List.map_append, List.map_map, ← again,
      List.append_assoc]

theorem mem_get_applyAll {index : Index} {changes : List Change} {name : String} {entry : Entry}
    (member : entry ∈ (index.applyAll changes).get name) :
    ∃ source visibility, entry = source.withVisibility visibility ∧
      (source ∈ index.get name ∨ .declare source ∈ changes ∧ source.name = name) := by
  induction changes generalizing index with
  | nil => exact ⟨entry, entry.visibility, rfl, Or.inl member⟩
  | cons change rest ih =>
    obtain ⟨source, last, rfl, before | ⟨declared, named⟩⟩ :=
      @ih (index.apply change) member
    · rw [get_apply] at before
      rcases List.mem_append.mp before with old | new
      · obtain ⟨origin, held, rfl⟩ := List.mem_map.mp old
        obtain ⟨first, retouched⟩ := change.exists_retouch_eq name origin
        exact ⟨origin, last, by rw [retouched]; rfl, Or.inl held⟩
      · cases change with
        | declare added =>
          simp only [Change.added, List.mem_ite_nil_right, List.mem_singleton] at new
          obtain ⟨named, rfl⟩ := new
          exact ⟨source, last, rfl, Or.inr ⟨List.mem_cons_self .., named⟩⟩
        | _ => cases new
    · exact ⟨source, last, rfl, Or.inr ⟨List.mem_cons_of_mem _ declared, named⟩⟩

end Index

namespace Indexer

variable (indexer : Indexer) (file : SourceFile)

theorem filePath_of_declared {entry : Entry}
    (declared : .declare entry ∈ indexer.changes file) : entry.filePath = file.path := by
  have inserted : entry ∈ (insertionsOf (indexer.context file) file.tree.root).map
      Insertion.entry := by
    rw [← declared_eq_insertions, List.mem_filterMap]
    exact ⟨.declare entry, declared, rfl⟩
  obtain ⟨insertion, member, rfl⟩ := List.mem_map.mp inserted
  obtain ⟨_, _, _, _, held⟩ := mem_insertionsOf _ member
  exact filePath_of_mem_entries (indexer.context file) held

theorem filePath_of_mem_indexFile_empty {name : String} {entry : Entry}
    (member : entry ∈ (indexer.indexFile .empty file).1.get name) :
    entry.filePath = file.path := by
  obtain ⟨source, visibility, rfl, old | ⟨declared, _⟩⟩ := Index.mem_get_applyAll member
  · cases old
  · have path := indexer.filePath_of_declared file declared
    exact path

theorem indexFile_size (index : Index) :
    (indexer.indexFile index file).1.size = index.size + (indexer.indexFile index file).2 :=
  index.size_applyAll (indexer.changes file)

/-- Indexing a file appends what it appends to the empty index, retouches the visibilities of the
rest in a way of its own, and counts what it appends. -/
theorem indexFile_appends :
    (∃ retouch : String → Entry → Entry,
      (∀ name entry, ∃ visibility, retouch name entry = entry.withVisibility visibility) ∧
      ∀ index name, (indexer.indexFile index file).1.get name =
        (index.get name).map (retouch name) ++ (indexer.indexFile .empty file).1.get name) ∧
    (∀ index, (indexer.indexFile index file).2 = (indexer.indexFile .empty file).1.size ∧
      (indexer.indexFile index file).1.size =
        index.size + (indexer.indexFile index file).2) ∧
    ∀ name, ∀ entry ∈ (indexer.indexFile .empty file).1.get name,
      entry.name = name ∧ entry.filePath = file.path := by
  refine ⟨⟨Change.retouchAll (indexer.changes file), ?_, ?_⟩, fun index => ⟨?_, ?_⟩, ?_⟩
  · exact Change.exists_retouchAll_eq (indexer.changes file)
  · exact fun index name => index.get_applyAll (indexer.changes file) name
  · rw [indexFile_size]
    exact (Nat.zero_add _).symm
  · exact indexer.indexFile_size file index
  · intro name entry member
    obtain ⟨source, visibility, rfl, old | ⟨declared, named⟩⟩ := Index.mem_get_applyAll member
    · cases old
    · have path := indexer.filePath_of_declared file declared
      exact ⟨named, path⟩

/-- A method that a later call makes private, over the lines
`module A`, `  def c`, `  end`, `  private :c`, `end`. -/
def privateMethodFile : SourceFile :=
  let methodName : Node := ⟨.identifier, true, some .name, .onRow 15 16 1 6, []⟩
  let method : Node := ⟨.method, true, none, ⟨11, 22, ⟨1, 2⟩, ⟨2, 5⟩⟩, [methodName]⟩
  let word : Node := ⟨.identifier, true, some .method, .onRow 25 32 3 2, []⟩
  let symbol : Node := ⟨.simpleSymbol, true, none, .onRow 33 35 3 10, []⟩
  let arguments : Node :=
    ⟨.other "argument_list", true, some .arguments, .onRow 33 35 3 10, [symbol]⟩
  let call : Node := ⟨.call, true, none, .onRow 25 35 3 2, [word, arguments]⟩
  let moduleName : Node := ⟨.constant, true, some .name, .onRow 7 8 0 7, []⟩
  let moduleBody : Node :=
    ⟨.bodyStatement, true, some (.other "body"), ⟨11, 35, ⟨1, 2⟩, ⟨3, 12⟩⟩, [method, call]⟩
  let outer : Node :=
    ⟨.moduleDefinition, true, none, ⟨0, 39, ⟨0, 0⟩, ⟨4, 3⟩⟩, [moduleName, moduleBody]⟩
  { path := "a.rb"
    source := SourceText.ofString "module A\n  def c\n  end\n  private :c\nend\n"
    tree := ⟨⟨.program, true, none, ⟨0, 40, ⟨0, 0⟩, ⟨5, 0⟩⟩, [outer]⟩, false⟩ }

def earlierMethod : Entry where
  name := "c"
  filePath := "b.rb"
  location := ⟨2, 2, 3, 5⟩
  comments := []
  visibility := .isPublic
  kind := .method (some "A") []

theorem private_call_retouches_earlier_method :
    ∃ entry ∈ (indexFile ⟨[], []⟩ .empty privateMethodFile).1.get "c",
      (entry.name = "c" ∧ entry.filePath = "a.rb") ∧
      (indexFile ⟨[], []⟩ (Index.empty.insert earlierMethod) privateMethodFile).1.get "c" =
        [earlierMethod.withVisibility .isPrivate, entry] := by
  let fresh := (indexFile ⟨[], []⟩ .empty privateMethodFile).1.get "c"
  let entry := fresh.get ⟨0, by decide +kernel⟩
  have member : entry ∈ fresh := List.get_mem ..
  exact ⟨entry, member, (indexFile_appends ⟨[], []⟩ privateMethodFile).2.2 "c" entry member,
    by decide +kernel⟩

end Indexer

end DeclarationIndex
