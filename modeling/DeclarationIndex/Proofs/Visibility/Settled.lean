import DeclarationIndex.Proofs.Index.LastWrite
import Mathlib.Data.List.Forall2

/-!
How entries stand when a file has been walked into an empty index: in the order in which they were
inserted, each with the visibility that was written to it last, by a visit after its insertion.
-/

namespace DeclarationIndex

namespace Index

theorem get_applyAll_map_declare (index : Index) (entries : List Entry) (name : String) :
    (index.applyAll (entries.map .declare)).get name =
      index.get name ++ entries.filter (·.name = name) := by
  induction entries generalizing index with
  | nil => exact (List.append_nil _).symm
  | cons entry rest ih =>
    have step : index.applyAll ((entry :: rest).map .declare) =
        (index.insert entry).applyAll (rest.map .declare) := rfl
    rw [step, ih, get_insert]
    by_cases named : entry.name = name
    · simp [named]
    · simp [named]

theorem get_applyAll_of_none_declared {changes : List Change}
    (none : changes.filterMap Change.declared? = []) (name : String) :
    (empty.applyAll changes).get name = [] := by
  rw [List.eq_nil_iff_forall_not_mem]
  intro entry member
  obtain ⟨source, _, _, old | ⟨declared, _⟩⟩ := mem_get_applyAll member
  · cases old
  · have nothing := List.filterMap_eq_nil_iff.mp none _ declared
    cases nothing

end Index

section
variable (file : FileContext)

theorem Visit.changes_cases (visit : Visit) (scope : Scope) :
    visit.changes file scope = (visit.entries file scope).map .declare ∨
      visit.entries file scope = [] := by
  unfold entries changes
  cases visit.form file with
  | «namespace» name => exact Or.inl rfl
  | constant target => exact Or.inl rfl
  | method given =>
    simp only [FileContext.declareMethod, Walk.emit]
    split
    · exact Or.inl rfl
    · exact Or.inl rfl
  | hidesConstants =>
    right
    simp only [FileContext.hideConstants, Walk.emit]
    split
    · rfl
    · simp [List.filterMap_eq_nil_iff, Change.declared?]
  | definesAttributes reader writer =>
    left
    simp only [FileContext.declareAttributes, Walk.emit, List.filterMap_flatMap, List.map_flatMap]
    congr
    funext argument
    cases file.spelledName? argument with
    | none => rfl
    | some name => simp [List.filterMap_map, Function.comp_def, Change.declared?]
  | _ => exact Or.inr rfl

theorem Visit.get_applyAll_changes (visit : Visit) (scope : Scope) (name : String) :
    (Index.empty.applyAll (visit.changes file scope)).get name =
      (visit.entries file scope).filter (·.name = name) := by
  rcases visit.changes_cases file scope with declares | none
  · rw [declares, Index.get_applyAll_map_declare, Index.get_empty, List.nil_append]
  · rw [none, Index.get_applyAll_of_none_declared none]
    rfl

theorem Tour.earlier_of_moments {earlier : List Visit} {scope : Scope} {steps : List Step}
    {passed rest : List Moment} {moment : Moment}
    (whole : moments file earlier scope steps = passed ++ moment :: rest) :
    moment.earlier = earlier ++ passed.map Moment.visit := by
  induction steps generalizing earlier scope passed with
  | nil => simp [moments] at whole
  | cons step steps ih =>
    rw [moments] at whole
    cases visited : step.visit? with
    | none => simpa using ih (by simpa [visited] using whole)
    | some visit =>
      simp only [visited, Option.toList_some, List.map_cons, List.map_nil,
        List.singleton_append] at whole
      cases passed with
      | nil =>
        rw [List.nil_append, List.cons.injEq] at whole
        simp [← whole.1]
      | cons first passed =>
        rw [List.cons_append, List.cons.injEq] at whole
        rw [ih whole.2, ← whole.1]
        simp

namespace Insertion

variable (root : Node) (insertion : Insertion)

def laterMoments : List Moment :=
  (momentsOf file root).drop (insertion.earlier.length + 1)

def later : List Visit :=
  (visitsOf file root).drop (insertion.earlier.length + 1)

def laterChanges : List Change :=
  (insertion.laterMoments file root).flatMap fun moment => moment.visit.changes file moment.scope

theorem map_visit_laterMoments :
    (insertion.laterMoments file root).map Moment.visit = insertion.later file root := by
  rw [laterMoments, later, List.map_drop, momentsOf, Tour.map_visit_moments]
  rfl

variable {root insertion}

theorem mem_of_mem_laterMoments {moment : Moment}
    (member : moment ∈ insertion.laterMoments file root) : moment ∈ momentsOf file root :=
  List.mem_of_mem_drop member

theorem visitsOf_eq (member : insertion ∈ insertionsOf file root) :
    visitsOf file root = insertion.earlier ++ insertion.visit :: insertion.later file root := by
  obtain ⟨moment, met, earlier, visit, _⟩ := mem_insertionsOf file member
  obtain ⟨later, whole⟩ := visitsOf_of_moment file met
  rw [Insertion.later, earlier, visit, whole, List.drop_length_add_append]
  rfl

end Insertion

theorem get_applyAll_of_moments {root : Node} (passed : List Moment) {rest : List Moment}
    (whole : momentsOf file root = passed ++ rest) (name : String) :
    (Index.empty.applyAll
        (rest.flatMap fun moment => moment.visit.changes file moment.scope)).get name =
      ((rest.flatMap (·.insertions file)).filter (·.entry.name = name)).map fun insertion =>
        Change.retouchAll (insertion.laterChanges file root) name insertion.entry := by
  -- on what is left of the walk; what is passed tells each insertion where its later changes start
  induction rest generalizing passed with
  | nil => rfl
  | cons moment rest ih =>
    have earlier : moment.earlier = passed.map Moment.visit := Tour.earlier_of_moments file whole
    have later (entry : Entry) :
        (Insertion.mk moment.earlier moment.visit entry).laterChanges file root =
          rest.flatMap fun moment => moment.visit.changes file moment.scope := by
      rw [Insertion.laterChanges, Insertion.laterMoments, whole, earlier, List.length_map,
        List.drop_length_add_append]
      rfl
    have joined (first second : List Change) : Index.empty.applyAll (first ++ second) =
        (Index.empty.applyAll first).applyAll second := List.foldl_append ..
    rw [List.flatMap_cons, joined, Index.get_applyAll, ih (passed ++ [moment])
      (by simp [whole]), List.flatMap_cons, List.filter_append, List.map_append,
      Visit.get_applyAll_changes, Moment.insertions, List.filter_map, List.map_map]
    simp only [Function.comp_def, later]

theorem get_applyAll_changesOf (root : Node) (name : String) :
    (Index.empty.applyAll (changesOf file root)).get name =
      ((insertionsOf file root).filter (·.entry.name = name)).map fun insertion =>
        Change.retouchAll (insertion.laterChanges file root) name insertion.entry := by
  rw [changesOf_eq_moments]
  exact get_applyAll_of_moments file [] rfl name

end

/-- What holds of each insertion and of its entry as what comes after leaves it holds, pair by
pair, of the insertions under a name and the entries that are there in the end. -/
theorem Indexer.forall₂_insertions_get (indexer : Indexer) (file : SourceFile) (name : String)
    {Holds : Insertion → Entry → Prop}
    (holds : ∀ insertion ∈ insertionsOf (indexer.context file) file.tree.root,
      Holds insertion (Change.retouchAll
        (insertion.laterChanges (indexer.context file) file.tree.root) name insertion.entry)) :
    List.Forall₂ Holds
      ((insertionsOf (indexer.context file) file.tree.root).filter (·.entry.name = name))
      ((indexer.indexFile .empty file).1.get name) := by
  have left : (indexer.indexFile .empty file).1.get name = _ :=
    get_applyAll_changesOf (indexer.context file) file.tree.root name
  rw [left, List.forall₂_map_right_iff, List.forall₂_same]
  exact fun insertion member => holds insertion (List.mem_of_mem_filter member)

end DeclarationIndex
