import DeclarationIndex.Proofs.Visibility.Writes

/-!
Visibilities of methods. A method ends up with the visibility of the last visibility call after its
insertion that spells its name in the namespace that owns it, and keeps the one it was inserted
with when there is none.
-/

namespace DeclarationIndex

theorem Insertion.written_of_method {file : FileContext} {root : Node} {insertion : Insertion}
    {name : String} (isMethod : insertion.entry.isMethod = true)
    (unhidden : ∀ visit ∈ insertion.later file root, ¬ visit.Hides file name) :
    Change.written name insertion.entry (insertion.laterChanges file root) =
      (insertion.later file root).filterMap
        (·.visibilityFor? file name insertion.entry.owner) := by
  have atMoment : ∀ moment ∈ insertion.laterMoments file root,
      Change.written name insertion.entry (moment.visit.changes file moment.scope) =
        (moment.visit.visibilityFor? file name insertion.entry.owner).toList := by
    intro moment member
    have met := mem_of_mem_laterMoments file member
    have later : moment.visit ∈ insertion.later file root := by
      rw [← map_visit_laterMoments]
      exact List.mem_map_of_mem member
    exact Visit.written_of_method (reached_of_moment file met) (nesting_eq_enclosingNames met)
      isMethod (unhidden _ later)
  calc Change.written name insertion.entry (insertion.laterChanges file root)
      = (insertion.laterMoments file root).flatMap fun moment =>
          Change.written name insertion.entry (moment.visit.changes file moment.scope) :=
        List.filterMap_flatMap ..
    _ = (insertion.laterMoments file root).flatMap fun moment =>
          (moment.visit.visibilityFor? file name insertion.entry.owner).toList :=
        List.flatMap_congr atMoment
    _ = ((insertion.laterMoments file root).map Moment.visit).filterMap
          (·.visibilityFor? file name insertion.entry.owner) := by
        rw [List.filterMap_map, List.filterMap_eq_flatMap_toList]
        rfl
    _ = (insertion.later file root).filterMap
          (·.visibilityFor? file name insertion.entry.owner) := by
        rw [map_visit_laterMoments]

namespace Indexer

variable (indexer : Indexer) (file : SourceFile)

/-- When a file has been indexed into an empty index, the entries under a name are those that were
inserted under it, in order, and a method whose name no private-constant call hides has the
visibility that was given last, after its insertion, to methods of its name and owner; else the
one it was inserted with. -/
theorem methods_visible_by_last_call :
    (∀ name, List.Forall₂
      (fun insertion entry =>
        entry = insertion.entry.withVisibility entry.visibility ∧
        ∀ owner parameters, entry.kind = .method owner parameters →
          (∀ visit ∈ insertion.later (indexer.context file) file.tree.root,
            ¬ visit.Hides (indexer.context file) name) →
          entry.visibility =
            (((insertion.later (indexer.context file) file.tree.root).filterMap
              (·.visibilityFor? (indexer.context file) name owner)).getLast?).getD
                insertion.entry.visibility)
      ((insertionsOf (indexer.context file) file.tree.root).filter (·.entry.name = name))
      ((indexer.indexFile .empty file).1.get name)) ∧
    ∀ insertion ∈ insertionsOf (indexer.context file) file.tree.root,
      visitsOf (indexer.context file) file.tree.root = insertion.earlier ++
        insertion.visit :: insertion.later (indexer.context file) file.tree.root := by
  refine ⟨fun name => ?_, fun insertion member => Insertion.visitsOf_eq _ member⟩
  refine indexer.forall₂_insertions_get file name fun insertion member => ?_
  refine ⟨Change.retouchAll_eq_withVisibility .., fun owner parameters kind unhidden => ?_⟩
  rw [Change.kind_retouchAll] at kind
  have isMethod : insertion.entry.isMethod = true := by simp [Entry.isMethod, kind]
  have owned : insertion.entry.owner = owner := by simp [Entry.owner, kind]
  rw [Change.retouchAll_eq, Insertion.written_of_method isMethod unhidden, owned]
  rfl

theorem method_private_by_later_call :
    ∃ insertion ∈ insertionsOf (context ⟨[], []⟩ privateMethodFile) privateMethodFile.tree.root,
      ∃ entry ∈ (indexFile ⟨[], []⟩ .empty privateMethodFile).1.get "c",
        insertion.entry.visibility = .isPublic ∧
        (entry.kind = .method (some "A") [] ∧
          ∀ visit ∈ insertion.later (context ⟨[], []⟩ privateMethodFile)
              privateMethodFile.tree.root,
            ¬ visit.Hides (context ⟨[], []⟩ privateMethodFile) "c") ∧
        entry.visibility = .isPrivate := by
  let file := context ⟨[], []⟩ privateMethodFile
  let root := privateMethodFile.tree.root
  let insertions := (insertionsOf file root).filter (·.entry.name = "c")
  let entries := (indexFile ⟨[], []⟩ .empty privateMethodFile).1.get "c"
  let insertion := insertions.get ⟨0, by decide +kernel⟩
  let entry := entries.get ⟨0, by decide +kernel⟩
  have kind : entry.kind = .method (some "A") [] := by decide +kernel
  have unhidden : ∀ visit ∈ insertion.later file root, ¬ visit.Hides file "c" := by
    have messages : ∀ visit ∈ insertion.later file root,
        file.fieldText visit.node .method ≠ "private_constant" := by decide +kernel
    exact fun visit later hides => messages visit later hides.message
  have given : ((insertion.later file root).filterMap
      (·.visibilityFor? file "c" (some "A"))).getLast? = some .isPrivate := by decide +kernel
  have settled := (methods_visible_by_last_call ⟨[], []⟩ privateMethodFile).1 "c"
  have visibility := ((List.forall₂_iff_get.mp settled).2 0 (by decide +kernel)
    (by decide +kernel)).2 _ _ kind unhidden
  rw [show List.getLast? _ = some Visibility.isPrivate from given] at visibility
  exact ⟨insertion, List.mem_of_mem_filter (List.get_mem ..), entry, List.get_mem ..,
    by decide +kernel, ⟨kind, unhidden⟩, visibility⟩

end Indexer

end DeclarationIndex
