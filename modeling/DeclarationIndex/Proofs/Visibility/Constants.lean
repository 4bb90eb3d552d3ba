import DeclarationIndex.Proofs.Visibility.Writes

/-!
Private constants. A class, module, constant or alias is inserted public. It ends up private if a
private-constant call that comes after its insertion spells out its full name, and public if none
does; calls and words that set the visibility of methods leave it alone.
-/

namespace DeclarationIndex

section
variable {file : FileContext}

theorem visibility_of_mem_entries {visit : Visit} {scope : Scope} {entry : Entry}
    (inserted : entry ∈ visit.entries file scope) (isConstant : entry.isMethod = false) :
    entry.visibility = .isPublic := by
  cases inserts_of_mem_entries file inserted with
  | classOrModule _ => rfl
  | constant _ => rfl
  | method _ => cases isConstant
  | accessor _ => cases isConstant

theorem Insertion.mem_written_of_constant {root : Node} {insertion : Insertion} {name : String}
    {visibility : Visibility} (isConstant : insertion.entry.isMethod = false) :
    visibility ∈ Change.written name insertion.entry (insertion.laterChanges file root) ↔
      visibility = .isPrivate ∧ ∃ visit ∈ insertion.later file root, visit.Hides file name := by
  have atMoment : ∀ moment ∈ insertion.laterMoments file root,
      (visibility ∈ Change.written name insertion.entry
          (moment.visit.changes file moment.scope) ↔
        visibility = .isPrivate ∧ moment.visit.Hides file name) := by
    intro moment member
    have met := mem_of_mem_laterMoments file member
    exact Visit.mem_written_of_constant (nesting_eq_enclosingNames met) isConstant
  rw [laterChanges, Change.written, List.filterMap_flatMap, List.mem_flatMap,
    ← map_visit_laterMoments]
  constructor
  · rintro ⟨moment, member, writes⟩
    obtain ⟨isPrivate, hides⟩ := (atMoment moment member).mp writes
    exact ⟨isPrivate, moment.visit, List.mem_map_of_mem member, hides⟩
  · rintro ⟨isPrivate, visit, later, hides⟩
    obtain ⟨moment, member, rfl⟩ := List.mem_map.mp later
    exact ⟨moment, member, (atMoment moment member).mpr ⟨isPrivate, hides⟩⟩

theorem Insertion.retouchAll_of_constant {root : Node} {insertion : Insertion}
    (member : insertion ∈ insertionsOf file root) (name : String)
    (isConstant : insertion.entry.isMethod = false) :
    let entry := Change.retouchAll (insertion.laterChanges file root) name insertion.entry
    (entry.visibility = .isPrivate ↔
        ∃ visit ∈ insertion.later file root, visit.Hides file name) ∧
      (entry.visibility = .isPrivate ∨ entry.visibility = .isPublic) := by
  have isPublic : insertion.entry.visibility = .isPublic := by
    obtain ⟨moment, _, _, _, inserted⟩ := mem_insertionsOf file member
    exact visibility_of_mem_entries inserted isConstant
  simp only [Change.retouchAll_eq, Entry.withVisibility, isPublic]
  cases last : (Change.written name insertion.entry
      (insertion.laterChanges file root)).getLast? with
  | none =>
    have unwritten := List.getLast?_eq_none_iff.mp last
    have unhidden : ¬ ∃ visit ∈ insertion.later file root, visit.Hides file name := by
      intro hidden
      have writes := (mem_written_of_constant isConstant).mpr ⟨rfl, hidden⟩
      rw [unwritten] at writes
      cases writes
    simpa using unhidden
  | some visibility =>
    obtain ⟨rfl, hidden⟩ :=
      (mem_written_of_constant isConstant).mp (List.mem_of_getLast? last)
    simpa using hidden

theorem Visit.retouchAll_changes_of_constant {visit : Visit} {scope : Scope} {name : String}
    {entry : Entry} (isConstant : entry.isMethod = false)
    (notHiding : visit.node.kind = .call →
      file.fieldText visit.node .method ≠ "private_constant") :
    Change.retouchAll (visit.changes file scope) name entry = entry := by
  have unwritten : Change.written name entry (visit.changes file scope) = [] := by
    rw [visit.written_changes]
    cases form : visit.form file with
    | hidesConstants =>
      obtain ⟨_, call, message⟩ := form_hidesConstants_iff.mp form
      exact absurd message (notHiding call)
    | _ => simp [isConstant]
  rw [Change.retouchAll_eq, unwritten]
  rfl

end

namespace Indexer

variable (indexer : Indexer) (file : SourceFile)

/-- When a file has been indexed into an empty index, the entries under a name are those that were
inserted under it, in order, and those that are no methods are private if a private-constant call
after the insertion spells out the name, else public. No other visit has a say in that. -/
theorem constants_private_iff_hidden :
    (∀ name, List.Forall₂
      (fun insertion entry =>
        entry = insertion.entry.withVisibility entry.visibility ∧
        (entry.isMethod = false →
          (entry.visibility = .isPrivate ↔
            ∃ visit ∈ insertion.later (indexer.context file) file.tree.root,
              visit.Hides (indexer.context file) name) ∧
          (entry.visibility = .isPrivate ∨ entry.visibility = .isPublic)))
      ((insertionsOf (indexer.context file) file.tree.root).filter (·.entry.name = name))
      ((indexer.indexFile .empty file).1.get name)) ∧
    (∀ insertion ∈ insertionsOf (indexer.context file) file.tree.root,
      visitsOf (indexer.context file) file.tree.root = insertion.earlier ++
        insertion.visit :: insertion.later (indexer.context file) file.tree.root) ∧
    ∀ (visit : Visit) (scope : Scope),
      (visit.node.kind = .call →
        (indexer.context file).fieldText visit.node .method ≠ "private_constant") →
      ∀ (index : Index) (name : String),
        (index.get name).filter (!·.isMethod) <+:
          ((index.applyAll (visit.changes (indexer.context file) scope)).get name).filter
            (!·.isMethod) := by
  refine ⟨fun name => ?_, fun insertion member => Insertion.visitsOf_eq _ member, ?_⟩
  · refine indexer.forall₂_insertions_get file name fun insertion member => ?_
    refine ⟨Change.retouchAll_eq_withVisibility .., fun isConstant => ?_⟩
    rw [Change.isMethod_retouchAll] at isConstant
    exact Insertion.retouchAll_of_constant member name isConstant
  · intro visit scope notHiding index name
    have kept : ((index.get name).map
        (Change.retouchAll (visit.changes (indexer.context file) scope) name)).filter
          (!·.isMethod) = (index.get name).filter (!·.isMethod) := by
      rw [List.filter_map]
      simp only [Function.comp_def, Change.isMethod_retouchAll]
      refine (List.map_congr_left fun entry member => ?_).trans (List.map_id _)
      have isConstant : entry.isMethod = false := by simpa using (List.mem_filter.mp member).2
      exact Visit.retouchAll_changes_of_constant isConstant notHiding
    rw [Index.get_applyAll, List.filter_append, kept]
    exact List.prefix_append ..

/-- A constant that a call on its class makes private from outside, over the lines
`class A`, `  B = 1`, `end`, `A.private_constant :B`. -/
def hiddenConstantFile : SourceFile :=
  let target : Node := ⟨.constant, true, some .left, .onRow 10 11 1 2, []⟩
  let value : Node := ⟨.other "integer", true, some .right, .onRow 14 15 1 6, []⟩
  let write : Node := ⟨.assignment, true, none, .onRow 10 15 1 2, [target, value]⟩
  let className : Node := ⟨.constant, true, some .name, .onRow 6 7 0 6, []⟩
  let classBody : Node := ⟨.bodyStatement, true, some (.other "body"), .onRow 10 15 1 2, [write]⟩
  let definition : Node :=
    ⟨.classDefinition, true, none, ⟨0, 19, ⟨0, 0⟩, ⟨2, 3⟩⟩, [className, classBody]⟩
  let receiver : Node := ⟨.constant, true, some .receiver, .onRow 20 21 3 0, []⟩
  let message : Node := ⟨.identifier, true, some .method, .onRow 22 38 3 2, []⟩
  let symbol : Node := ⟨.simpleSymbol, true, none, .onRow 39 41 3 19, []⟩
  let arguments : Node :=
    ⟨.other "argument_list", true, some .arguments, .onRow 39 41 3 19, [symbol]⟩
  let call : Node := ⟨.call, true, none, .onRow 20 41 3 0, [receiver, message, arguments]⟩
  { path := "a.rb"
    source := SourceText.ofString "class A\n  B = 1\nend\nA.private_constant :B\n"
    tree := ⟨⟨.program, true, none, ⟨0, 42, ⟨0, 0⟩, ⟨4, 0⟩⟩, [definition, call]⟩, false⟩ }

theorem constant_hidden_on_its_class :
    ∃ insertion ∈ insertionsOf (context ⟨[], []⟩ hiddenConstantFile) hiddenConstantFile.tree.root,
      ∃ entry ∈ (indexFile ⟨[], []⟩ .empty hiddenConstantFile).1.get "A::B",
        entry.isMethod = false ∧ insertion.entry.visibility = .isPublic ∧
        entry.visibility = .isPrivate ∧
        ∃ visit ∈ insertion.later (context ⟨[], []⟩ hiddenConstantFile)
            hiddenConstantFile.tree.root,
          visit.Hides (context ⟨[], []⟩ hiddenConstantFile) "A::B" := by
  let insertions := (insertionsOf (context ⟨[], []⟩ hiddenConstantFile)
    hiddenConstantFile.tree.root).filter (·.entry.name = "A::B")
  let entries := (indexFile ⟨[], []⟩ .empty hiddenConstantFile).1.get "A::B"
  let insertion := insertions.get ⟨0, by decide +kernel⟩
  let entry := entries.get ⟨0, by decide +kernel⟩
  have isConstant : entry.isMethod = false := by decide +kernel
  have isPrivate : entry.visibility = .isPrivate := by decide +kernel
  have settled := (constants_private_iff_hidden ⟨[], []⟩ hiddenConstantFile).1 "A::B"
  obtain ⟨hidden, _⟩ := ((List.forall₂_iff_get.mp settled).2 0 _ _).2 isConstant
  exact ⟨insertion, List.mem_of_mem_filter (List.get_mem ..), entry, List.get_mem .., isConstant,
    by decide +kernel, isPrivate, hidden.mp isPrivate⟩

end Indexer

end DeclarationIndex
