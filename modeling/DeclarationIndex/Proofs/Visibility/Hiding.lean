import DeclarationIndex.Proofs.Visibility.Writes

/-!
What a private-constant call does to an index: whatever is kept under a full name that it spells
out becomes private, and all else stays. It does not ask what an entry is, so a method that is kept
under such a name, of whatever owner and file, becomes private with the constants.
-/

namespace DeclarationIndex

section
variable {file : FileContext} {call : Node} {scope : Scope}

variable (file call scope) in
def FileContext.SpellsInFull (name : String) : Prop :=
  ∃ spelled, file.SpellsHidden call spelled ∧ scope.qualify spelled = name

theorem FileContext.declared_hideConstants (call : Node) (scope : Scope) :
    (file.hideConstants call scope).1.filterMap Change.declared? = [] := by
  refine List.filterMap_eq_nil_iff.mpr fun change made => ?_
  simp only [hideConstants, Walk.emit] at made
  split at made
  · cases made
  · obtain ⟨name, _, rfl⟩ := List.mem_map.mp made
    rfl

theorem FileContext.retouchAll_of_spelled {name : String} (entry : Entry)
    (spelled : file.SpellsInFull call scope name) :
    Change.retouchAll (file.hideConstants call scope).1 name entry =
      entry.withVisibility .isPrivate := by
  have hides : .hide name ∈ (file.hideConstants call scope).1 :=
    FileContext.hide_mem_hideConstants.mpr spelled
  have written : Visibility.isPrivate ∈
      Change.written name entry (file.hideConstants call scope).1 := by
    rw [written_hideConstants]
    exact List.mem_map_of_mem (List.mem_filter.mpr ⟨hides, decide_eq_true rfl⟩)
  rw [Change.retouchAll_eq]
  cases last : (Change.written name entry (file.hideConstants call scope).1).getLast? with
  | none =>
    rw [List.getLast?_eq_none_iff.mp last] at written
    cases written
  | some visibility =>
    have member := List.mem_of_getLast? last
    rw [written_hideConstants] at member
    obtain ⟨_, _, rfl⟩ := List.mem_map.mp member
    rfl

theorem FileContext.retouchAll_of_not_spelled {name : String} (entry : Entry)
    (unspelled : ¬ file.SpellsInFull call scope name) :
    Change.retouchAll (file.hideConstants call scope).1 name entry = entry := by
  have unwritten : Change.written name entry (file.hideConstants call scope).1 = [] := by
    rw [written_hideConstants, List.map_eq_nil_iff, List.filter_eq_nil_iff]
    intro change made hides
    rw [of_decide_eq_true hides] at made
    exact unspelled (FileContext.hide_mem_hideConstants.mp made)
  rw [Change.retouchAll_eq, unwritten]
  rfl

theorem FileContext.get_hideConstants (index : Index) (name : String) :
    (index.applyAll (file.hideConstants call scope).1).get name =
      (index.get name).map (Change.retouchAll (file.hideConstants call scope).1 name) := by
  rw [Index.get_applyAll, Index.get_applyAll_of_none_declared (declared_hideConstants call scope),
    List.append_nil]

theorem FileContext.get_of_spelled {index : Index} {name : String}
    (spelled : file.SpellsInFull call scope name) :
    (index.applyAll (file.hideConstants call scope).1).get name =
      (index.get name).map (·.withVisibility .isPrivate) := by
  rw [get_hideConstants]
  exact List.map_congr_left fun entry _ => retouchAll_of_spelled entry spelled

theorem FileContext.get_of_not_spelled {index : Index} {name : String}
    (unspelled : ¬ file.SpellsInFull call scope name) :
    (index.applyAll (file.hideConstants call scope).1).get name = index.get name := by
  rw [get_hideConstants]
  refine (List.map_congr_left fun entry _ => ?_).trans (List.map_id _)
  exact retouchAll_of_not_spelled entry unspelled

theorem Entry.withVisibility_eq_self_iff {entry : Entry} {visibility : Visibility} :
    entry.withVisibility visibility = entry ↔ entry.visibility = visibility := by
  constructor
  · intro same
    rw [← same]
    rfl
  · rintro rfl
    rfl

theorem FileContext.methods_kept_iff {index : Index} {name : String} :
    ((index.applyAll (file.hideConstants call scope).1).get name).filter Entry.isMethod =
        (index.get name).filter Entry.isMethod ↔
      (file.SpellsInFull call scope name →
        ∀ entry ∈ index.get name, entry.isMethod = true → entry.visibility = .isPrivate) := by
  by_cases spelled : file.SpellsInFull call scope name
  · have sameKind : Entry.isMethod ∘ (·.withVisibility .isPrivate) = Entry.isMethod := rfl
    rw [get_of_spelled spelled, List.filter_map, sameKind]
    constructor
    · intro kept _ entry member isMethod
      have same := List.map_inj_left.mp (kept.trans (List.map_id _).symm) entry
        (List.mem_filter.mpr ⟨member, isMethod⟩)
      exact Entry.withVisibility_eq_self_iff.mp same
    · intro allPrivate
      refine (List.map_congr_left fun entry member => ?_).trans (List.map_id _)
      obtain ⟨held, isMethod⟩ := List.mem_filter.mp member
      exact Entry.withVisibility_eq_self_iff.mpr (allPrivate spelled entry held isMethod)
  · simp only [get_of_not_spelled spelled, spelled, false_implies]

/-- A private-constant call makes private what is kept under the names that it spells out, and
nothing else. So it leaves all methods of an index as they are just when none is kept under such a
name that is not private yet. -/
theorem methods_kept_iff_unspelled (file : FileContext) (call : Node) (scope : Scope)
    (index : Index) :
    let after := index.applyAll (file.hideConstants call scope).1
    (∀ name, file.SpellsInFull call scope name →
      after.get name = (index.get name).map (·.withVisibility .isPrivate)) ∧
    (∀ name, ¬ file.SpellsInFull call scope name → after.get name = index.get name) ∧
    ((∀ name, (after.get name).filter Entry.isMethod = (index.get name).filter Entry.isMethod) ↔
      ∀ name, file.SpellsInFull call scope name →
        ∀ entry ∈ index.get name, entry.isMethod = true → entry.visibility = .isPrivate) :=
  ⟨fun _ => FileContext.get_of_spelled, fun _ => FileContext.get_of_not_spelled,
    forall_congr' fun _ => FileContext.methods_kept_iff⟩

end

/-- A constant and a method of one name, over the lines
`A = 1`, `def A; end`, `private_constant :A`. -/
def sharedNameFile : SourceFile :=
  let target : Node := ⟨.constant, true, some .left, .onRow 0 1 0 0, []⟩
  let value : Node := ⟨.other "integer", true, some .right, .onRow 4 5 0 4, []⟩
  let write : Node := ⟨.assignment, true, none, .onRow 0 5 0 0, [target, value]⟩
  let methodName : Node := ⟨.constant, true, some .name, .onRow 10 11 1 4, []⟩
  let method : Node := ⟨.method, true, none, .onRow 6 16 1 0, [methodName]⟩
  let message : Node := ⟨.identifier, true, some .method, .onRow 17 33 2 0, []⟩
  let symbol : Node := ⟨.simpleSymbol, true, none, .onRow 34 36 2 17, []⟩
  let arguments : Node :=
    ⟨.other "argument_list", true, some .arguments, .onRow 34 36 2 17, [symbol]⟩
  let call : Node := ⟨.call, true, none, .onRow 17 36 2 0, [message, arguments]⟩
  { path := "a.rb"
    source := SourceText.ofString "A = 1\ndef A; end\nprivate_constant :A\n"
    tree := ⟨⟨.program, true, none, ⟨0, 37, ⟨0, 0⟩, ⟨3, 0⟩⟩, [write, method, call]⟩, false⟩ }

theorem method_hidden_with_constant :
    let file := Indexer.context ⟨[], []⟩ sharedNameFile
    ∃ call ∈ sharedNameFile.tree.root.children, call.kind = .call ∧
      file.fieldText call .method = "private_constant" ∧
      ∃ declared, declared.map Change.declared? =
          ((changesOf file sharedNameFile.tree.root).filterMap Change.declared?).map some ∧
        changesOf file sharedNameFile.tree.root =
          declared ++ (file.hideConstants call .topLevel).1 ∧
        ((Index.empty.applyAll declared).get "A").map
            (fun entry => (entry.isMethod, entry.visibility)) =
          [(false, .isPublic), (true, .isPublic)] ∧
        (((Index.empty.applyAll declared).applyAll (file.hideConstants call .topLevel).1).get
            "A").map (fun entry => (entry.isMethod, entry.visibility)) =
          [(false, .isPrivate), (true, .isPrivate)] := by
  intro file
  let call := sharedNameFile.tree.root.children.get ⟨2, by decide⟩
  let declared := (changesOf file sharedNameFile.tree.root).take 2
  exact ⟨call, List.get_mem .., by decide +kernel, by decide +kernel, declared, by decide +kernel,
    by decide +kernel, by decide +kernel, by decide +kernel⟩

end DeclarationIndex
