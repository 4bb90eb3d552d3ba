import DeclarationIndex.Proofs.Declaration.Examined
import DeclarationIndex.Proofs.Visibility.Settled

/-!
Where visibilities are written to entries that are there already. There are two such places:
private-constant calls, and the arguments of visibility calls that spell the name of a method. What
each writes is told from the node, from the bodies around it and from the call that it stands in.
-/

namespace DeclarationIndex

section
variable (file : FileContext)

/-- The names that a private-constant call spells out: those of its arguments as they are when it
is called on the namespace itself, and under a static path when it is called on that path. -/
inductive FileContext.SpellsHidden (call : Node) : String → Prop where
  | onNamespace {argument : Node} {name : String}
      (receiver : ∀ receiver, call.child? .receiver = some receiver → receiver.kind = .self)
      (given : argument ∈ call.argumentNodes) (spelled : file.spelledName? argument = some name) :
      SpellsHidden call name
  | onPath {receiver argument : Node} {name : String}
      (found : call.child? .receiver = some receiver) (static : isStaticPath receiver = true)
      (given : argument ∈ call.argumentNodes) (spelled : file.spelledName? argument = some name) :
      SpellsHidden call (file.text receiver ++ "::" ++ name)

/-- That a visit makes private whatever has the full name: it is made at a private-constant call
with arguments, one of which spells a name that is the full name in the namespace around. -/
structure Visit.Hides (visit : Visit) (name : String) : Prop where
  isNode : visit.role.isNode = true
  call : visit.node.kind = .call
  message : file.fieldText visit.node .method = "private_constant"
  arguments : (visit.node.child? .arguments).isSome = true
  spelled : ∃ spelled, file.SpellsHidden visit.node spelled ∧
    Naming.qualify (visit.enclosingNames file) spelled = name

/-- The visibility that a visit gives to the methods of a name and an owner: that of the visibility
call which the node is an argument of, if it spells the name and the owner is the namespace
around. -/
def Visit.visibilityFor? (visit : Visit) (name : String) (owner : Option String) :
    Option Visibility :=
  if file.spelledName? visit.node = some name ∧
      Naming.namespaceOf (visit.enclosingNames file) = owner then visit.handed? file
  else none

variable {file}

theorem CallForm.hidesConstants_iff {node : Node} :
    CallForm.ofNode file node = .hidesConstants ↔
      file.fieldText node .method = "private_constant" := by
  unfold CallForm.ofNode
  generalize file.fieldText node .method = message
  split <;> grind

theorem Visit.form_hidesConstants_iff {visit : Visit} :
    visit.form file = .hidesConstants ↔
      visit.role.isNode = true ∧ visit.node.kind = .call ∧
        file.fieldText visit.node .method = "private_constant" := by
  obtain ⟨node, role, above⟩ := visit
  constructor
  · intro form
    have fits := role.fits_form file node
    rw [show role.form file node = .hidesConstants from form] at fits
    refine ⟨?_, fits.1, CallForm.hidesConstants_iff.mp fits.2⟩
    cases role with
    | plain | argument visibility => rfl
    | superclassClause | argumentList visibility => cases form
  · rintro ⟨isNode, call, message⟩
    have plain : Form.ofNode file node = .hidesConstants := by
      have called : CallForm.ofNode file node = .hidesConstants :=
        CallForm.hidesConstants_iff.mpr message
      simp only [Form.ofNode, show node.kind = .call from call, called]
    cases role with
    | plain => exact plain
    | argument visibility =>
      simpa [Visit.form, Role.form, show node.kind = .call from call, NodeKind.isMethod,
        FileContext.spelledName?] using plain
    | superclassClause | argumentList visibility => cases isNode

theorem FileContext.spellsHidden_iff {call : Node} {spelled : String} :
    file.SpellsHidden call spelled ↔
      ∃ path, file.hidingPath? call = some path ∧ ∃ argument ∈ call.argumentNodes,
        ∃ name, file.spelledName? argument = some name ∧ path ++ name = spelled := by
  unfold FileContext.hidingPath?
  constructor
  · rintro (@⟨argument, name, receiver, given, named⟩ |
      @⟨receiver, argument, name, found, static, given, named⟩)
    · refine ⟨"", ?_, argument, given, spelled, named, String.empty_append⟩
      split
      · rfl
      · rename_i other found
        rw [if_pos (receiver other found)]
    · refine ⟨file.text receiver ++ Naming.separator, ?_, argument, given, name, named, rfl⟩
      have notSelf : receiver.kind ≠ .self := by
        intro self
        cases receiver
        simp only at self
        subst self
        simp [isStaticPath] at static
      simp [found, notSelf, static]
  · rintro ⟨path, told, argument, given, name, named, rfl⟩
    split at told
    · rename_i none
      cases told
      rw [String.empty_append]
      exact .onNamespace (by simp [none]) given named
    · rename_i receiver found
      split at told
      · rename_i self
        cases told
        rw [String.empty_append]
        refine .onNamespace (fun other same => ?_) given named
        obtain rfl : receiver = other := Option.some.inj (found.symm.trans same)
        exact self
      · split at told
        · rename_i static
          cases told
          exact .onPath found static given named
        · cases told

theorem Node.child?_arguments_of_mem {node argument : Node}
    (given : argument ∈ node.argumentNodes) : (node.child? .arguments).isSome = true := by
  unfold argumentNodes at given
  split at given
  · rename_i list found
    rw [found]
    rfl
  · cases given

theorem FileContext.hide_mem_hideConstants {call : Node} {scope : Scope} {name : String} :
    .hide name ∈ (file.hideConstants call scope).1 ↔
      ∃ spelled, file.SpellsHidden call spelled ∧ scope.qualify spelled = name := by
  simp only [FileContext.spellsHidden_iff, FileContext.hideConstants, Walk.emit]
  constructor
  · intro member
    split at member
    · cases member
    · rename_i path told
      obtain ⟨own, given, same⟩ := List.mem_map.mp member
      obtain ⟨argument, held, named⟩ := List.mem_filterMap.mp given
      exact ⟨path ++ own, ⟨path, told, argument, held, own, named, rfl⟩, Change.hide.inj same⟩
  · rintro ⟨_, ⟨path, told, argument, held, own, named, rfl⟩, rfl⟩
    simp only [told]
    exact List.mem_map.mpr ⟨own, List.mem_filterMap.mpr ⟨argument, held, named⟩, rfl⟩

theorem Visit.hides_iff {visit : Visit} {scope : Scope} {name : String}
    (nesting : scope.nesting = visit.enclosingNames file) :
    visit.Hides file name ↔
      visit.form file = .hidesConstants ∧
        .hide name ∈ (file.hideConstants visit.node scope).1 := by
  simp only [FileContext.hide_mem_hideConstants, Scope.qualify, nesting,
    Visit.form_hidesConstants_iff]
  constructor
  · intro hides
    exact ⟨⟨hides.isNode, hides.call, hides.message⟩, hides.spelled⟩
  · rintro ⟨⟨isNode, call, message⟩, spelled⟩
    refine ⟨isNode, call, message, ?_, spelled⟩
    obtain ⟨_, hidden, _⟩ := spelled
    cases hidden with
    | onNamespace _ given _ => exact Node.child?_arguments_of_mem given
    | onPath _ _ given _ => exact Node.child?_arguments_of_mem given

theorem Visit.form_spelledName_iff {root : Node} {visit : Visit}
    (reached : Reached file root visit) {name : String} {visibility : Visibility} :
    visit.form file = .spelledName name visibility ↔
      file.spelledName? visit.node = some name ∧ visit.handed? file = some visibility := by
  rw [← given_eq_handed? reached]
  constructor
  · intro form
    have fits := visit.fits_form file
    rw [form] at fits
    exact ⟨fits.2, by rw [fits.1]; rfl⟩
  · rintro ⟨spelled, given⟩
    have notMethod : visit.node.kind.isMethod = false := by
      unfold FileContext.spelledName? at spelled
      cases kind : visit.node.kind <;> simp_all [NodeKind.isMethod]
    cases role : visit.role with
    | argument handed =>
      rw [role] at given
      cases given
      simp [Visit.form, role, Role.form, notMethod, spelled]
    | _ =>
      rw [role] at given
      cases given

theorem Change.written_map_hide (name : String) (entry : Entry) (hidden : List String) :
    written name entry (hidden.map .hide) =
      ((hidden.map Change.hide).filter (· = .hide name)).map fun _ => .isPrivate := by
  induction hidden with
  | nil => rfl
  | cons first rest ih =>
    rw [List.map_cons, written, List.filterMap_cons, List.filter_cons]
    by_cases same : first = name
    · simp only [written?, same, if_true, decide_true, List.map_cons]
      exact congrArg _ ih
    · simp only [written?, same, if_false, Change.hide.injEq, decide_false, Bool.false_eq_true]
      exact ih

theorem FileContext.written_hideConstants (call : Node) (scope : Scope) (name : String)
    (entry : Entry) :
    Change.written name entry (file.hideConstants call scope).1 =
      ((file.hideConstants call scope).1.filter (· = .hide name)).map fun _ => .isPrivate := by
  simp only [FileContext.hideConstants, Walk.emit]
  split
  · rfl
  · rename_i path _
    have hidden := Change.written_map_hide name entry
      ((call.argumentNodes.filterMap file.spelledName?).map fun own => scope.qualify (path ++ own))
    rw [List.map_map] at hidden
    exact hidden

theorem Visit.written_changes (visit : Visit) (scope : Scope) (name : String) (entry : Entry) :
    Change.written name entry (visit.changes file scope) =
      match visit.form file with
      | .hidesConstants =>
          ((file.hideConstants visit.node scope).1.filter (· = .hide name)).map fun _ => .isPrivate
      | .spelledName method visibility =>
          if method = name ∧ entry.isMethod = true ∧ entry.owner = scope.owner then [visibility]
          else []
      | _ => [] := by
  unfold changes
  cases visit.form file with
  | method given =>
    simp only [FileContext.declareMethod, Walk.emit]
    split <;> rfl
  | hidesConstants => exact FileContext.written_hideConstants visit.node scope name entry
  | definesAttributes reader writer =>
    refine List.filterMap_eq_nil_iff.mpr fun change made => ?_
    obtain ⟨argument, _, defined⟩ := List.mem_flatMap.mp made
    split at defined
    · cases defined
    · obtain ⟨accessor, _, rfl⟩ := List.mem_map.mp defined
      rfl
  | spelledName method visibility =>
    simp only [Change.written, List.filterMap_cons, List.filterMap_nil, Change.written?]
    split <;> rename_i writes <;> split at writes <;> simp_all
  | _ => rfl

theorem Visit.mem_written_of_constant {visit : Visit} {scope : Scope} {name : String}
    {entry : Entry} {visibility : Visibility}
    (nesting : scope.nesting = visit.enclosingNames file) (isConstant : entry.isMethod = false) :
    visibility ∈ Change.written name entry (visit.changes file scope) ↔
      visibility = .isPrivate ∧ visit.Hides file name := by
  rw [visit.written_changes, hides_iff nesting]
  cases form : visit.form file with
  | hidesConstants =>
    simp only [List.mem_map, List.mem_filter, decide_eq_true_eq, true_and]
    constructor
    · rintro ⟨change, ⟨made, rfl⟩, rfl⟩
      exact ⟨rfl, made⟩
    · rintro ⟨rfl, made⟩
      exact ⟨_, ⟨made, rfl⟩, rfl⟩
  | _ => simp [isConstant]

theorem Visit.visibilityFor?_eq_some_iff {root : Node} {visit : Visit}
    (reached : Reached file root visit) {name : String} {owner : Option String}
    {visibility : Visibility} :
    visit.visibilityFor? file name owner = some visibility ↔
      visit.form file = .spelledName name visibility ∧
        Naming.namespaceOf (visit.enclosingNames file) = owner := by
  rw [form_spelledName_iff reached, visibilityFor?, Option.ite_none_right_eq_some]
  constructor
  · rintro ⟨⟨spelled, inside⟩, handed⟩
    exact ⟨⟨spelled, handed⟩, inside⟩
  · rintro ⟨⟨spelled, handed⟩, inside⟩
    exact ⟨⟨spelled, inside⟩, handed⟩

theorem Visit.written_of_method {root : Node} {visit : Visit} {scope : Scope} {name : String}
    {entry : Entry} (reached : Reached file root visit)
    (nesting : scope.nesting = visit.enclosingNames file) (isMethod : entry.isMethod = true)
    (unhidden : ¬ visit.Hides file name) :
    Change.written name entry (visit.changes file scope) =
      (visit.visibilityFor? file name entry.owner).toList := by
  have unwritten (unspelled : ∀ visibility, visit.form file ≠ .spelledName name visibility) :
      (visit.visibilityFor? file name entry.owner).toList = [] := by
    rw [Option.toList_eq_nil_iff, Option.eq_none_iff_forall_ne_some]
    intro visibility given
    exact unspelled visibility ((visibilityFor?_eq_some_iff reached).mp given).1
  have owner : scope.owner = Naming.namespaceOf (visit.enclosingNames file) := by
    rw [Scope.owner, nesting]
  rw [hides_iff nesting] at unhidden
  rw [visit.written_changes]
  cases form : visit.form file with
  | hidesConstants =>
    rw [unwritten (by simp [form]), List.map_eq_nil_iff, List.filter_eq_nil_iff]
    intro change made hides
    rw [of_decide_eq_true hides] at made
    exact unhidden ⟨form, made⟩
  | spelledName method visibility =>
    by_cases same : method = name
    · subst same
      by_cases inside : entry.owner = scope.owner
      · have given : visit.visibilityFor? file method entry.owner = some visibility :=
          (visibilityFor?_eq_some_iff reached).mpr ⟨form, owner.symm.trans inside.symm⟩
        simp [isMethod, inside ▸ given, inside]
      · have none : visit.visibilityFor? file method entry.owner = none := by
          rw [visibilityFor?, if_neg]
          rintro ⟨_, outside⟩
          exact inside (outside.symm.trans owner.symm)
        simp [inside, none]
    · rw [unwritten (by simp [form, same])]
      simp [same]
  | _ => rw [unwritten (by simp [form])]

end

end DeclarationIndex
