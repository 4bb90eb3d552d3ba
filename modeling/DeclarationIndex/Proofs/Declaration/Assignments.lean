import DeclarationIndex.Proofs.Declaration.Examined

/-!
Assignments to paths of constants: a walk takes each for what it is, goes on to its value alone,
and then inserts one entry, which the node and the bodies around it tell all of.
-/

namespace DeclarationIndex

theorem NodeKind.ne_error_of_isAssignment {kind : NodeKind} (assigns : kind.isAssignment = true) :
    kind ≠ .error := by
  rintro rfl
  cases assigns

theorem isFirstWith_iff_findIdx? {field : Field} {nodes : List Node} {index : Nat} {child : Node}
    (found : nodes[index]? = some child) :
    isFirstWith field (nodes.take index) child = true ↔
      nodes.findIdx? (·.field == some field) = some index := by
  obtain ⟨inside, rfl⟩ := List.getElem?_eq_some_iff.mp found
  simp only [isFirstWith, Bool.and_eq_true, decide_eq_true_eq, Bool.not_eq_true',
    List.any_eq_false, List.findIdx?_eq_some_iff_getElem, List.mem_take_iff_getElem]
  constructor
  · rintro ⟨fills, alone⟩
    exact ⟨inside, by simp [fills], fun other before => by
      simpa using alone nodes[other] ⟨other, by omega, rfl⟩⟩
  · rintro ⟨_, fills, earlier⟩
    refine ⟨by simpa using fills, ?_⟩
    rintro _ ⟨other, before, rfl⟩
    simpa using earlier other (by omega)

theorem Node.child?_eq_some_iff {node child : Node} {field : Field} (regular : node.kind ≠ .error) :
    node.child? field = some child ↔
      ∃ index, node.children[index]? = some child ∧
        isFirstWith field (node.children.take index) child = true := by
  rw [child?, if_neg regular, firstWithField, List.find?_eq_bind_findIdx?_getElem?,
    Option.bind_eq_some_iff]
  constructor
  · rintro ⟨index, first, found⟩
    exact ⟨index, found, (isFirstWith_iff_findIdx? found).mpr first⟩
  · rintro ⟨index, found, first⟩
    exact ⟨index, (isFirstWith_iff_findIdx? found).mp first, found⟩

section
variable {file : FileContext}

theorem FileContext.declares_of_isAssignment {node : Node}
    (assigns : node.kind.isAssignment = true) : file.declares node = node.assignsConstant := by
  unfold declares Node.assignsConstant
  cases kind : node.kind <;> simp_all [NodeKind.isAssignment]

structure Visit.AssignsConstant (visit : Visit) : Prop where
  isNode : visit.role.isNode = true
  assigns : visit.node.assignsConstant = true

theorem Visit.AssignsConstant.isAssignment {visit : Visit} (assigns : visit.AssignsConstant) :
    visit.node.kind.isAssignment = true :=
  (Bool.and_eq_true_iff.mp assigns.assigns).1

variable (file) in
theorem Visit.AssignsConstant.form {visit : Visit} (assigns : visit.AssignsConstant) :
    ∃ target, visit.node.constantTarget? = some target ∧ visit.form file = .constant target := by
  have isAssignment := assigns.isAssignment
  obtain ⟨isNode, assigns⟩ := assigns
  obtain ⟨target, static⟩ := Option.isSome_iff_exists.mp (Bool.and_eq_true_iff.mp assigns).2
  have unspelled : file.spelledName? visit.node = none := by
    unfold FileContext.spelledName?
    cases kind : visit.node.kind <;> simp_all [NodeKind.isAssignment]
  have examines : visit.examines file = true := by
    cases role : visit.role <;> simp_all [Role.isNode, Visit.examines]
  refine ⟨target, static, ?_⟩
  rcases form_of_examines examines with form | ⟨isMethod, _⟩
  · rw [form, Form.ofNode]
    cases kind : visit.node.kind <;> simp_all [NodeKind.isAssignment]
  · cases kind : visit.node.kind <;> simp_all [NodeKind.isAssignment, NodeKind.isMethod]

namespace Tour

theorem ofVisit_of_assignsConstant {visit : Visit} (assigns : visit.AssignsConstant) :
    ofVisit file visit = (List.range visit.node.children.length).flatMap
      (through file visit.above visit.role visit.node .before) ++ [.meet visit] := by
  obtain ⟨target, _, form⟩ := assigns.form file
  rw [Visit.form] at form
  have after (index : Nat) :
      through file visit.above visit.role visit.node .after index = [] := by
    unfold through
    split
    · rfl
    · rw [form]
      rfl
  have absent : (List.range visit.node.children.length).flatMap
      (through file visit.above visit.role visit.node .after) = [] :=
    List.flatMap_eq_nil_iff.mpr fun index _ => after index
  rw [ofVisit, ofNode_eq, form, absent]
  rfl

end Tour

variable (file) in
def Visit.constantEntry (visit : Visit) : Entry :=
  let names := visit.enclosingNames file
  file.entry visit.node (Naming.qualify names (file.fieldText visit.node .left))
    (file.constantKind visit.node names) (file.comments visit.node) .isPublic

theorem Moment.insertions_of_assignsConstant {root : Node} {moment : Moment}
    (met : moment ∈ momentsOf file root) (assigns : moment.visit.AssignsConstant) :
    moment.insertions file =
      [⟨moment.earlier, moment.visit, moment.visit.constantEntry file⟩] := by
  obtain ⟨target, static, form⟩ := assigns.form file
  have left : moment.visit.node.child? .left = some target :=
    (Option.filter_eq_some_iff.mp static).1
  have text : file.fieldText moment.visit.node .left = file.text target := by
    rw [FileContext.fieldText, left]
  rw [Moment.insertions, Visit.entries_eq, form, Visit.constantEntry, text,
    ← nesting_eq_enclosingNames met]
  rfl

theorem map_visit_insertions {root : Node} {moments : List Moment}
    (met : ∀ moment ∈ moments, moment ∈ momentsOf file root)
    (assign : ∀ moment ∈ moments, moment.visit.AssignsConstant) :
    (moments.flatMap (·.insertions file)).map Insertion.visit = moments.map Moment.visit := by
  rw [List.map_flatMap, List.map_eq_flatMap]
  refine List.flatMap_congr fun moment member => ?_
  rw [Moment.insertions_of_assignsConstant (met moment member) (assign moment member)]
  rfl

theorem exists_moment_of_assignsConstant {root : Node} {insertion : Insertion}
    (member : insertion ∈ insertionsOf file root) (assigns : insertion.visit.AssignsConstant) :
    ∃ moment ∈ momentsOf file root,
      insertion = ⟨moment.earlier, moment.visit, moment.visit.constantEntry file⟩ := by
  obtain ⟨moment, met, inserted⟩ := List.mem_flatMap.mp member
  have same : insertion.visit = moment.visit := by
    obtain ⟨entry, _, rfl⟩ := List.mem_map.mp inserted
    rfl
  rw [same] at assigns
  rw [Moment.insertions_of_assignsConstant met assigns] at inserted
  exact ⟨moment, met, List.mem_singleton.mp inserted⟩

theorem entry_of_assignsConstant {root : Node} {insertion : Insertion}
    (member : insertion ∈ insertionsOf file root) (assigns : insertion.visit.AssignsConstant) :
    insertion.entry = insertion.visit.constantEntry file := by
  obtain ⟨moment, _, rfl⟩ := exists_moment_of_assignsConstant member assigns
  rfl

theorem insertion_unique {root : Node} {first second : Insertion}
    (firstMember : first ∈ insertionsOf file root) (secondMember : second ∈ insertionsOf file root)
    (same : first.visit = second.visit) (assigns : first.visit.AssignsConstant) :
    first = second := by
  obtain ⟨moment, met, firstEq⟩ := exists_moment_of_assignsConstant firstMember assigns
  rw [same] at assigns
  obtain ⟨other, otherMet, secondEq⟩ := exists_moment_of_assignsConstant secondMember assigns
  rw [firstEq, secondEq] at same
  rw [firstEq, secondEq, eq_of_visit_eq met otherMet same]

end

end DeclarationIndex
