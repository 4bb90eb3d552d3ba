import DeclarationIndex.Proofs.Declaration.Tour

/-!
The visits of a tour are the nodes that can be reached from the root by going on, child by child,
as the form of each node allows.
-/

namespace DeclarationIndex

section
variable (file : FileContext)

def Visit.child (visit : Visit) (index : Nat) (child : Node) (role : Role) : Visit :=
  ⟨child, role, ⟨visit.node, visit.role, index, child⟩ :: visit.above⟩

/-- That a walk goes on from a visit to the child at an index, and takes it for the role. -/
def Visit.GoesTo (visit : Visit) (index : Nat) (child : Node) (role : Role) : Prop :=
  visit.node.children[index]? = some child ∧
    ∃ stage, (visit.form file).into visit.node stage (visit.node.children.take index) child =
      some role

inductive Reached (root : Node) : Visit → Prop where
  | root : Reached root ⟨root, .plain, []⟩
  | child {visit : Visit} {index : Nat} {child : Node} {role : Role}
      (parent : Reached root visit) (goes : visit.GoesTo file index child role) :
      Reached root (visit.child index child role)

namespace Tour

def visits (steps : List Step) : List Visit :=
  steps.flatMap (·.visit?.toList)

@[simp] theorem visits_append (first second : List Step) :
    visits (first ++ second) = visits first ++ visits second :=
  List.flatMap_append ..

@[simp] theorem visits_meet (visit : Visit) (rest : List Step) :
    visits (.meet visit :: rest) = visit :: visits rest :=
  rfl

@[simp] theorem visits_inBody (form : Form) (steps : List Step) :
    visits (form.inBody steps) = visits steps := by
  cases form <;> simp [Form.inBody, visits, Step.visit?]

variable {file}

theorem mem_visits_through {visit start : Visit} {stage : Stage} {index : Nat} :
    visit ∈ visits (through file start.above start.role start.node stage index) ↔
      ∃ child role, start.node.children[index]? = some child ∧
        (start.form file).into start.node stage (start.node.children.take index) child =
          some role ∧
        visit ∈ visits (ofNode file (start.child index child role).above role child) := by
  unfold through
  rw [Visit.form]
  cases start.node.children[index]? with
  | none => simp [visits]
  | some child =>
    simp only [Option.some.injEq, exists_and_left, exists_eq_left']
    cases (start.role.form file start.node).into start.node stage
      (start.node.children.take index) child with
    | none => simp [visits]
    | some role =>
      simp only [Option.some.injEq, exists_eq_left']
      rfl

theorem mem_visits_ofNode {visit : Visit} (start : Visit) :
    visit ∈ visits (ofNode file start.above start.role start.node) ↔
      visit = start ∨ ∃ index child role, start.GoesTo file index child role ∧
        visit ∈ visits (ofNode file (start.child index child role).above role child) := by
  have stages (stage : Stage) :
      visit ∈ visits ((List.range start.node.children.length).flatMap
        (through file start.above start.role start.node stage)) ↔
      ∃ index, visit ∈ visits (through file start.above start.role start.node stage index) := by
    simp only [visits, List.flatMap_assoc, List.mem_flatMap (b := visit), List.mem_range]
    refine ⟨fun ⟨index, _, member⟩ => ⟨index, member⟩, fun ⟨index, member⟩ => ⟨index, ?_, member⟩⟩
    obtain ⟨child, _, found, _⟩ := mem_visits_through.mp (List.mem_flatMap.mpr member)
    exact (List.getElem?_eq_some_iff.mp found).1
  rw [ofNode_eq, visits_append, visits_meet, visits_inBody, List.mem_append, List.mem_cons,
    stages, stages]
  simp only [mem_visits_through]
  constructor
  · rintro (⟨index, child, role, found, into, member⟩ | here |
      ⟨index, child, role, found, into, member⟩)
    · exact Or.inr ⟨index, child, role, ⟨found, .before, into⟩, member⟩
    · exact Or.inl here
    · exact Or.inr ⟨index, child, role, ⟨found, .after, into⟩, member⟩
  · rintro (here | ⟨index, child, role, ⟨found, stage, into⟩, member⟩)
    · exact Or.inr (Or.inl here)
    · cases stage with
      | before => exact Or.inl ⟨index, child, role, found, into, member⟩
      | after => exact Or.inr (Or.inr ⟨index, child, role, found, into, member⟩)

theorem reached_of_mem_visits {root : Node} (node : Node) :
    ∀ above role, Reached file root ⟨node, role, above⟩ →
      ∀ visit ∈ visits (ofNode file above role node), Reached file root visit := by
  induction node using Node.ofChildren with
  | step node ih =>
    intro above role start visit member
    rcases (mem_visits_ofNode ⟨node, role, above⟩).mp member with
      rfl | ⟨index, child, next, goes, below⟩
    · exact start
    · exact ih child (List.mem_of_getElem? goes.1) _ next (start.child goes) visit below

theorem child_mem_visits {visit : Visit} {index : Nat} {child : Node} {role : Role}
    (goes : visit.GoesTo file index child role) (node : Node) : ∀ above next,
      visit ∈ visits (ofNode file above next node) →
      visit.child index child role ∈ visits (ofNode file above next node) := by
  induction node using Node.ofChildren with
  | step node ih =>
    intro above next member
    refine (mem_visits_ofNode ⟨node, next, above⟩).mpr (Or.inr ?_)
    rcases (mem_visits_ofNode ⟨node, next, above⟩).mp member with
      rfl | ⟨place, other, taken, goesOther, below⟩
    · exact ⟨index, child, role, goes,
        (mem_visits_ofNode _).mpr (Or.inl rfl)⟩
    · have there := ih other (List.mem_of_getElem? goesOther.1) _ taken below
      exact ⟨place, other, taken, goesOther, there⟩

variable (file) in
def ofVisit (visit : Visit) : List Step :=
  ofNode file visit.above visit.role visit.node

theorem infix_inBody (form : Form) (steps : List Step) : steps <:+: form.inBody steps := by
  cases form with
  | «namespace» name => exact ⟨[.enter (some name)], [.leave (some name)], by simp [Form.inBody]⟩
  | unnamedNamespace => exact ⟨[.enter none], [.leave none], by simp [Form.inBody]⟩
  | singletonClass => exact ⟨[.enter none], [.leave none], by simp [Form.inBody]⟩
  | _ => exact List.infix_rfl

theorem through_of_into {visit : Visit} {index : Nat} {child : Node} {role : Role} {stage : Stage}
    (found : visit.node.children[index]? = some child)
    (into : (visit.form file).into visit.node stage (visit.node.children.take index) child =
      some role) :
    through file visit.above visit.role visit.node stage index =
      ofVisit file (visit.child index child role) := by
  rw [Visit.form] at into
  simp only [through, found, into]
  rfl

theorem infix_of_goesTo {visit : Visit} {index : Nat} {child : Node} {role : Role}
    (goes : visit.GoesTo file index child role) :
    ofVisit file (visit.child index child role) <:+: ofVisit file visit := by
  obtain ⟨found, stage, into⟩ := goes
  have inside : index ∈ List.range visit.node.children.length :=
    List.mem_range.mpr (List.getElem?_eq_some_iff.mp found).1
  have part : ofVisit file (visit.child index child role) <:+:
      (List.range visit.node.children.length).flatMap
        (through file visit.above visit.role visit.node stage) := by
    rw [← through_of_into found into]
    exact List.infix_of_mem_flatten (List.mem_map_of_mem inside)
  rw [ofVisit.eq_1 file visit, ofNode_eq]
  cases stage with
  | before => exact part.trans (List.prefix_append ..).isInfix
  | after =>
    exact (part.trans (infix_inBody _ _)).trans
      ((List.suffix_cons ..).trans (List.suffix_append ..)).isInfix

theorem infix_of_reached {root : Node} {visit : Visit} (reached : Reached file root visit) :
    ofVisit file visit <:+: ofNode file [] .plain root := by
  induction reached with
  | root => exact List.infix_rfl
  | child _ goes ih => exact (infix_of_goesTo goes).trans ih

end Tour

theorem mem_visits_iff_reached {root : Node} {visit : Visit} :
    visit ∈ Tour.visits (Tour.ofNode file [] .plain root) ↔ Reached file root visit := by
  constructor
  · exact Tour.reached_of_mem_visits root [] .plain .root visit
  · intro reached
    induction reached with
    | root => exact (Tour.mem_visits_ofNode ⟨root, .plain, []⟩).mpr (Or.inl rfl)
    | child _ goes ih => exact Tour.child_mem_visits goes root [] .plain ih

end

end DeclarationIndex
