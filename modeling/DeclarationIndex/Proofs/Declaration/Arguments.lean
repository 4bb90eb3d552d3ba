import DeclarationIndex.Proofs.Declaration.Reach

/-!
The direct arguments of visibility calls. On the way to a node one can see whether it is one, and
of which call; a walk takes just these for arguments of that visibility.
-/

namespace DeclarationIndex

def Role.listed : Role → Option Visibility
  | .argumentList visibility => some visibility
  | _ => none

def Form.visibilitySet? : Form → Option Visibility
  | .setsVisibility visibility => some visibility
  | _ => none

def Form.given : Form → Option Visibility
  | .passage given => given
  | _ => none

section
variable (file : FileContext)

def Level.visibilitySet? (level : Level) : Option Visibility :=
  if level.role.isNode && level.node.kind = .call then
    match CallForm.ofNode file level.node with
    | .setsVisibility visibility => some visibility
    | _ => none
  else none

/-- The visibility of the call that a node is a direct argument of. -/
def Visit.handed? (visit : Visit) : Option Visibility :=
  match visit.above with
  | list :: call :: _ =>
      if list.node.field = some .arguments then call.visibilitySet? file else none
  | _ => none

variable {file}

theorem Form.listed_of_into {form : Form} {node child : Node} {stage : Stage}
    {earlier : List Node} {next : Role} (into : form.into node stage earlier child = some next) :
    next.listed = if child.field = some .arguments then form.visibilitySet? else none := by
  cases form with
  | setsVisibility visibility =>
    cases stage <;>
      simp only [Form.into, Option.ite_none_right_eq_some, isFirstWith, Bool.and_eq_true,
        decide_eq_true_eq, Option.some.injEq] at into
    all_goals
      obtain ⟨⟨fills, _⟩, rfl⟩ := into
      simp [fills, Role.listed, Form.visibilitySet?]
  | passage given =>
    cases stage <;> cases given <;>
      simp only [Form.into, Option.ite_none_right_eq_some, Option.some.injEq, reduceCtorEq] at into
    all_goals
      obtain ⟨_, rfl⟩ := into
      simp [Role.listed, Form.visibilitySet?]
  | _ =>
    cases stage <;>
      simp only [Form.into, Option.ite_none_right_eq_some, Option.some.injEq, reduceCtorEq] at into
    all_goals
      obtain ⟨_, rfl⟩ := into
      simp [Role.listed, Form.visibilitySet?]

theorem Form.given_of_into {form : Form} {node child : Node} {stage : Stage}
    {earlier : List Node} {next : Role} (into : form.into node stage earlier child = some next) :
    next.given = form.given := by
  cases form with
  | passage given =>
    cases stage <;> cases given <;>
      simp only [Form.into, Option.ite_none_right_eq_some, Option.some.injEq, reduceCtorEq] at into
    all_goals
      obtain ⟨_, rfl⟩ := into
      rfl
  | _ =>
    cases stage <;>
      simp only [Form.into, Option.ite_none_right_eq_some, Option.some.injEq, reduceCtorEq] at into
    all_goals
      obtain ⟨_, rfl⟩ := into
      rfl

theorem Form.given_ofNode (node : Node) : (Form.ofNode file node).given = none := by
  simp only [Form.ofNode]
  repeat' split
  all_goals rfl

theorem Role.given_form (role : Role) (node : Node) :
    (role.form file node).given = role.listed := by
  cases role with
  | plain => exact Form.given_ofNode node
  | argument visibility =>
    simp only [Role.form]
    split
    · rfl
    · split
      · rfl
      · exact Form.given_ofNode node
  | superclassClause => rfl
  | argumentList visibility => rfl

theorem Role.form_of_setsVisibility {role : Role} {node : Node} {visibility : Visibility}
    (isNode : role.isNode = true) (call : node.kind = .call)
    (sets : CallForm.ofNode file node = .setsVisibility visibility) :
    role.form file node = .setsVisibility visibility := by
  have plain : Form.ofNode file node = .setsVisibility visibility := by
    simp only [Form.ofNode, call, sets]
  cases role with
  | plain => exact plain
  | argument given =>
    simpa [Role.form, call, NodeKind.isMethod, FileContext.spelledName?] using plain
  | superclassClause => cases isNode
  | argumentList given => cases isNode

theorem Level.visibilitySet?_eq (level : Level) :
    level.visibilitySet? file = (level.role.form file level.node).visibilitySet? := by
  have fits := level.role.fits_form file level.node
  by_cases sets : ∃ visibility, level.role.form file level.node = .setsVisibility visibility
  · obtain ⟨visibility, form⟩ := sets
    rw [form] at fits
    obtain ⟨isNode, call, callForm⟩ := fits
    simp [Level.visibilitySet?, isNode, call, callForm, form, Form.visibilitySet?]
  · have none : (level.role.form file level.node).visibilitySet? = none := by
      cases form : level.role.form file level.node <;> first | rfl | exact absurd ⟨_, form⟩ sets
    rw [none, Level.visibilitySet?]
    split
    · rename_i call
      rw [Bool.and_eq_true, decide_eq_true_eq] at call
      split
      · rename_i visibility callForm
        exact absurd ⟨visibility, Role.form_of_setsVisibility call.1 call.2 callForm⟩ sets
      · rfl
    · rfl

theorem given_eq_handed? {root : Node} {visit : Visit} (reached : Reached file root visit) :
    visit.role.given = visit.handed? file := by
  cases reached with
  | root => rfl
  | @child parent index node role above goes =>
    obtain ⟨_, stage, into⟩ := goes
    change role.given = _
    rw [Form.given_of_into into, Visit.form, Role.given_form]
    cases above with
    | root => rfl
    | @child outer index' list role' _ goes =>
      obtain ⟨_, stage, into⟩ := goes
      change role'.listed = _
      rw [Form.listed_of_into into]
      simp only [Visit.handed?, Visit.child, Level.visibilitySet?_eq]
      rfl

end

end DeclarationIndex
