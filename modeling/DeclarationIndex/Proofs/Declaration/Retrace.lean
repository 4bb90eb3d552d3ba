import DeclarationIndex.Proofs.Declaration.Tour

/-!
A walk is a run of its tour. The two are compared node by node; each way in which a walk selects
among the children of a node has its counterpart in `Form.into`.
-/

namespace DeclarationIndex

namespace Walk

@[simp] theorem done_andThen (walk : Walk) : done.andThen walk = walk := by
  funext scope
  simp [done, andThen]

@[simp] theorem andThen_done (walk : Walk) : walk.andThen done = walk := by
  funext scope
  simp [done, andThen]

end Walk

section
variable (file : FileContext)

namespace Tour

theorem changes_append (scope : Scope) (first second : List Step) :
    changes file scope (first ++ second) =
      changes file scope first ++ changes file (scopeAfter file scope first) second := by
  induction first generalizing scope with
  | nil => rfl
  | cons step rest ih => simp [changes, scopeAfter, ih]

theorem scopeAfter_append (scope : Scope) (first second : List Step) :
    scopeAfter file scope (first ++ second) =
      scopeAfter file (scopeAfter file scope first) second :=
  List.foldl_append ..

def act (visit : Visit) : Walk :=
  fun scope => (visit.changes file scope, (Step.meet visit).scope file scope)

theorem run_nil : run file [] = Walk.done :=
  rfl

theorem run_append (first second : List Step) :
    run file (first ++ second) = (run file first).andThen (run file second) := by
  funext scope
  simp [run, Walk.andThen, changes_append, scopeAfter_append]

theorem run_meet (visit : Visit) (rest : List Step) :
    run file (.meet visit :: rest) = (act file visit).andThen (run file rest) := by
  funext scope
  rfl

theorem run_body (steps : List Step) :
    run file (.enter none :: (steps ++ [.leave none])) = Walk.inBody (run file steps) := by
  funext scope
  simp [run, Walk.inBody, changes, changes_append, scopeAfter, Step.changes, Step.scope]

theorem run_namespace (name : String) (steps : List Step) :
    run file (.enter (some name) :: (steps ++ [.leave (some name)])) =
      Walk.inNamespace name (run file steps) := by
  funext scope
  simp [run, Walk.inNamespace, Walk.inBody, changes, changes_append, scopeAfter, Step.changes,
    Step.scope]

end Tour

def Form.walk (above : List NodeKind) (node : Node) (form : Form) : Walk :=
  let inside := node.kind :: above
  match form with
  | .namespace name =>
      (walkInField file inside .superclass node.children).andThen
        ((file.declareNamespace node).andThen
          (Walk.inNamespace name (walkExcept file inside [.name, .superclass] node.children)))
  | .unnamedNamespace =>
      (walkInField file inside .superclass node.children).andThen
        (Walk.inBody (walkExcept file inside [.name, .superclass] node.children))
  | .singletonClass => Walk.inBody (walkNamed file inside node.children)
  | .constant target =>
      (if node.valueIsConstant then Walk.done
        else walkField file inside .right node.children).andThen
        (file.declareConstant node target)
  | .method given =>
      (file.declareMethod node given).andThen
        (walkExcept file inside [.name, .object] node.children)
  | .hidesConstants => (file.hideConstants node).andThen (walkNamed file inside node.children)
  | .definesAttributes reader writer =>
      (file.declareAttributes node reader writer).andThen (walkNamed file inside node.children)
  | .setsVisibility visibility =>
      (if node.argumentNodes.isEmpty then
        Walk.markSection above (some visibility) else Walk.done).andThen
        ((walkArgumentsOf file inside visibility node.children).andThen
          (walkField file inside .block node.children))
  | .spelledName name visibility =>
      Walk.emit fun scope => [.setMethodVisibility name scope.owner visibility]
  | .identifier => Walk.markSection above (Visibility.ofName? (file.text node))
  | .passage none => walkNamed file inside node.children
  | .passage (some visibility) => walkArguments file inside visibility node.children

theorem walk_eq_form (above : List NodeKind) (node : Node) :
    walk file above node = (Form.ofNode file node).walk file above node := by
  obtain ⟨kind, named, field, span, children⟩ := node
  unfold DeclarationIndex.walk Form.ofNode
  simp only
  split
  case h_1 | h_2 => cases Naming.isConstantPath _ <;> rfl
  case h_4 | h_5 => cases Node.constantTarget? _ <;> rfl
  case h_8 => cases CallForm.ofNode file _ <;> rfl
  case h_10 => simp only [Form.walk]
  all_goals rfl

theorem walkArguments_cons (above : List NodeKind) (visibility : Visibility) (node : Node)
    (rest : List Node) :
    walkArguments file above visibility (node :: rest) =
      (if node.named then ((Role.argument visibility).form file node).walk file above node
        else Walk.done).andThen (walkArguments file above visibility rest) := by
  obtain ⟨kind, named, field, span, children⟩ := node
  rw [walkArguments, Role.form]
  cases named
  · rfl
  · cases kind.isMethod
    · cases file.spelledName? ⟨kind, true, field, span, children⟩
      · simp [walk_eq_form]
      · simp [Form.walk]
    · simp [Form.walk]

theorem walkArguments_of_unnamed (above : List NodeKind) (visibility : Visibility)
    {nodes : List Node} (unnamed : nodes.filter (·.named) = []) :
    walkArguments file above visibility nodes = Walk.done := by
  induction nodes with
  | nil => rfl
  | cons node rest ih =>
    have parts := List.forall_mem_cons.mp (List.filter_eq_nil_iff.mp unnamed)
    rw [walkArguments_cons, if_neg parts.1, Walk.done_andThen,
      ih (List.filter_eq_nil_iff.mpr parts.2)]

theorem walkArgumentsOf_eq (above : List NodeKind) (visibility : Visibility) (nodes : List Node) :
    walkArgumentsOf file above visibility nodes =
      match Node.firstWithField .arguments nodes with
      | some list => walkArguments file (list.kind :: above) visibility list.children
      | none => Walk.done := by
  induction nodes with
  | nil => rfl
  | cons node rest ih =>
    cases node with
    | mk kind named field span children =>
      rw [walkArgumentsOf, ih]
      by_cases fills : field = some .arguments
      · simp [Node.firstWithField, fills]
      · simp [Node.firstWithField, fills]

theorem walkArgumentsOf_of_bare (above : List NodeKind) (visibility : Visibility) {node : Node}
    (fields : node.kind ≠ .error) (bare : node.argumentNodes = []) :
    walkArgumentsOf file above visibility node.children = Walk.done := by
  rw [walkArgumentsOf_eq]
  simp only [Node.argumentNodes, Node.child?, if_neg fields] at bare
  split
  · rename_i list found
    rw [found] at bare
    exact walkArguments_of_unnamed file _ visibility bare
  · rfl

namespace Tour

/-- Runs of the tour of a node do what a walk does that takes it for the same. -/
def Retraced (node : Node) : Prop :=
  ∀ above role, run file (ofNode file above role node) =
    (role.form file node).walk file (Level.kinds above) node

section
variable {file} {above : List Level} {role : Role} {node : Node} {stage : Stage}

theorem run_ofChildren_cons (earlier : List Node) (child : Node) (rest : List Node) :
    run file (ofChildren file above role node stage earlier (child :: rest)) =
      (match (role.form file node).into node stage earlier child with
        | some next =>
            run file (ofNode file (⟨node, role, earlier.length, child⟩ :: above) next child)
        | none => Walk.done).andThen
        (run file (ofChildren file above role node stage (earlier ++ [child]) rest)) := by
  rw [ofChildren, run_append]
  cases (role.form file node).into node stage earlier child <;> rfl

theorem ofChildren_eq_nil (stage : Stage) (into : ∀ earlier child,
      (role.form file node).into node stage earlier child = none)
    (earlier children : List Node) :
    ofChildren file above role node stage earlier children = [] := by
  induction children generalizing earlier with
  | nil => rfl
  | cons child rest ih => simp [ofChildren, into, ih]

/-- Going on to every child that passes a test; `pick` is how a walk does so. -/
theorem run_ofChildren_all (passes : Node → Bool) (next : Role) (pick : List Node → Walk)
    (pick_nil : pick [] = Walk.done)
    (pick_cons : ∀ child rest, pick (child :: rest) =
      (if passes child then (next.form file child).walk file (node.kind :: Level.kinds above) child
        else Walk.done).andThen (pick rest))
    (into : ∀ earlier child, (role.form file node).into node stage earlier child =
      if passes child then some next else none)
    (children : List Node) (retraced : ∀ child ∈ children, Retraced file child)
    (earlier : List Node) :
    run file (ofChildren file above role node stage earlier children) = pick children := by
  induction children generalizing earlier with
  | nil => exact pick_nil.symm
  | cons child rest ih =>
    rw [run_ofChildren_cons, pick_cons, into,
      ih (fun other later => retraced other (List.mem_cons_of_mem _ later))]
    have form := retraced child (List.mem_cons_self ..)
    cases passes child
    · rfl
    · simp only [if_true]
      rw [form]
      rfl

theorem run_ofChildren_first (field : Field) (next : Role) (pick : List Node → Walk)
    (pick_nil : pick [] = Walk.done)
    (pick_cons : ∀ child rest, pick (child :: rest) =
      if child.field = some field then
        (next.form file child).walk file (node.kind :: Level.kinds above) child
      else pick rest)
    (into : ∀ earlier child, (role.form file node).into node stage earlier child =
      if isFirstWith field earlier child then some next else none)
    (children : List Node) (retraced : ∀ child ∈ children, Retraced file child)
    (earlier : List Node) :
    run file (ofChildren file above role node stage earlier children) =
      if earlier.any (·.field = some field) then Walk.done else pick children := by
  induction children generalizing earlier with
  | nil => simp [ofChildren, run_nil, pick_nil]
  | cons child rest ih =>
    have form := retraced child (List.mem_cons_self ..)
    rw [run_ofChildren_cons, pick_cons, into,
      ih (fun other later => retraced other (List.mem_cons_of_mem _ later))]
    by_cases seen : earlier.any (·.field = some field) = true
    · simp [isFirstWith, seen]
    · by_cases fills : child.field = some field
      · simp [isFirstWith, seen, fills, form _ _, Level.kinds]
      · simp [isFirstWith, seen, fills]

section
variable {children : List Node} (retraced : ∀ child ∈ children, Retraced file child)
include retraced

theorem run_named (into : ∀ earlier child, (role.form file node).into node stage earlier child =
      if child.named then some .plain else none) :
    run file (ofChildren file above role node stage [] children) =
      walkNamed file (node.kind :: Level.kinds above) children :=
  run_ofChildren_all (·.named) .plain (walkNamed file _) rfl
    (fun child rest => by simp only [walkNamed, walk_eq_form]; rfl) into children retraced []

theorem run_except (fields : List Field)
    (into : ∀ earlier child, (role.form file node).into node stage earlier child =
      if isNamedOutside fields child then some .plain else none) :
    run file (ofChildren file above role node stage [] children) =
      walkExcept file (node.kind :: Level.kinds above) fields children :=
  run_ofChildren_all (isNamedOutside fields) .plain (walkExcept file _ fields) rfl
    (fun child rest => by simp only [walkExcept, walk_eq_form]; rfl) into children retraced []

theorem run_arguments (visibility : Visibility)
    (into : ∀ earlier child, (role.form file node).into node stage earlier child =
      if child.named then some (.argument visibility) else none) :
    run file (ofChildren file above role node stage [] children) =
      walkArguments file (node.kind :: Level.kinds above) visibility children :=
  run_ofChildren_all (·.named) (.argument visibility) (walkArguments file _ visibility) rfl
    (walkArguments_cons file _ visibility) into children retraced []

theorem run_field (field : Field)
    (into : ∀ earlier child, (role.form file node).into node stage earlier child =
      if isFirstWith field earlier child then some .plain else none) :
    run file (ofChildren file above role node stage [] children) =
      walkField file (node.kind :: Level.kinds above) field children :=
  run_ofChildren_first field .plain (walkField file _ field) rfl
    (fun child rest => by simp only [walkField, walk_eq_form]; rfl) into children retraced []

theorem run_superclass
    (into : ∀ earlier child, (role.form file node).into node stage earlier child =
      if isFirstWith .superclass earlier child then some .superclassClause else none) :
    run file (ofChildren file above role node stage [] children) =
      walkInField file (node.kind :: Level.kinds above) .superclass children :=
  run_ofChildren_first .superclass .superclassClause (walkInField file _ .superclass) rfl
    (fun child rest => by cases child; rfl) into children retraced []

theorem run_argumentList (visibility : Visibility)
    (into : ∀ earlier child, (role.form file node).into node stage earlier child =
      if isFirstWith .arguments earlier child then some (.argumentList visibility) else none) :
    run file (ofChildren file above role node stage [] children) =
      walkArgumentsOf file (node.kind :: Level.kinds above) visibility children :=
  run_ofChildren_first .arguments (.argumentList visibility) (walkArgumentsOf file _ visibility)
    rfl (fun child rest => by cases child; rfl) into children retraced []

end

def around : Form → Walk → Walk
  | .namespace name, walk => Walk.inNamespace name walk
  | .unnamedNamespace, walk | .singletonClass, walk => Walk.inBody walk
  | _, walk => walk

theorem run_inBody (form : Form) (steps : List Step) :
    run file (form.inBody steps) = around form (run file steps) := by
  cases form with
  | «namespace» name => exact run_namespace file name steps
  | unnamedNamespace => exact run_body file steps
  | singletonClass => exact run_body file steps
  | _ => rfl

theorem run_ofNode (above : List Level) (role : Role) (node : Node) :
    run file (ofNode file above role node) =
      (run file (ofChildren file above role node .before [] node.children)).andThen
        ((act file ⟨node, role, above⟩).andThen (around (role.form file node)
          (run file (ofChildren file above role node .after [] node.children)))) := by
  cases node
  rw [ofNode, run_append, run_meet, run_inBody]

theorem act_eq (visit : Visit) :
    act file visit =
      match visit.form file with
      | .namespace _ => file.declareNamespace visit.node
      | .constant target => file.declareConstant visit.node target
      | .method given => file.declareMethod visit.node given
      | .hidesConstants => file.hideConstants visit.node
      | .definesAttributes reader writer => file.declareAttributes visit.node reader writer
      | .setsVisibility visibility =>
          if visit.node.argumentNodes.isEmpty then
            Walk.markSection visit.kindsAbove (some visibility)
          else Walk.done
      | .spelledName name visibility =>
          Walk.emit fun scope => [.setMethodVisibility name scope.owner visibility]
      | .identifier =>
          Walk.markSection visit.kindsAbove (Visibility.ofName? (file.text visit.node))
      | _ => Walk.done := by
  funext scope
  simp only [act, Visit.changes, Step.scope, Visit.section?]
  cases form : visit.form file with
  | setsVisibility visibility =>
    by_cases stands : standsInBody visit.kindsAbove = true
    · by_cases bare : visit.node.argumentNodes.isEmpty = true
      · simp [stands, bare, Walk.markSection, Walk.startSection]
      · simp [stands, bare, Walk.done]
    · by_cases bare : visit.node.argumentNodes.isEmpty = true
      · simp [stands, bare, Walk.markSection, Walk.done]
      · simp [stands, bare, Walk.done]
  | identifier =>
    by_cases stands : standsInBody visit.kindsAbove = true
    · cases Visibility.ofName? (file.text visit.node)
      · simp [stands, Walk.markSection, Walk.done]
      · simp [stands, Walk.markSection, Walk.startSection]
    · cases Visibility.ofName? (file.text visit.node) <;>
        simp [stands, Walk.markSection, Walk.done]
  | _ => simp only [ite_self]; rfl

end

theorem retraced (node : Node) : Retraced file node := by
  induction node using Node.ofChildren with
  | step node ih =>
    intro above role
    rw [run_ofNode, act_eq]
    simp only [Visit.form]
    -- each form says which children are walked before the node, and which after it
    cases form : role.form file node with
    | «namespace» name =>
      rw [run_superclass ih (by simp [form, Form.into]),
        run_except ih [.name, .superclass] (by simp [form, Form.into])]
      rfl
    | unnamedNamespace =>
      rw [run_superclass ih (by simp [form, Form.into]),
        run_except ih [.name, .superclass] (by simp [form, Form.into]), Walk.done_andThen]
      rfl
    | singletonClass =>
      rw [ofChildren_eq_nil .before (by simp [form, Form.into]),
        run_named ih (by simp [form, Form.into]), run_nil, Walk.done_andThen, Walk.done_andThen]
      rfl
    | constant target =>
      rw [ofChildren_eq_nil .after (by simp [form, Form.into]), run_nil]
      by_cases reference : node.valueIsConstant = true
      · rw [ofChildren_eq_nil .before (by simp [form, Form.into, reference]), run_nil]
        simp [around, Form.walk, reference]
      · rw [run_field ih .right (by simp [form, Form.into, reference])]
        simp [around, Form.walk, reference]
    | method given =>
      rw [ofChildren_eq_nil .before (by simp [form, Form.into]), run_nil, Walk.done_andThen,
        run_except ih [.name, .object] (by simp [form, Form.into])]
      rfl
    | hidesConstants =>
      rw [ofChildren_eq_nil .before (by simp [form, Form.into]), run_nil, Walk.done_andThen,
        run_named ih (by simp [form, Form.into])]
      rfl
    | definesAttributes reader writer =>
      rw [ofChildren_eq_nil .before (by simp [form, Form.into]), run_nil, Walk.done_andThen,
        run_named ih (by simp [form, Form.into])]
      rfl
    | setsVisibility visibility =>
      -- without arguments there is nothing to walk before the section starts
      rw [run_argumentList ih visibility (by simp [form, Form.into]),
        run_field ih .block (by simp [form, Form.into])]
      by_cases bare : node.argumentNodes = []
      · have call : node.kind = .call := by
          have fits := role.fits_form file node
          rw [form] at fits
          exact fits.2.1
        have nothing := walkArgumentsOf_of_bare file (node.kind :: Level.kinds above) visibility
          (by simp [call]) bare
        simp [Form.walk, nothing, bare, around, Visit.kindsAbove]
      · simp [Form.walk, bare, around]
    | spelledName name visibility =>
      rw [ofChildren_eq_nil .before (by simp [form, Form.into]),
        ofChildren_eq_nil .after (by simp [form, Form.into]), run_nil, Walk.done_andThen]
      exact Walk.andThen_done _
    | identifier =>
      rw [ofChildren_eq_nil .before (by simp [form, Form.into]),
        ofChildren_eq_nil .after (by simp [form, Form.into]), run_nil, Walk.done_andThen]
      exact Walk.andThen_done _
    | passage given =>
      rw [ofChildren_eq_nil .before (by cases given <;> simp [form, Form.into]), run_nil,
        Walk.done_andThen, Walk.done_andThen]
      cases given with
      | none => exact run_named ih (by simp [form, Form.into])
      | some visibility => exact run_arguments ih visibility (by simp [form, Form.into])

end Tour

/-- A walk from the root does what a run of the tour does. -/
theorem walk_eq_run (node : Node) :
    walk file [] node = Tour.run file (Tour.ofNode file [] .plain node) := by
  rw [Tour.retraced file node, walk_eq_form]
  rfl

end

end DeclarationIndex
