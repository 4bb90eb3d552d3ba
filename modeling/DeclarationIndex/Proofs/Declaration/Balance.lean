import DeclarationIndex.Proofs.Declaration.Examined
import DeclarationIndex.Proofs.Declaration.Sections

/-!
A walk keeps its stacks balanced. From wherever it starts, it ends in the namespaces and bodies in
which it started, and at no time it has left the body it started in. What may be another one in the
end is the section of that body, if the walk came past a visibility word that stands in it.
-/

namespace DeclarationIndex

/-- Whether a node is a part of the node above it and no statement in its body: the superclass of a
class, or the arguments of a call. -/
def Node.isClause (node : Node) : Bool :=
  node.field = some .superclass || node.field = some .arguments

/-- That a node is the last one on a way down that enters no body, and the nodes above it on that
way, nearest first. The way goes on into the body of a class, module or singleton class unless it
passes a clause. -/
inductive Node.Exposes (top : Node) : List Node → Node → Prop
  | here : Exposes top [] top
  | down {way : List Node} {node child : Node} (above : Exposes top way node)
      (member : child ∈ node.children)
      (outside : node.kind.opensBody = true → node.isClause = true ∨ child.isClause = true) :
      Exposes top (node :: way) child

/-- That a tree has the kinds of node in their places as a grammar has them: clauses are of kinds of
their own, and only the root can be a whole program. -/
structure Node.IsGrammatical (root : Node) : Prop where
  clauses : ∀ node ∈ root.preorder, node.isClause = true → ∃ name, node.kind = .other name
  programs : ∀ node ∈ root.preorder, ∀ child ∈ node.children, child.kind ≠ .program

section
variable (file : FileContext)

/-- The visibility that a node names on its own: a visibility word, or a call of one without a
receiver and arguments. -/
def FileContext.marks? (node : Node) : Option Visibility :=
  match node.kind with
  | .identifier => Visibility.ofName? (file.text node)
  | .call =>
      if (node.child? .receiver).isNone && node.argumentNodes.isEmpty then
        Visibility.ofName? (file.fieldText node .method)
      else none
  | _ => none

def lastSection? (visits : List Visit) (body : Option (List Nat)) : Option Visibility :=
  ((visits.filter (·.body = body)).filterMap (Visit.section? file)).getLast?

variable {file}

theorem standsInBody_cases {parent owner : NodeKind} {above : List NodeKind}
    (stands : standsInBody (parent :: owner :: above) = true) :
    parent = .program ∨ parent = .bodyStatement ∧ owner.opensBody = true ∨
      parent.opensBody = true := by
  unfold standsInBody at stands
  split at stands
  · cases stands
  · rename_i same
    exact Or.inl (List.cons.inj same).1
  · rename_i same
    obtain ⟨rfl, rfl⟩ := List.cons.inj same
    exact Or.inr (Or.inl ⟨rfl, by simpa using stands⟩)
  · rename_i same
    exact Or.inr (Or.inr ((List.cons.inj same).1 ▸ stands))

theorem Node.Exposes.mem_preorder {top node : Node} {way : List Node}
    (exposes : top.Exposes way node) : node ∈ top.preorder := by
  induction exposes with
  | here => exact top.self_mem_preorder
  | down _ member _ ih => exact Node.child_mem_preorder member top ih

theorem Node.IsGrammatical.not_isClause {top node : Node} {way : List Node}
    (grammatical : top.IsGrammatical) (exposes : top.Exposes way node)
    (ordinary : ∀ name, node.kind ≠ .other name) : node.isClause = false := by
  by_contra clause
  obtain ⟨name, kind⟩ :=
    grammatical.clauses node exposes.mem_preorder (by simpa using clause)
  exact ordinary name kind

theorem Node.IsGrammatical.not_opensBody {top node child : Node} {way : List Node}
    (grammatical : top.IsGrammatical) (exposes : top.Exposes way node)
    (outside : node.kind.opensBody = true → node.isClause = true ∨ child.isClause = true)
    (statement : child.isClause = false) : node.kind.opensBody = false := by
  cases opens : node.kind.opensBody with
  | false => rfl
  | true =>
    have ordinary := grammatical.not_isClause exposes fun name kind => by
      rw [kind] at opens
      cases opens
    rcases outside opens with clause | clause
    · exact clause.symm.trans ordinary
    · exact clause.symm.trans statement

theorem Node.Exposes.not_opensBody {top marker : Node} {way : List Node} {above : List NodeKind}
    {visibility : Visibility} (exposes : top.Exposes way marker)
    (grammatical : top.IsGrammatical) (marks : file.marks? marker = some visibility)
    (stands : standsInBody (way.map (·.kind) ++ above) = true) :
    ∀ outer ∈ way, outer.kind.opensBody = false := by
  have statement : marker.isClause = false := by
    refine grammatical.not_isClause exposes fun name kind => ?_
    rw [FileContext.marks?, kind] at marks
    cases marks
  cases exposes with
  | here => simp
  | @down way node _ parent _ outside =>
    have closed := grammatical.not_opensBody parent outside statement
    cases parent with
    | here => simpa using closed
    | @down way owner _ grandparent member outside =>
      -- the marker would stand in a program below another node, or in the body of the owner
      rcases standsInBody_cases stands with program | ⟨bodyStatement, opens⟩ | opens
      · exact absurd program (grammatical.programs owner grandparent.mem_preorder node member)
      · have ordinary := grammatical.not_isClause (grandparent.down member outside)
          fun name kind => by simp [bodyStatement] at kind
        rw [grammatical.not_opensBody grandparent outside ordinary] at opens
        cases opens
      · rw [closed] at opens
        cases opens

theorem marks?_of_section? {visit : Visit} {visibility : Visibility}
    (starts : visit.section? file = some visibility) :
    file.marks? visit.node = some visibility ∧ standsInBody visit.kindsAbove = true := by
  have fits := visit.fits_form file
  unfold Visit.section? at starts
  split at starts
  · rename_i stands
    refine ⟨?_, stands⟩
    cases form : visit.form file with
    | identifier =>
      rw [form] at fits starts
      have kind : visit.node.kind = .identifier := fits
      simpa only [FileContext.marks?, kind] using starts
    | setsVisibility given =>
      rw [form] at fits starts
      obtain ⟨_, call, callForm⟩ := fits
      simp only [Option.ite_none_right_eq_some, Option.some.injEq] at starts
      obtain ⟨bare, rfl⟩ := starts
      obtain ⟨onSelf, named⟩ := CallForm.setsVisibility_iff.mp callForm
      simp only [FileContext.marks?, call, onSelf, bare, Bool.and_self, if_true, named]
    | _ =>
      rw [form] at starts
      cases starts
  · cases starts

theorem Form.isClause_of_into {form : Form} {node child : Node} {stage : Stage}
    {earlier : List Node} {next : Role} (part : next.isNode = false)
    (into : form.into node stage earlier child = some next) : child.isClause = true := by
  cases next with
  | plain => cases part
  | argument visibility => cases part
  | superclassClause =>
    unfold Form.into at into
    split at into <;> simp_all [isFirstWith, Node.isClause]
  | argumentList visibility =>
    unfold Form.into at into
    split at into <;> simp_all [isFirstWith, Node.isClause]

theorem Level.isClause_of_not_opensBody {node child : Node} {role next : Role} {stage : Stage}
    {earlier : List Node} {index : Nat} (isNode : role.isNode = true)
    (opens : node.kind.opensBody = true)
    (into : (role.form file node).into node stage earlier child = some next)
    (outside : Level.opensBody ⟨node, role, index, child⟩ = false) : child.isClause = true := by
  have formOpens : (role.form file node).opensBody = true :=
    ((role.fits_form file node).opensBody_eq isNode).trans opens
  rw [Level.opensBody_of_into index into, formOpens, Bool.true_and] at outside
  cases stage with
  | after => cases outside
  | before =>
    cases form : role.form file node <;> rw [form] at formOpens into <;>
      simp_all [Form.opensBody, Form.into, isFirstWith, Node.isClause]

theorem Level.not_opensBody_of_body {visit : Visit} {level : Level} {above : List Level}
    (below : level :: above <:+ visit.above) (body : visit.body = Level.body above) :
    level.opensBody = false := by
  have outer : ∀ path, Level.body above = some path → path.length < above.length :=
    fun path body => (Level.path_suffix_of_body body).2
  obtain ⟨further, whole⟩ := below
  by_contra opens
  have inner : Level.body (level :: above) = some (Level.path above) := by
    simp [Level.body, by simpa using opens]
  rw [Visit.body, ← whole] at body
  rcases Level.body_append further (level :: above) with same | ⟨path, deeper, longer⟩
  · have shorter := outer _ (body ▸ same.trans inner)
    simp [Level.path] at shorter
  · have shorter := outer _ (body ▸ deeper)
    simp only [List.length_cons] at longer
    omega

namespace Tour

theorem exposes_of_mem {top : Node} {visit : Visit} (node : Node) : ∀ way above role,
    top.Exposes way node → (role.isNode = false → node.isClause = true) →
    visit ∈ visits (ofNode file above role node) → visit.body = Level.body above →
    ∃ further, top.Exposes (further ++ way) visit.node ∧
      visit.kindsAbove = further.map (·.kind) ++ Level.kinds above := by
  induction node using Node.ofChildren with
  | step node ih =>
    intro way above role exposes clause member body
    rcases (mem_visits_ofNode ⟨node, role, above⟩).mp member with
      rfl | ⟨index, child, next, ⟨found, stage, into⟩, below⟩
    · exact ⟨[], exposes, rfl⟩
    · have closed := Level.not_opensBody_of_body (above_suffix_of_mem child _ next below) body
      -- the visit is in the body where the tour starts, so the step to the child opens none
      have same : Level.body (⟨node, role, index, child⟩ :: above) = Level.body above := by
        simp [Level.body, closed]
      have outside (opens : node.kind.opensBody = true) :
          node.isClause = true ∨ child.isClause = true := by
        cases isNode : role.isNode with
        | false => exact Or.inl (clause isNode)
        | true => exact Or.inr (Level.isClause_of_not_opensBody isNode opens into closed)
      have inside := List.mem_of_getElem? found
      obtain ⟨further, exposed, kinds⟩ := ih child inside (node :: way)
        (⟨node, role, index, child⟩ :: above) next (exposes.down inside outside)
        (fun part => Form.isClause_of_into part into) below (body.trans same.symm)
      exact ⟨further ++ [node], by simpa using exposed, by simpa [Level.kinds] using kinds⟩

end Tour

theorem lastSection?_append (first second : List Visit) (body : Option (List Nat)) :
    lastSection? file (first ++ second) body =
      (lastSection? file second body).or (lastSection? file first body) := by
  rw [lastSection?, List.filter_append, List.filterMap_append, List.getLast?_append]
  rfl

theorem lastSection?_of_ne {visits : List Visit} {body : Option (List Nat)}
    (elsewhere : ∀ visit ∈ visits, visit.body ≠ body) : lastSection? file visits body = none := by
  have none : visits.filter (·.body = body) = [] := by
    simpa [List.filter_eq_nil_iff] using elsewhere
  rw [lastSection?, none]
  rfl

theorem lastSection?_singleton (visit : Visit) :
    lastSection? file [visit] visit.body = visit.section? file := by
  cases starts : visit.section? file <;> simp [lastSection?, starts]

namespace Tour

variable (file) in
/-- Steps in a body that leave it as it was but for its section, and never leave it on the way. -/
structure Balanced (body : Option (List Nat)) (steps : List Step) : Prop where
  nesting : ∀ scope, (scopeAfter file scope steps).nesting = scope.nesting
  sections : ∀ scope current outer, scope.sections = current :: outer →
    (scopeAfter file scope steps).sections =
      (lastSection? file (visits steps) body).getD current :: outer
  inside : ∀ scope current outer, scope.sections = current :: outer →
    ∀ before, before <+: steps →
      ∃ inner, inner ≠ [] ∧ (scopeAfter file scope before).sections = inner ++ outer

variable {body : Option (List Nat)} {steps first second : List Step}

theorem balanced_nil : Balanced file body [] where
  nesting _ := rfl
  sections _ _ _ filled := filled
  inside scope current outer filled before isPrefix := by
    rw [List.prefix_nil.mp isPrefix]
    exact ⟨[current], by simp, filled⟩

theorem Balanced.append (before : Balanced file body first) (after : Balanced file body second) :
    Balanced file body (first ++ second) where
  nesting scope := by
    rw [scopeAfter_append, after.nesting, before.nesting]
  sections scope current outer filled := by
    have between := before.sections scope current outer filled
    rw [scopeAfter_append, after.sections _ _ outer between, visits_append, lastSection?_append,
      Option.getD_or]
  inside scope current outer filled passed isPrefix := by
    obtain ⟨left, whole⟩ := isPrefix
    rcases List.append_eq_append_iff.mp whole with ⟨soon, early, _⟩ | ⟨late, rfl, rest⟩
    · exact before.inside scope current outer filled passed ⟨soon, early.symm⟩
    · rw [scopeAfter_append]
      exact after.inside _ _ outer (before.sections scope current outer filled) late
        ⟨left, rest.symm⟩

theorem balanced_flatMap {indices : List Nat} {through : Nat → List Step}
    (each : ∀ index ∈ indices, Balanced file body (through index)) :
    Balanced file body (indices.flatMap through) := by
  induction indices with
  | nil => exact balanced_nil
  | cons index rest ih =>
    obtain ⟨here, later⟩ := List.forall_mem_cons.mp each
    exact here.append (ih later)

theorem balanced_meet (visit : Visit) : Balanced file visit.body [.meet visit] := by
  have sections : ∀ scope current outer, scope.sections = current :: outer →
      (scopeAfter file scope [.meet visit]).sections =
        (lastSection? file (visits [.meet visit]) visit.body).getD current :: outer := by
    intro scope current outer filled
    have visited : visits [.meet visit] = [visit] := rfl
    rw [visited, lastSection?_singleton]
    simp only [scopeAfter, List.foldl_cons, List.foldl_nil, Step.scope]
    cases visit.section? file with
    | none => exact filled
    | some visibility => simp [Scope.setCurrent, filled]
  refine ⟨fun scope => ?_, sections, fun scope current outer filled before isPrefix => ?_⟩
  · simp only [scopeAfter, List.foldl_cons, List.foldl_nil, Step.scope]
    split
    · exact nesting_setCurrent scope _
    · rfl
  · rcases List.prefix_cons_iff.mp isPrefix with rfl | ⟨further, rfl, none⟩
    · exact ⟨[current], by simp, filled⟩
    · rw [List.prefix_nil.mp none]
      exact ⟨[_], by simp, sections scope current outer filled⟩

variable (file) in
theorem sections_enter (name : Option String) (scope : Scope) :
    ((Step.enter name).scope file scope).sections = .isPublic :: scope.sections := by
  cases name <;> rfl

theorem sections_leave (name : Option String) (scope : Scope) :
    ((Step.leave name).scope file scope).sections = scope.sections.tail := by
  cases name <;> rfl

theorem Balanced.enclosed {inner : Option (List Nat)} (name : Option String)
    (apart : ∀ visit ∈ visits steps, visit.body ≠ body) (balanced : Balanced file inner steps) :
    Balanced file body (.enter name :: (steps ++ [.leave name])) := by
  have whole (scope : Scope) :
      scopeAfter file scope (.enter name :: (steps ++ [.leave name])) =
        (Step.leave name).scope file
          (scopeAfter file ((Step.enter name).scope file scope) steps) := by
    simp [scopeAfter]
  have visited : visits (.enter name :: (steps ++ [.leave name])) = visits steps := by
    simp [visits, Step.visit?]
  have sections : ∀ scope current outer, scope.sections = current :: outer →
      (scopeAfter file scope (.enter name :: (steps ++ [.leave name]))).sections =
        (lastSection? file (visits (.enter name :: (steps ++ [.leave name]))) body).getD current ::
          outer := by
    intro scope current outer filled
    have back := balanced.sections _ _ _ (sections_enter file name scope)
    rw [whole, sections_leave, back, List.tail_cons, visited, lastSection?_of_ne apart, filled]
    rfl
  refine ⟨fun scope => ?_, sections, fun scope current outer filled before isPrefix => ?_⟩
  · have back := balanced.nesting ((Step.enter name).scope file scope)
    rw [whole]
    cases name with
    | none => exact back
    | some name =>
      have dropped := congrArg List.dropLast back
      simpa [Step.scope, Scope.closeBody, Scope.closeNamespace, Scope.openBody,
        Scope.openNamespace] using dropped
  · rcases List.prefix_cons_iff.mp isPrefix with rfl | ⟨further, rfl, inside⟩
    · exact ⟨[current], by simp, filled⟩
    · rcases List.prefix_concat_iff.mp inside with rfl | early
      · exact ⟨[_], by simp, sections scope current outer filled⟩
      · obtain ⟨deeper, _, stack⟩ :=
          balanced.inside _ _ _ (sections_enter file name scope) further early
        refine ⟨deeper ++ [current], by simp, ?_⟩
        rw [List.append_assoc, List.singleton_append, ← filled, ← stack]
        rfl

section
variable {node : Node} {role : Role} {above : List Level}

theorem Balanced.inBody {indices : List Nat}
    (balanced : Balanced file ((role.form file node).bodyInside .after above)
      (indices.flatMap (through file above role node .after))) :
    Balanced file (Level.body above)
      ((role.form file node).inBody (indices.flatMap (through file above role node .after))) := by
  cases opens : (role.form file node).opensBody with
  | true =>
    obtain ⟨name, enclosed⟩ := Form.inBody_of_opensBody opens
    rw [enclosed]
    exact balanced.enclosed name fun other member => body_ne_outer opens member
  | false =>
    rw [Form.inBody_of_not_opensBody opens]
    have inner : (role.form file node).bodyInside .after above = Level.body above := by
      simp [Form.bodyInside, opens]
    rwa [inner] at balanced

end

theorem balanced_ofNode (node : Node) : ∀ above role,
    Balanced file (Level.body above) (ofNode file above role node) := by
  induction node using Node.ofChildren with
  | step node ih =>
    intro above role
    have children (stage : Stage) : Balanced file ((role.form file node).bodyInside stage above)
        ((List.range node.children.length).flatMap (through file above role node stage)) := by
      refine balanced_flatMap fun index _ => ?_
      unfold through
      split
      · exact balanced_nil
      · rename_i child found
        split
        · rename_i next into
          rw [← Level.body_of_into index above into]
          exact ih child (List.mem_of_getElem? found) _ next
        · exact balanced_nil
    have before : (role.form file node).bodyInside .before above = Level.body above := by
      simp [Form.bodyInside]
    rw [ofNode_eq]
    exact (before ▸ children .before).append ((balanced_meet ⟨node, role, above⟩).append
      (children .after).inBody)

end Tour

theorem exists_exposed_of_lastSection? {node : Node} {above : List Level} {visibility : Visibility}
    (last : lastSection? file (Tour.visits (Tour.ofNode file above .plain node))
      (Level.body above) = some visibility) :
    ∃ way marker, node.Exposes way marker ∧ file.marks? marker = some visibility ∧
      standsInBody (way.map (·.kind) ++ Level.kinds above) = true := by
  obtain ⟨visit, inBody, starts⟩ := List.mem_filterMap.mp (List.mem_of_getLast? last)
  rw [List.mem_filter, decide_eq_true_eq] at inBody
  obtain ⟨marks, stands⟩ := marks?_of_section? starts
  obtain ⟨way, exposed, kinds⟩ := Tour.exposes_of_mem node [] above .plain .here
    (by simp [Role.isNode]) inBody.1 inBody.2
  rw [List.append_nil] at exposed
  exact ⟨way, visit.node, exposed, marks, kinds ▸ stands⟩

/-- Wherever it starts, a walk does what a run of the tour does. -/
theorem walk_eq_run_below (above : List Level) (node : Node) :
    walk file (Level.kinds above) node =
      Tour.run file (Tour.ofNode file above .plain node) := by
  rw [walk_eq_form, Tour.retraced]
  rfl

theorem Level.exists_kinds_eq (kinds : List NodeKind) : ∃ above, Level.kinds above = kinds := by
  let level (kind : NodeKind) : Level := ⟨{ (default : Node) with kind }, .plain, 0, default⟩
  exact ⟨kinds.map level, by simp [Level.kinds, level, Function.comp_def]⟩

variable (file) in
/-- A walk from any node leaves the namespaces and the bodies as they were. In the innermost body it
may leave another section, which a word or call below the node then marks that stands in this body;
in trees of a grammar no class, module or singleton class below the node holds it. On a walk from
the root there is a body at all times. -/
theorem walk_balanced :
    (∀ above node scope current outer, scope.sections = current :: outer →
      (walk file above node scope).2.nesting = scope.nesting ∧
      ∃ last, (walk file above node scope).2.sections = last :: outer ∧
        (last = current ∨ ∃ way marker, node.Exposes way marker ∧
          file.marks? marker = some last ∧
          standsInBody (way.map (·.kind) ++ above) = true ∧
          (node.IsGrammatical → ∀ outer ∈ way, outer.kind.opensBody = false))) ∧
    ∀ root, walk file [] root = Tour.run file (Tour.ofNode file [] .plain root) ∧
      ∀ before, before <+: Tour.ofNode file [] .plain root →
        (Tour.scopeAfter file Scope.topLevel before).sections ≠ [] := by
  constructor
  · intro kinds node scope current outer filled
    obtain ⟨above, rfl⟩ := Level.exists_kinds_eq kinds
    have balanced : Tour.Balanced file (Level.body above)
        (Tour.ofNode file above .plain node) := Tour.balanced_ofNode node above .plain
    rw [walk_eq_run_below]
    refine ⟨balanced.nesting scope, _, balanced.sections scope current outer filled, ?_⟩
    cases last : lastSection? file (Tour.visits (Tour.ofNode file above .plain node))
        (Level.body above) with
    | none => exact Or.inl rfl
    | some visibility =>
      obtain ⟨way, marker, exposed, marks, stands⟩ := exists_exposed_of_lastSection? last
      exact Or.inr ⟨way, marker, exposed, marks, stands,
        fun grammatical => exposed.not_opensBody grammatical marks stands⟩
  · intro root
    refine ⟨walk_eq_run file root, fun before isPrefix => ?_⟩
    have balanced : Tour.Balanced file none (Tour.ofNode file [] .plain root) :=
      Tour.balanced_ofNode root [] .plain
    obtain ⟨inner, filled, sections⟩ :=
      balanced.inside Scope.topLevel .isPublic [] rfl before isPrefix
    simpa [sections] using filled

end

theorem module_body_left_private :
    ∃ body ∈ sectionedTree.preorder, body.IsGrammatical ∧
      (walk sectionedFile [.moduleDefinition, .program] body ⟨["A"], [.isPublic, .isPublic]⟩).2 =
        ⟨["A"], [.isPrivate, .isPublic]⟩ ∧
      ∃ way marker, body.Exposes way marker ∧ sectionedFile.marks? marker = some .isPrivate ∧
        ∀ outer ∈ way, outer.kind.opensBody = false := by
  let body := sectionedTree.preorder.get ⟨3, by decide +kernel⟩
  have clauses : ∀ node ∈ body.preorder, node.isClause = false := by decide +kernel
  have grammatical : body.IsGrammatical :=
    ⟨fun node member clause => by simp [clauses node member] at clause, by decide +kernel⟩
  let scope : Scope := ⟨["A"], [.isPublic, .isPublic]⟩
  have after : (walk sectionedFile [.moduleDefinition, .program] body scope).2 =
      ⟨["A"], [.isPrivate, .isPublic]⟩ := by decide +kernel
  obtain ⟨_, last, sections, changed⟩ := (walk_balanced sectionedFile).1
    [.moduleDefinition, .program] body scope .isPublic [.isPublic] rfl
  rw [after] at sections
  obtain rfl : .isPrivate = last := (List.cons.inj sections).1
  rcases changed with same | ⟨way, marker, exposes, marks, _, enclosed⟩
  · cases same
  · exact ⟨body, List.get_mem .., grammatical, after, way, marker, exposes, marks,
      enclosed grammatical⟩

end DeclarationIndex
