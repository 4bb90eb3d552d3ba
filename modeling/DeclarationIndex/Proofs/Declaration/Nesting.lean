import DeclarationIndex.Proofs.Declaration.Insertion
import DeclarationIndex.Proofs.Naming

/-!
Names are lexical: what a declaration is called depends on the classes and modules around it and
on nothing that was walked before.
-/

namespace DeclarationIndex

/-- Nodes that name a class or module or its superclass, and so do not stand in its body. -/
def Node.isHeader (node : Node) : Bool :=
  node.field = some .name || node.field = some .superclass

section
variable (file : FileContext)

def Level.name? (level : Level) : Option String :=
  let name := file.fieldText level.node .name
  if level.role.isNode && level.node.kind.isNamespace && Naming.isConstantPath name &&
      !level.child.isHeader then some name
  else none

def Level.names (above : List Level) : List String :=
  above.reverse.filterMap (Level.name? file)

/-- The names of the classes and modules in whose bodies a node stands, outermost first. -/
def Visit.enclosingNames (visit : Visit) : List String :=
  Level.names file visit.above

variable {file}

theorem Level.names_cons (level : Level) (above : List Level) :
    Level.names file (level :: above) = Level.names file above ++ (level.name? file).toList := by
  simp only [Level.names, List.reverse_cons, List.filterMap_append]
  cases named : level.name? file <;> simp [named]

theorem Form.ofNode_of_isConstantPath {node : Node} (isNamespace : node.kind.isNamespace = true)
    (path : Naming.isConstantPath (file.fieldText node .name) = true) :
    Form.ofNode file node = .namespace (file.fieldText node .name) := by
  unfold Form.ofNode
  cases kind : node.kind <;> simp_all [NodeKind.isNamespace]

theorem Role.form_of_isNamespace {role : Role} {node : Node} (isNode : role.isNode = true)
    (isNamespace : node.kind.isNamespace = true) :
    role.form file node = Form.ofNode file node := by
  cases role with
  | plain => rfl
  | argument visibility =>
    cases kind : node.kind <;>
      simp_all [NodeKind.isNamespace, Role.form, NodeKind.isMethod, FileContext.spelledName?]
  | superclassClause => cases isNode
  | argumentList visibility => cases isNode

theorem Level.name?_eq (level : Level) :
    level.name? file =
      match level.role.form file level.node with
      | .namespace name => if level.child.isHeader then none else some name
      | _ => none := by
  have fits := level.role.fits_form file level.node
  cases form : level.role.form file level.node with
  | «namespace» name =>
    rw [form] at fits
    obtain ⟨isNode, isNamespace, rfl, path⟩ := fits
    cases header : level.child.isHeader <;> simp [Level.name?, isNode, isNamespace, path, header]
  | _ =>
    by_contra named
    simp only [Level.name?, ite_eq_right_iff, not_forall, Bool.and_eq_true] at named
    obtain ⟨⟨⟨⟨isNode, isNamespace⟩, path⟩, _⟩, _⟩ := named
    rw [Role.form_of_isNamespace isNode isNamespace,
      Form.ofNode_of_isConstantPath isNamespace path] at form
    cases form

def Form.namesInside (form : Form) (stage : Stage) (names : List String) : List String :=
  match form, stage with
  | .namespace name, .after => names ++ [name]
  | _, _ => names

def Form.isNamespace : Form → Bool
  | .namespace _ | .unnamedNamespace => true
  | _ => false

theorem Form.isHeader_of_into {form : Form} {node child : Node} {stage : Stage}
    {earlier : List Node} {next : Role} (isNamespace : form.isNamespace = true)
    (into : form.into node stage earlier child = some next) :
    child.isHeader = (stage == .before) := by
  have before (fills : isFirstWith .superclass earlier child = true) : child.isHeader = true := by
    simp only [isFirstWith, Bool.and_eq_true, decide_eq_true_eq] at fills
    simp [Node.isHeader, fills.1]
  have after (outside : isNamedOutside [.name, .superclass] child = true) :
      child.isHeader = false := by
    simp only [isNamedOutside, Bool.and_eq_true] at outside
    cases field : child.field <;> simp_all [Node.isHeader]
  cases form <;> cases isNamespace <;> cases stage <;>
    simp only [Form.into, Option.ite_none_right_eq_some] at into <;> grind

theorem Level.names_of_into {node child : Node} {role next : Role} {stage : Stage}
    {earlier : List Node} (index : Nat) (above : List Level)
    (into : (role.form file node).into node stage earlier child = some next) :
    Level.names file (⟨node, role, index, child⟩ :: above) =
      (role.form file node).namesInside stage (Level.names file above) := by
  rw [Level.names_cons, Level.name?_eq]
  cases form : role.form file node with
  | «namespace» name =>
    rw [form] at into
    have header := Form.isHeader_of_into rfl into
    cases stage <;> simp_all [Form.namesInside]
  | _ => simp [Form.namesInside]

namespace Tour

variable (file) in
/-- Steps that start inside bodies of these names: each visit finds the names around it, and the
steps end where they started. -/
def Nested (names : List String) (steps : List Step) : Prop :=
  ∀ earlier scope, scope.nesting = names →
    (∀ moment ∈ moments file earlier scope steps,
      moment.scope.nesting = moment.visit.enclosingNames file) ∧
    (scopeAfter file scope steps).nesting = names

variable {names : List String} {steps first second : List Step}

theorem nested_nil : Nested file names [] :=
  fun _ _ inside => ⟨by simp [moments], inside⟩

theorem Nested.append (before : Nested file names first) (after : Nested file names second) :
    Nested file names (first ++ second) := by
  intro earlier scope inside
  obtain ⟨found, back⟩ := before earlier scope inside
  obtain ⟨foundLater, backAgain⟩ := after (earlier ++ visits first) _ back
  rw [moments_append, scopeAfter_append]
  refine ⟨fun moment member => ?_, backAgain⟩
  rcases List.mem_append.mp member with early | late
  · exact found moment early
  · exact foundLater moment late

theorem nested_flatMap {indices : List Nat} {through : Nat → List Step}
    (each : ∀ index ∈ indices, Nested file names (through index)) :
    Nested file names (indices.flatMap through) := by
  induction indices with
  | nil => exact nested_nil
  | cons index rest ih =>
    exact (each index (List.mem_cons_self ..)).append
      (ih fun other later => each other (List.mem_cons_of_mem _ later))

theorem nesting_setCurrent (scope : Scope) (visibility : Visibility) :
    (scope.setCurrent visibility).nesting = scope.nesting := by
  unfold Scope.setCurrent
  split <;> rfl

theorem nested_meet (visit : Visit) : Nested file (visit.enclosingNames file) [.meet visit] := by
  intro earlier scope inside
  refine ⟨by simpa [moments, Step.visit?] using inside, ?_⟩
  rw [← inside]
  simp only [scopeAfter, List.foldl_cons, List.foldl_nil, Step.scope]
  split
  · exact nesting_setCurrent scope _
  · rfl

theorem Nested.body (inner : Nested file names steps) :
    Nested file names (.enter none :: (steps ++ [.leave none])) := by
  intro earlier scope inside
  obtain ⟨found, back⟩ := inner earlier scope.openBody inside
  refine ⟨?_, ?_⟩
  · simpa [moments, moments_append, Step.visit?, Step.scope] using found
  · simpa [scopeAfter, Step.scope, Scope.closeBody] using back

theorem Nested.namespace {name : String} (inner : Nested file (names ++ [name]) steps) :
    Nested file names (.enter (some name) :: (steps ++ [.leave (some name)])) := by
  intro earlier scope inside
  obtain ⟨found, back⟩ := inner earlier (scope.openNamespace name).openBody
    (by simp [Scope.openBody, Scope.openNamespace, inside])
  refine ⟨?_, ?_⟩
  · simpa [moments, moments_append, Step.visit?, Step.scope] using found
  · have dropped := congrArg List.dropLast back
    simpa [scopeAfter, Step.scope, Scope.closeBody, Scope.closeNamespace] using dropped

theorem Nested.inBody {form : Form}
    (inner : Nested file (form.namesInside .after names) steps) :
    Nested file names (form.inBody steps) := by
  cases form with
  | «namespace» name => exact Nested.namespace inner
  | unnamedNamespace => exact Nested.body inner
  | singletonClass => exact Nested.body inner
  | _ => exact inner

theorem nested_ofNode (node : Node) : ∀ above role,
    Nested file (Level.names file above) (ofNode file above role node) := by
  induction node using Node.ofChildren with
  | step node ih =>
    intro above role
    -- the names around the children are those that the form of the node adds to its own
    have children : ∀ stage, Nested file
        ((role.form file node).namesInside stage (Level.names file above))
        ((List.range node.children.length).flatMap (through file above role node stage)) := by
      intro stage
      refine nested_flatMap fun index _ => ?_
      unfold through
      split
      · exact nested_nil
      · rename_i child found
        split
        · rename_i next into
          rw [← Level.names_of_into index above into]
          exact ih child (List.mem_of_getElem? found) _ next
        · exact nested_nil
    have before : (role.form file node).namesInside .before (Level.names file above) =
        Level.names file above := by
      cases role.form file node <;> rfl
    rw [ofNode_eq]
    exact (before ▸ children .before).append ((nested_meet ⟨node, role, above⟩).append
      (children .after).inBody)

end Tour

theorem nesting_eq_enclosingNames {root : Node} {moment : Moment}
    (member : moment ∈ momentsOf file root) :
    moment.scope.nesting = moment.visit.enclosingNames file :=
  (Tour.nested_ofNode root [] .plain [] Scope.topLevel rfl).1 moment member

variable (file) in
theorem namespaceKind_cases (node : Node) :
    (∃ superclass, file.namespaceKind node = .classEntry superclass) ∨
      file.namespaceKind node = .moduleEntry := by
  unfold FileContext.namespaceKind
  split
  · exact Or.inl ⟨_, rfl⟩
  · exact Or.inr rfl

variable (file) in
theorem constantKind_cases (node : Node) (nesting : List String) :
    file.constantKind node nesting = .constant ∨
      ∃ target, file.constantKind node nesting = .unresolvedAlias target nesting := by
  unfold FileContext.constantKind
  split
  · exact Or.inl rfl
  · split
    · exact Or.inr ⟨_, rfl⟩
    · split
      · exact Or.inr ⟨_, rfl⟩
      · exact Or.inl rfl

end

/-- An alias in a rooted class in a module, over the five lines
`module A`, `  class ::B`, `    C = D`, `  end`, `end`. -/
def rootedClassTree : Node :=
  let target : Node := ⟨.constant, true, some .left, .onRow 25 26 2 4, []⟩
  let value : Node := ⟨.constant, true, some .right, .onRow 29 30 2 8, []⟩
  let write : Node := ⟨.assignment, true, none, .onRow 25 30 2 4, [target, value]⟩
  let className : Node := ⟨.scopeResolution, true, some .name, .onRow 17 20 1 8, []⟩
  let classBody : Node := ⟨.bodyStatement, true, some (.other "body"), .onRow 25 30 2 4, [write]⟩
  let definition : Node :=
    ⟨.classDefinition, true, none, ⟨11, 36, ⟨1, 2⟩, ⟨3, 5⟩⟩, [className, classBody]⟩
  let moduleName : Node := ⟨.constant, true, some .name, .onRow 7 8 0 7, []⟩
  let moduleBody : Node :=
    ⟨.bodyStatement, true, some (.other "body"), ⟨11, 36, ⟨1, 2⟩, ⟨3, 5⟩⟩, [definition]⟩
  let outer : Node :=
    ⟨.moduleDefinition, true, none, ⟨0, 40, ⟨0, 0⟩, ⟨4, 3⟩⟩, [moduleName, moduleBody]⟩
  ⟨.program, true, none, ⟨0, 41, ⟨0, 0⟩, ⟨5, 0⟩⟩, [outer]⟩

def rootedClassFile : FileContext where
  path := "a.rb"
  source := SourceText.ofString "module A\n  class ::B\n    C = D\n  end\nend\n"
  documentation := ⟨[], fun _ => false⟩

end DeclarationIndex
