import DeclarationIndex.Declaration.Walk

/-!
The tour of a tree: where a walk goes, in which order, and which bodies it enters and leaves on
the way. A tour knows nothing of the scope; running a tour from a scope gives back what the walk
does. So what holds of every run of steps holds of every walk.
-/

namespace DeclarationIndex

theorem Node.ofChildren {Holds : Node → Prop}
    (step : ∀ node, (∀ child ∈ node.children, Holds child) → Holds node) (node : Node) :
    Holds node :=
  step node fun child member =>
    have : sizeOf child < sizeOf node := by
      have below := List.sizeOf_lt_of_mem member
      cases node
      simp only [Node.mk.sizeOf_spec]
      simp only at below
      omega
    Node.ofChildren step child
termination_by sizeOf node

/-- What a walk takes a node for, by the way it came: any node; an argument of a visibility call;
or a part of the node above it, of which only the named children count. -/
inductive Role where
  | plain
  | argument (visibility : Visibility)
  | superclassClause
  | argumentList (visibility : Visibility)
  deriving DecidableEq

inductive Form where
  | namespace (name : String)
  | unnamedNamespace
  | singletonClass
  | constant (target : Node)
  | method (given : Option Visibility)
  | hidesConstants
  | definesAttributes (reader writer : Bool)
  | setsVisibility (visibility : Visibility)
  | spelledName (name : String) (visibility : Visibility)
  | identifier
  | passage (given : Option Visibility)

/-- Whether a node stands before what a walk does at the node above it, or after. -/
inductive Stage where
  | before
  | after
  deriving DecidableEq

def NodeKind.isNamespace : NodeKind → Bool
  | .classDefinition | .moduleDefinition => true
  | _ => false

section
variable (file : FileContext)

def Form.ofNode (node : Node) : Form :=
  match node.kind with
  | .classDefinition | .moduleDefinition =>
      let name := file.fieldText node .name
      if Naming.isConstantPath name then .namespace name else .unnamedNamespace
  | .singletonClass => .singletonClass
  | .assignment | .operatorAssignment =>
      match node.constantTarget? with
      | some target => .constant target
      | none => .passage none
  | .method | .singletonMethod => .method none
  | .call =>
      match CallForm.ofNode file node with
      | .hidesConstants => .hidesConstants
      | .definesAttributes reader writer => .definesAttributes reader writer
      | .setsVisibility visibility => .setsVisibility visibility
      | .plain => .passage none
  | .identifier => .identifier
  | _ => .passage none

def Role.form (node : Node) : Role → Form
  | .plain => Form.ofNode file node
  | .argument visibility =>
      if node.kind.isMethod then .method (some visibility)
      else
        match file.spelledName? node with
        | some name => .spelledName name visibility
        | none => Form.ofNode file node
  | .superclassClause => .passage none
  | .argumentList visibility => .passage (some visibility)

def Role.isNode : Role → Bool
  | .plain | .argument _ => true
  | .superclassClause | .argumentList _ => false

def Role.given : Role → Option Visibility
  | .argument visibility => some visibility
  | _ => none

def Form.Fits (role : Role) (node : Node) : Form → Prop
  | .namespace name =>
      role.isNode ∧ node.kind.isNamespace ∧ name = file.fieldText node .name ∧
        Naming.isConstantPath name
  | .unnamedNamespace =>
      role.isNode ∧ node.kind.isNamespace ∧
        Naming.isConstantPath (file.fieldText node .name) = false
  | .singletonClass => role.isNode ∧ node.kind = .singletonClass
  | .constant target => node.kind.isAssignment ∧ node.constantTarget? = some target
  | .method given => node.kind.isMethod ∧ given = role.given
  | .hidesConstants => node.kind = .call ∧ CallForm.ofNode file node = .hidesConstants
  | .definesAttributes reader writer =>
      node.kind = .call ∧ CallForm.ofNode file node = .definesAttributes reader writer
  | .setsVisibility visibility =>
      role.isNode ∧ node.kind = .call ∧ CallForm.ofNode file node = .setsVisibility visibility
  | .spelledName name visibility =>
      role = .argument visibility ∧ file.spelledName? node = some name
  | .identifier => node.kind = .identifier
  | .passage _ => role.isNode → node.kind.opensBody = false

theorem Form.fits_ofNode {role : Role} (node : Node) (isNode : role.isNode = true)
    (given : node.kind.isMethod = true → role.given = none) :
    (Form.ofNode file node).Fits file role node := by
  unfold Form.ofNode
  split
  case h_1 kind | h_2 kind =>
    by_cases path : Naming.isConstantPath (file.fieldText node .name) = true
    · simp only [if_pos path]
      exact ⟨isNode, by rw [kind]; rfl, rfl, path⟩
    · simp only [if_neg path]
      exact ⟨isNode, by rw [kind]; rfl, by simpa using path⟩
  case h_3 kind => exact ⟨isNode, kind⟩
  case h_4 kind | h_5 kind =>
    cases target : node.constantTarget? with
    | none => exact fun _ => by rw [kind]; rfl
    | some target => exact ⟨by rw [kind]; rfl, by assumption⟩
  case h_6 kind | h_7 kind =>
    have isMethod : node.kind.isMethod = true := by rw [kind]; rfl
    exact ⟨isMethod, (given isMethod).symm⟩
  case h_8 kind =>
    cases form : CallForm.ofNode file node with
    | plain => exact fun _ => by rw [kind]; rfl
    | setsVisibility visibility => exact ⟨isNode, kind, form⟩
    | _ => exact ⟨kind, form⟩
  case h_9 kind => exact kind
  case h_10 =>
    intro _
    cases kind : node.kind <;> simp_all [NodeKind.opensBody]

theorem Role.fits_form (role : Role) (node : Node) : (role.form file node).Fits file role node := by
  cases role with
  | plain => exact Form.fits_ofNode file node rfl fun _ => rfl
  | argument visibility =>
    unfold Role.form
    cases isMethod : node.kind.isMethod
    · cases spelled : file.spelledName? node
      · exact Form.fits_ofNode file node rfl fun method => by simp [isMethod] at method
      · exact ⟨rfl, spelled⟩
    · exact ⟨isMethod, rfl⟩
  | superclassClause => simp [Role.form, Form.Fits, Role.isNode]
  | argumentList visibility => simp [Role.form, Form.Fits, Role.isNode]

def isFirstWith (field : Field) (earlier : List Node) (child : Node) : Bool :=
  child.field = some field && !earlier.any (·.field = some field)

def isNamedOutside (fields : List Field) (child : Node) : Bool :=
  child.named && !child.field.any fields.contains

def Form.into (form : Form) (node : Node) (stage : Stage) (earlier : List Node) (child : Node) :
    Option Role :=
  let when (condition : Bool) (role : Role) := if condition then some role else none
  match form, stage with
  | .namespace _, .before | .unnamedNamespace, .before =>
      when (isFirstWith .superclass earlier child) .superclassClause
  | .namespace _, .after | .unnamedNamespace, .after =>
      when (isNamedOutside [.name, .superclass] child) .plain
  | .singletonClass, .after => when child.named .plain
  | .constant _, .before =>
      when (!node.valueIsConstant && isFirstWith .right earlier child) .plain
  | .method _, .after => when (isNamedOutside [.name, .object] child) .plain
  | .hidesConstants, .after | .definesAttributes _ _, .after => when child.named .plain
  | .setsVisibility visibility, .before =>
      when (isFirstWith .arguments earlier child) (.argumentList visibility)
  | .setsVisibility _, .after => when (isFirstWith .block earlier child) .plain
  | .passage none, .after => when child.named .plain
  | .passage (some visibility), .after => when child.named (.argument visibility)
  | _, _ => none

/-- A node on the way down to another: what it is taken for, and the child the way goes on to. -/
structure Level where
  node : Node
  role : Role
  index : Nat
  child : Node

def Level.kinds (above : List Level) : List NodeKind :=
  above.map (·.node.kind)

/-- A node that a walk comes to, and the way there, nearest level first. -/
structure Visit where
  node : Node
  role : Role
  above : List Level

namespace Visit

def form (visit : Visit) : Form :=
  visit.role.form file visit.node

theorem fits_form (visit : Visit) : (visit.form file).Fits file visit.role visit.node :=
  visit.role.fits_form file visit.node

def kindsAbove (visit : Visit) : List NodeKind :=
  Level.kinds visit.above

/-- The visibility whose section starts here: at a visibility word that stands as a statement of
a body, or at a visibility call that stands so and has no arguments. -/
def section? (visit : Visit) : Option Visibility :=
  if standsInBody visit.kindsAbove then
    match visit.form file with
    | .identifier => Visibility.ofName? (file.text visit.node)
    | .setsVisibility visibility =>
        if visit.node.argumentNodes.isEmpty then some visibility else none
    | _ => none
  else none

def changes (visit : Visit) (scope : Scope) : List Change :=
  match visit.form file with
  | .namespace _ => (file.declareNamespace visit.node scope).1
  | .constant target => (file.declareConstant visit.node target scope).1
  | .method given => (file.declareMethod visit.node given scope).1
  | .hidesConstants => (file.hideConstants visit.node scope).1
  | .definesAttributes reader writer =>
      (file.declareAttributes visit.node reader writer scope).1
  | .spelledName name visibility => [.setMethodVisibility name scope.owner visibility]
  | _ => []

end Visit

inductive Step where
  | meet (visit : Visit)
  | enter (name : Option String)
  | leave (name : Option String)

namespace Step

def visit? : Step → Option Visit
  | meet visit => some visit
  | _ => none

def changes (scope : Scope) : Step → List Change
  | meet visit => visit.changes file scope
  | _ => []

def scope (scope : Scope) : Step → Scope
  | meet visit =>
      match visit.section? file with
      | some visibility => scope.setCurrent visibility
      | none => scope
  | enter (some name) => (scope.openNamespace name).openBody
  | enter none => scope.openBody
  | leave (some _) => scope.closeBody.closeNamespace
  | leave none => scope.closeBody

end Step

def Form.inBody (form : Form) (steps : List Step) : List Step :=
  match form with
  | .namespace name => .enter (some name) :: (steps ++ [.leave (some name)])
  | .unnamedNamespace | .singletonClass => .enter none :: (steps ++ [.leave none])
  | _ => steps

namespace Tour

mutual

def ofNode (above : List Level) (role : Role) : Node → List Step
  | ⟨kind, named, field, span, children⟩ =>
      let node : Node := ⟨kind, named, field, span, children⟩
      ofChildren above role node .before [] children ++
        (.meet ⟨node, role, above⟩ ::
          (role.form file node).inBody (ofChildren above role node .after [] children))

def ofChildren (above : List Level) (role : Role) (node : Node) (stage : Stage)
    (earlier : List Node) : List Node → List Step
  | [] => []
  | child :: rest =>
      (match (role.form file node).into node stage earlier child with
        | some next => ofNode (⟨node, role, earlier.length, child⟩ :: above) next child
        | none => []) ++
        ofChildren above role node stage (earlier ++ [child]) rest

end

def through (above : List Level) (role : Role) (node : Node) (stage : Stage) (index : Nat) :
    List Step :=
  match node.children[index]? with
  | none => []
  | some child =>
      match (role.form file node).into node stage (node.children.take index) child with
      | some next => ofNode file (⟨node, role, index, child⟩ :: above) next child
      | none => []

theorem ofChildren_eq_flatMap (above : List Level) (role : Role) (node : Node) (stage : Stage)
    (earlier rest : List Node) (whole : earlier ++ rest = node.children) :
    ofChildren file above role node stage earlier rest =
      (List.range' earlier.length rest.length).flatMap (through file above role node stage) := by
  induction rest generalizing earlier with
  | nil => rfl
  | cons child rest ih =>
    have found : node.children[earlier.length]? = some child := by simp [← whole]
    have taken : node.children.take earlier.length = earlier := by simp [← whole]
    have here : through file above role node stage earlier.length =
        match (role.form file node).into node stage earlier child with
        | some next => ofNode file (⟨node, role, earlier.length, child⟩ :: above) next child
        | none => [] := by
      simp only [through, found, taken]
    rw [ofChildren, ih (earlier ++ [child]) (by simp [whole]), List.length_cons, List.range'_succ,
      List.flatMap_cons, here, List.length_append]
    rfl

theorem ofNode_eq (above : List Level) (role : Role) (node : Node) :
    ofNode file above role node =
      (List.range node.children.length).flatMap (through file above role node .before) ++
        (.meet ⟨node, role, above⟩ :: (role.form file node).inBody
          ((List.range node.children.length).flatMap
            (through file above role node .after))) := by
  have children (stage : Stage) :=
    ofChildren_eq_flatMap file above role node stage [] node.children rfl
  simp only [List.length_nil, ← List.range_eq_range'] at children
  rw [← children, ← children]
  cases node
  rw [ofNode]

def changes (scope : Scope) : List Step → List Change
  | [] => []
  | step :: rest => step.changes file scope ++ changes (step.scope file scope) rest

def scopeAfter (scope : Scope) (steps : List Step) : Scope :=
  steps.foldl (Step.scope file) scope

def run (steps : List Step) : Walk :=
  fun scope => (changes file scope steps, scopeAfter file scope steps)

end Tour

end

end DeclarationIndex
