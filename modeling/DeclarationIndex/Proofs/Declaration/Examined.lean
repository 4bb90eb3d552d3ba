import DeclarationIndex.Proofs.Declaration.Arguments
import DeclarationIndex.Proofs.Declaration.Bodies
import Mathlib.Data.List.Nodup

/-!
Which nodes of a tree are examined for declarations, told without a walk: the root, and of every
examined node the named children, save a few that cannot hold a declaration of their own. A walk
comes to just these nodes, and to each of them once.
-/

namespace DeclarationIndex

def Node.assignsConstant (node : Node) : Bool :=
  node.kind.isAssignment && node.constantTarget?.isSome

def Node.SuperclassesUnique (root : Node) : Prop :=
  ∀ node ∈ root.preorder, node.kind.isNamespace = true →
    node.children.countP (·.field = some .superclass) ≤ 1

instance (root : Node) : Decidable root.SuperclassesUnique :=
  inferInstanceAs (Decidable (∀ node ∈ root.preorder, _))

section
variable (file : FileContext)

def FileContext.isVisibilityCall (node : Node) : Bool :=
  node.kind = .call && (node.child? .receiver).isNone &&
    (Visibility.ofName? (file.fieldText node .method)).isSome

/-- Whether a child is left out when the named children of a node are examined: the names of
classes, modules and methods and the objects of methods; a superclass clause, which stands for its
parts; and all children of assignments to constants and of visibility calls, which have rules of
their own. An identifier is a word without parts. -/
def FileContext.leavesOut (node child : Node) : Bool :=
  match node.kind with
  | .classDefinition | .moduleDefinition =>
      child.field = some .name || child.field = some .superclass
  | .method | .singletonMethod => child.field = some .name || child.field = some .object
  | .assignment | .operatorAssignment => node.assignsConstant
  | .call => file.isVisibilityCall node
  | .identifier => true
  | _ => false

/-- The nodes that are examined, each with its place: the indices on the way to it, nearest
first. -/
inductive Examined (root : Node) : List Nat → Node → Prop
  | root : Examined root [] root
  | child {place : List Nat} {node child : Node} {index : Nat}
      (parent : Examined root place node) (found : node.children[index]? = some child)
      (named : child.named = true) (kept : file.leavesOut node child = false) :
      Examined root (index :: place) child
  | inSuperclass {place : List Nat} {node clause child : Node} {index inner : Nat}
      (parent : Examined root place node) (isNamespace : node.kind.isNamespace = true)
      (clauseFound : node.children[index]? = some clause)
      (fills : clause.field = some .superclass)
      (found : clause.children[inner]? = some child) (named : child.named = true) :
      Examined root (inner :: index :: place) child
  | value {place : List Nat} {node child : Node} {index : Nat}
      (parent : Examined root place node) (assigns : node.assignsConstant = true)
      (found : node.children[index]? = some child)
      (first : isFirstWith .right (node.children.take index) child = true)
      (holds : node.valueIsConstant = false) :
      Examined root (index :: place) child
  | argument {place : List Nat} {node list child : Node} {index inner : Nat}
      (parent : Examined root place node) (sets : file.isVisibilityCall node = true)
      (listFound : node.children[index]? = some list)
      (first : isFirstWith .arguments (node.children.take index) list = true)
      (found : list.children[inner]? = some child) (named : child.named = true)
      (unspelled : file.spelledName? child = none) :
      Examined root (inner :: index :: place) child
  | block {place : List Nat} {node child : Node} {index : Nat}
      (parent : Examined root place node) (sets : file.isVisibilityCall node = true)
      (found : node.children[index]? = some child)
      (first : isFirstWith .block (node.children.take index) child = true) :
      Examined root (index :: place) child

inductive FileContext.Continues (node : Node) (earlier : List Node) (child : Node) : Role → Prop
  | child (named : child.named = true) (kept : file.leavesOut node child = false) :
      Continues node earlier child .plain
  | superclass (isNamespace : node.kind.isNamespace = true)
      (first : isFirstWith .superclass earlier child = true) :
      Continues node earlier child .superclassClause
  | value (assigns : node.assignsConstant = true)
      (first : isFirstWith .right earlier child = true) (holds : node.valueIsConstant = false) :
      Continues node earlier child .plain
  | arguments {visibility : Visibility} (sets : file.isVisibilityCall node = true)
      (form : CallForm.ofNode file node = .setsVisibility visibility)
      (first : isFirstWith .arguments earlier child = true) :
      Continues node earlier child (.argumentList visibility)
  | block (sets : file.isVisibilityCall node = true)
      (first : isFirstWith .block earlier child = true) : Continues node earlier child .plain

/-- Whether a visit examines its node. The others are of parts that stand for their children, and
of arguments that only spell a name. -/
def Visit.examines (visit : Visit) : Bool :=
  match visit.role with
  | .plain => true
  | .argument _ => (file.spelledName? visit.node).isNone
  | .superclassClause | .argumentList _ => false

variable {file}

theorem isNamedOutside_pair (first second : Field) (child : Node) :
    isNamedOutside [first, second] child =
      (child.named && !(child.field = some first || child.field = some second)) := by
  unfold isNamedOutside
  cases child.field <;> simp [eq_comm]

theorem CallForm.setsVisibility_iff {node : Node} {visibility : Visibility} :
    CallForm.ofNode file node = .setsVisibility visibility ↔
      (node.child? .receiver).isNone = true ∧
        Visibility.ofName? (file.fieldText node .method) = some visibility := by
  unfold CallForm.ofNode
  generalize file.fieldText node .method = message
  split <;> grind [Visibility.ofName?]

theorem FileContext.isVisibilityCall_iff {node : Node} (call : node.kind = .call) :
    file.isVisibilityCall node = true ↔
      ∃ visibility, CallForm.ofNode file node = .setsVisibility visibility := by
  simp [isVisibilityCall, CallForm.setsVisibility_iff, call, Option.isSome_iff_exists]

theorem FileContext.continues_iff {node child : Node} {earlier : List Node} {role : Role} :
    file.Continues node earlier child role ↔
      (role = .plain ∧ ((child.named = true ∧ file.leavesOut node child = false) ∨
        (node.assignsConstant = true ∧ isFirstWith .right earlier child = true ∧
          node.valueIsConstant = false) ∨
        (file.isVisibilityCall node = true ∧ isFirstWith .block earlier child = true))) ∨
      (role = .superclassClause ∧ node.kind.isNamespace = true ∧
        isFirstWith .superclass earlier child = true) ∨
      ∃ visibility, role = .argumentList visibility ∧ file.isVisibilityCall node = true ∧
        CallForm.ofNode file node = .setsVisibility visibility ∧
        isFirstWith .arguments earlier child = true := by
  constructor
  · rintro (⟨named, kept⟩ | ⟨isNamespace, first⟩ | ⟨assigns, first, holds⟩ | ⟨sets, form, first⟩ |
      ⟨sets, first⟩)
    · exact .inl ⟨rfl, .inl ⟨named, kept⟩⟩
    · exact .inr (.inl ⟨rfl, isNamespace, first⟩)
    · exact .inl ⟨rfl, .inr (.inl ⟨assigns, first, holds⟩)⟩
    · exact .inr (.inr ⟨_, rfl, sets, form, first⟩)
    · exact .inl ⟨rfl, .inr (.inr ⟨sets, first⟩)⟩
  · rintro (⟨rfl, ⟨named, kept⟩ | ⟨assigns, first, holds⟩ | ⟨sets, first⟩⟩ |
      ⟨rfl, isNamespace, first⟩ | ⟨visibility, rfl, sets, form, first⟩)
    · exact .child named kept
    · exact .value assigns first holds
    · exact .block sets first
    · exact .superclass isNamespace first
    · exact .arguments sets form first

theorem Stage.exists_iff {holds : Stage → Prop} :
    (∃ stage, holds stage) ↔ holds .before ∨ holds .after := by
  constructor
  · rintro ⟨stage, held⟩
    cases stage
    · exact Or.inl held
    · exact Or.inr held
  · rintro (held | held)
    · exact ⟨_, held⟩
    · exact ⟨_, held⟩

theorem Form.exists_into_ofNode_iff {node child : Node} {earlier : List Node} {role : Role} :
    (∃ stage, (Form.ofNode file node).into node stage earlier child = some role) ↔
      file.Continues node earlier child role := by
  rw [Stage.exists_iff, FileContext.continues_iff]
  cases kind : node.kind with
  | classDefinition | moduleDefinition =>
    simp only [Form.ofNode, kind]
    split <;> simp only [Form.into, isNamedOutside_pair] <;>
      grind [FileContext.leavesOut, FileContext.isVisibilityCall, Node.assignsConstant,
        NodeKind.isNamespace, NodeKind.isAssignment]
  | assignment | operatorAssignment =>
    simp only [Form.ofNode, kind]
    cases target : node.constantTarget? <;> simp only [Form.into] <;>
      grind [FileContext.leavesOut, FileContext.isVisibilityCall, Node.assignsConstant,
        NodeKind.isNamespace, NodeKind.isAssignment]
  | call =>
    have sets := file.isVisibilityCall_iff kind
    simp only [Form.ofNode, kind]
    cases form : CallForm.ofNode file node <;> simp only [Form.into] <;>
      grind [FileContext.leavesOut, Node.assignsConstant, NodeKind.isNamespace,
        NodeKind.isAssignment]
  | method | singletonMethod =>
    simp only [Form.ofNode, kind, Form.into, isNamedOutside_pair]
    grind [FileContext.leavesOut, FileContext.isVisibilityCall, Node.assignsConstant,
      NodeKind.isNamespace, NodeKind.isAssignment]
  | _ =>
    simp only [Form.ofNode, kind, Form.into]
    grind [FileContext.leavesOut, FileContext.isVisibilityCall, Node.assignsConstant,
      NodeKind.isNamespace, NodeKind.isAssignment]

theorem FileContext.spelledName?_of_isMethod {node : Node} (isMethod : node.kind.isMethod = true) :
    file.spelledName? node = none := by
  unfold spelledName?
  cases kind : node.kind <;> simp_all [NodeKind.isMethod]

theorem Visit.form_of_examines {visit : Visit} (examines : visit.examines file = true) :
    visit.form file = Form.ofNode file visit.node ∨
      visit.node.kind.isMethod = true ∧ ∃ given, visit.form file = .method given := by
  obtain ⟨node, role, above⟩ := visit
  cases role with
  | plain => exact Or.inl rfl
  | argument visibility =>
    have unspelled : file.spelledName? node = none := by simpa [Visit.examines] using examines
    cases isMethod : node.kind.isMethod with
    | true => exact Or.inr ⟨rfl, some visibility, by simp [Visit.form, Role.form, isMethod]⟩
    | false => exact Or.inl (by simp [Visit.form, Role.form, isMethod, unspelled])
  | superclassClause => cases examines
  | argumentList visibility => cases examines

theorem Form.ofNode_of_isMethod {node : Node} (isMethod : node.kind.isMethod = true) :
    Form.ofNode file node = .method none := by
  unfold Form.ofNode
  cases kind : node.kind <;> simp_all [NodeKind.isMethod]

theorem Visit.goesTo_iff_of_examines {visit : Visit} (examines : visit.examines file = true)
    {index : Nat} {child : Node} {role : Role} :
    visit.GoesTo file index child role ↔
      visit.node.children[index]? = some child ∧
        file.Continues visit.node (visit.node.children.take index) child role := by
  unfold GoesTo
  rw [← Form.exists_into_ofNode_iff]
  rcases form_of_examines examines with form | ⟨isMethod, given, form⟩
  · rw [form]
  · have same (stage : Stage) (earlier : List Node) :
        (Form.method given).into visit.node stage earlier child =
          (Form.method none).into visit.node stage earlier child := by
      cases stage <;> rfl
    simp only [form, same, Form.ofNode_of_isMethod isMethod]

theorem Visit.form_of_not_examines {visit : Visit} {visibility : Visibility}
    (argument : visit.role = .argument visibility) (unexamined : visit.examines file = false) :
    ∃ name, visit.form file = .spelledName name visibility := by
  obtain ⟨node, _, above⟩ := visit
  subst argument
  have isSome : (file.spelledName? node).isSome = true := by
    simpa [Visit.examines, Option.isSome_iff_ne_none] using unexamined
  obtain ⟨name, spelled⟩ := Option.isSome_iff_exists.mp isSome
  have isMethod : node.kind.isMethod = false := by
    by_contra isMethod
    rw [FileContext.spelledName?_of_isMethod (by simpa using isMethod)] at spelled
    cases spelled
  exact ⟨name, by simp [Visit.form, Role.form, isMethod, spelled]⟩

theorem Visit.not_goesTo_of_spelled {visit : Visit} {visibility : Visibility} {name : String}
    (form : visit.form file = .spelledName name visibility)
    {index : Nat} {child : Node} {role : Role} : ¬ visit.GoesTo file index child role := by
  rintro ⟨_, stage, into⟩
  simp [form, Form.into] at into

variable (file) in
/-- What a visit says of examined nodes: of its own, if it examines it, else of the children that
it stands for. -/
def Visit.Accounts (root : Node) (visit : Visit) : Prop :=
  match visit.role with
  | .plain | .argument _ =>
      visit.examines file = true → Examined file root visit.path visit.node
  | .superclassClause =>
      ∀ index child, visit.node.children[index]? = some child → child.named = true →
        Examined file root (index :: visit.path) child
  | .argumentList _ =>
      ∀ index child, visit.node.children[index]? = some child → child.named = true →
        file.spelledName? child = none → Examined file root (index :: visit.path) child

theorem Visit.Accounts.examined {root : Node} {visit : Visit}
    (accounts : visit.Accounts file root) (examines : visit.examines file = true) :
    Examined file root visit.path visit.node := by
  cases taken : visit.role <;> simp_all [Visit.Accounts, Visit.examines]

theorem Visit.Accounts.child {root : Node} {visit : Visit} (accounts : visit.Accounts file root)
    {index : Nat} {child : Node} {role : Role} (goes : visit.GoesTo file index child role) :
    (visit.child index child role).Accounts file root := by
  have found := goes.1
  cases examines : visit.examines file with
  | true =>
    have parent := accounts.examined examines
    cases ((Visit.goesTo_iff_of_examines examines).mp goes).2 with
    | child named kept => exact fun _ => .child parent found named kept
    | superclass isNamespace first =>
      have fills : child.field = some .superclass := by
        simp only [isFirstWith, Bool.and_eq_true, decide_eq_true_eq] at first
        exact first.1
      exact fun inner part foundPart named =>
        .inSuperclass parent isNamespace found fills foundPart named
    | value assigns first holds => exact fun _ => .value parent assigns found first holds
    | arguments sets form first =>
      exact fun inner part foundPart named unspelled =>
        .argument parent sets found first foundPart named unspelled
    | block sets first => exact fun _ => .block parent sets found first
  | false =>
    cases taken : visit.role with
    | plain => simp [Visit.examines, taken] at examines
    | argument visibility =>
      obtain ⟨name, form⟩ := Visit.form_of_not_examines taken examines
      exact absurd goes (Visit.not_goesTo_of_spelled form)
    | superclassClause =>
      obtain ⟨_, stage, into⟩ := goes
      cases stage <;> simp [Visit.form, taken, Role.form, Form.into] at into
      obtain ⟨named, rfl⟩ := into
      simp only [Visit.Accounts, taken] at accounts
      exact fun _ => accounts index child found named
    | argumentList visibility =>
      obtain ⟨_, stage, into⟩ := goes
      cases stage <;> simp [Visit.form, taken, Role.form, Form.into] at into
      obtain ⟨named, rfl⟩ := into
      simp only [Visit.Accounts, taken] at accounts
      intro unspelled
      exact accounts index child found named (Option.isNone_iff_eq_none.mp unspelled)

theorem Visit.accounts_of_reached {root : Node} {visit : Visit}
    (reached : Reached file root visit) : visit.Accounts file root := by
  induction reached with
  | root => exact fun _ => .root
  | child _ goes ih => exact ih.child goes

theorem Node.preorder_eq (node : Node) :
    node.preorder = node :: node.children.flatMap preorder := by
  have list (nodes : List Node) : preorderList nodes = nodes.flatMap preorder := by
    induction nodes with
    | nil => rfl
    | cons first rest ih => rw [preorderList, ih, List.flatMap_cons]
  cases node
  rw [preorder, list]

theorem Node.self_mem_preorder (node : Node) : node ∈ node.preorder := by
  rw [preorder_eq]
  exact List.mem_cons_self ..

theorem Node.child_mem_preorder {node child : Node} (member : child ∈ node.children)
    (root : Node) (inside : node ∈ root.preorder) : child ∈ root.preorder := by
  induction root using Node.ofChildren with
  | step root ih =>
    rw [preorder_eq, List.mem_cons, List.mem_flatMap] at inside ⊢
    rcases inside with rfl | ⟨branch, place, below⟩
    · exact Or.inr ⟨child, member, by rw [preorder_eq]; exact List.mem_cons_self ..⟩
    · exact Or.inr ⟨branch, place, ih branch place below⟩

theorem Examined.mem_preorder {root node : Node} {place : List Nat}
    (examined : Examined file root place node) : node ∈ root.preorder := by
  have child_of {node child : Node} {index : Nat} (found : node.children[index]? = some child)
      (inside : node ∈ root.preorder) : child ∈ root.preorder :=
    Node.child_mem_preorder (List.mem_of_getElem? found) root inside
  induction examined with
  | root => rw [Node.preorder_eq]; exact List.mem_cons_self ..
  | child _ found _ _ ih => exact child_of found ih
  | inSuperclass _ _ clauseFound _ found _ ih => exact child_of found (child_of clauseFound ih)
  | value _ _ found _ _ ih => exact child_of found ih
  | argument _ _ listFound _ found _ _ ih => exact child_of found (child_of listFound ih)
  | block _ _ found _ ih => exact child_of found ih

theorem isFirstWith_of_countP {field : Field} {nodes : List Node} {index : Nat} {child : Node}
    (unique : nodes.countP (·.field = some field) ≤ 1) (found : nodes[index]? = some child)
    (fills : child.field = some field) : isFirstWith field (nodes.take index) child = true := by
  obtain ⟨inside, rfl⟩ := List.getElem?_eq_some_iff.mp found
  have whole : nodes = nodes.take index ++ nodes[index] :: nodes.drop (index + 1) := by
    rw [← List.drop_eq_getElem_cons inside, List.take_append_drop]
  have counted : (nodes.take index).countP (·.field = some field) = 0 := by
    rw [whole, List.countP_append, List.countP_cons] at unique
    simp only [fills, decide_true, if_true] at unique
    omega
  have none : ∀ earlier ∈ nodes.take index, ¬ earlier.field = some field := by
    simpa using List.countP_eq_zero.mp counted
  simpa [isFirstWith, fills] using none

theorem reached_of_examined {root node : Node} {place : List Nat}
    (unique : root.SuperclassesUnique) (examined : Examined file root place node) :
    ∃ visit, Reached file root visit ∧ visit.examines file = true ∧ visit.path = place ∧
      visit.node = node := by
  -- a child of an examined node is reached as the walk goes on from there
  have child_of {node child : Node} {place : List Nat} {index : Nat} {role : Role}
      (reached : ∃ visit, Reached file root visit ∧ visit.examines file = true ∧
        visit.path = place ∧ visit.node = node)
      (found : node.children[index]? = some child)
      (continues : file.Continues node (node.children.take index) child role) :
      ∃ visit, Reached file root visit ∧ visit.role = role ∧ visit.path = index :: place ∧
        visit.node = child := by
    obtain ⟨visit, reached, examines, rfl, rfl⟩ := reached
    have goes := (Visit.goesTo_iff_of_examines examines).mpr ⟨found, continues⟩
    exact ⟨_, reached.child goes, rfl, rfl, rfl⟩
  have examines_of {visit : Visit} (plain : visit.role = .plain) : visit.examines file = true := by
    simp [Visit.examines, plain]
  induction examined with
  | root => exact ⟨_, .root, rfl, rfl, rfl⟩
  | child _ found named kept ih =>
    obtain ⟨visit, reached, plain, path, same⟩ := child_of ih found (.child named kept)
    exact ⟨visit, reached, examines_of plain, path, same⟩
  | inSuperclass parent isNamespace clauseFound fills found named ih =>
    have first := isFirstWith_of_countP (unique _ parent.mem_preorder isNamespace) clauseFound fills
    obtain ⟨visit, reached, clause, path, rfl⟩ :=
      child_of ih clauseFound (.superclass isNamespace first)
    have goes : visit.GoesTo file _ _ .plain :=
      ⟨found, .after, by simp [Visit.form, clause, Role.form, Form.into, named]⟩
    exact ⟨_, reached.child goes, rfl, congrArg (_ :: ·) path, rfl⟩
  | value _ assigns found first holds ih =>
    obtain ⟨visit, reached, plain, path, same⟩ := child_of ih found (.value assigns first holds)
    exact ⟨visit, reached, examines_of plain, path, same⟩
  | @argument _ node _ _ _ _ _ sets listFound first found named unspelled ih =>
    have call : node.kind = .call := by
      simp only [FileContext.isVisibilityCall, Bool.and_eq_true, decide_eq_true_eq] at sets
      exact sets.1.1
    obtain ⟨visibility, form⟩ := (file.isVisibilityCall_iff call).mp sets
    obtain ⟨visit, reached, list, path, rfl⟩ := child_of ih listFound (.arguments sets form first)
    have goes : visit.GoesTo file _ _ (.argument visibility) :=
      ⟨found, .after, by simp [Visit.form, list, Role.form, Form.into, named]⟩
    have isNone : (file.spelledName? _).isNone = true := Option.isNone_iff_eq_none.mpr unspelled
    exact ⟨_, reached.child goes, isNone, congrArg (_ :: ·) path, rfl⟩
  | block _ sets found first ih =>
    obtain ⟨visit, reached, plain, path, same⟩ := child_of ih found (.block sets first)
    exact ⟨visit, reached, examines_of plain, path, same⟩

theorem examined_iff_reached {root node : Node} {place : List Nat}
    (unique : root.SuperclassesUnique) :
    Examined file root place node ↔
      ∃ visit, Reached file root visit ∧ visit.examines file = true ∧ visit.path = place ∧
        visit.node = node := by
  constructor
  · exact reached_of_examined unique
  · rintro ⟨visit, reached, examines, rfl, rfl⟩
    exact (Visit.accounts_of_reached reached).examined examines

namespace Tour

theorem path_suffix_of_mem_children {visit : Visit} {node : Node} {role : Role}
    {above : List Level} {stage : Stage} {indices : List Nat}
    (member : visit ∈ visits (indices.flatMap (through file above role node stage))) :
    ∃ index ∈ indices, ∃ child next, node.children[index]? = some child ∧
      (role.form file node).into node stage (node.children.take index) child = some next ∧
      index :: Level.path above <:+ visit.path := by
  obtain ⟨index, inside, child, next, found, into, below⟩ := exists_into_of_mem_children member
  exact ⟨index, inside, child, next, found, into, Visit.path_suffix below⟩

theorem nodup_paths_children {node : Node} {role : Role} {above : List Level} {stage : Stage}
    (ih : ∀ child ∈ node.children, ∀ above role,
      ((visits (ofNode file above role child)).map Visit.path).Nodup) :
    ((visits ((List.range node.children.length).flatMap
      (through file above role node stage))).map Visit.path).Nodup := by
  have parts : (visits ((List.range node.children.length).flatMap
      (through file above role node stage))).map Visit.path =
      (List.range node.children.length).flatMap fun index =>
        (visits (through file above role node stage index)).map Visit.path := by
    rw [visits, List.flatMap_assoc, List.map_flatMap]
    rfl
  rw [parts, List.nodup_flatMap]
  constructor
  · intro index _
    unfold through
    split
    · exact List.nodup_nil
    · rename_i child found
      split
      · exact ih child (List.mem_of_getElem? found) _ _
      · exact List.nodup_nil
  · refine List.nodup_range.imp fun {first second} different => ?_
    intro path inFirst inSecond
    obtain ⟨visit, member, rfl⟩ := List.mem_map.mp inFirst
    obtain ⟨other, otherMember, same⟩ := List.mem_map.mp inSecond
    obtain ⟨_, _, _, _, below⟩ := exists_into_of_mem_through member
    obtain ⟨_, _, _, _, otherBelow⟩ := exists_into_of_mem_through otherMember
    exact not_suffix_of_ne different (Visit.path_suffix below) (same ▸ Visit.path_suffix otherBelow)

theorem nodup_paths_ofNode (node : Node) : ∀ above role,
    ((visits (ofNode file above role node)).map Visit.path).Nodup := by
  induction node using Node.ofChildren with
  | step node ih =>
    intro above role
    rw [ofNode_eq, visits_append, visits_meet, visits_inBody, List.map_append, List.map_cons,
      List.nodup_append, List.nodup_cons]
    have longer {stage : Stage} {visit : Visit}
        (member : visit ∈ visits ((List.range node.children.length).flatMap
          (through file above role node stage))) : visit.path ≠ Level.path above := by
      obtain ⟨index, _, _, _, _, _, below⟩ := path_suffix_of_mem_children member
      intro same
      have shorter := (same ▸ below).length_le
      rw [List.length_cons] at shorter
      omega
    refine ⟨nodup_paths_children ih, ⟨?_, nodup_paths_children ih⟩, ?_⟩
    · intro again
      obtain ⟨visit, member, same⟩ := List.mem_map.mp again
      exact longer member same
    · intro path before other after same
      obtain ⟨visit, member, rfl⟩ := List.mem_map.mp before
      rcases List.mem_cons.mp after with rfl | after
      · exact longer member same
      · obtain ⟨visit', later, rfl⟩ := List.mem_map.mp after
        obtain ⟨index, _, _, _, found, into, below⟩ := path_suffix_of_mem_children member
        obtain ⟨index', _, _, _, found', into', below'⟩ := path_suffix_of_mem_children later
        -- no child is walked on both sides of the node, and different children share no place
        by_cases equal : index = index'
        · subst equal
          obtain rfl := Option.some.inj (found.symm.trans found')
          rw [Form.into_after_of_before into] at into'
          cases into'
        · exact not_suffix_of_ne equal below (same ▸ below')

end Tour

theorem nodup_paths_visitsOf (root : Node) : ((visitsOf file root).map Visit.path).Nodup :=
  Tour.nodup_paths_ofNode root [] .plain

theorem eq_of_visit_eq {root : Node} {first second : Moment}
    (firstMet : first ∈ momentsOf file root) (secondMet : second ∈ momentsOf file root)
    (same : first.visit = second.visit) : first = second := by
  have distinct : ((momentsOf file root).map Moment.visit).Nodup := by
    rw [momentsOf, Tour.map_visit_moments]
    exact (nodup_paths_visitsOf root).of_map
  exact List.inj_on_of_nodup_map distinct firstMet secondMet same

end

end DeclarationIndex
