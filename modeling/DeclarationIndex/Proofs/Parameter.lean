import DeclarationIndex.Arity
import DeclarationIndex.Parameter.OfTree
import Mathlib.Data.List.Forall2

/-!
What the parameters of a list tell of its children. Each child of a kind that a parameter can have
stands for one parameter, and the others stand for none. Whether a positional child is required or
post-required is settled by the children before it: by whether there is an optional one or a splat
among them. The arity counts the children by their kinds.
-/

namespace DeclarationIndex

def NodeKind.parameterKinds : List NodeKind :=
  [.identifier, .destructuredParameter, .optionalParameter, .splatParameter, .keywordParameter,
    .hashSplatParameter, .blockParameter, .forwardParameter]

def NodeKind.IsPositional (kind : NodeKind) : Prop :=
  kind = .identifier ∨ kind = .destructuredParameter

def NodeKind.OpensGroup (kind : NodeKind) : Prop :=
  kind = .optionalParameter ∨ kind = .splatParameter

instance : DecidablePred NodeKind.IsPositional :=
  fun kind => inferInstanceAs (Decidable (kind = .identifier ∨ kind = .destructuredParameter))

instance : DecidablePred NodeKind.OpensGroup :=
  fun kind => inferInstanceAs (Decidable (kind = .optionalParameter ∨ kind = .splatParameter))

def ParameterKind.OpensGroup (kind : ParameterKind) : Prop :=
  kind = .optional ∨ kind = .rest

namespace Parameter

/-- The kinds of node with a field for the name, the kind of parameter that each stands for, and
the sign that stands in the place of a missing name. -/
def namedKinds : List (NodeKind × ParameterKind × String) :=
  [(.optionalParameter, .optional, "?"), (.splatParameter, .rest, "*"),
    (.keywordParameter, .keyword, "?"), (.hashSplatParameter, .keywordRest, "**"),
    (.blockParameter, .block, "&")]

section
variable (source : SourceText)

def HasName (node : Node) (sign name : String) : Prop :=
  (∃ child, node.child? .name = some child ∧ child.text source = name ∧ name ≠ "") ∨
    (∀ child, node.child? .name = some child → child.text source = "") ∧ name = sign

/-- That a child with some children before it stands for a parameter. -/
inductive StandsFor (earlier : List Node) (node : Node) : Parameter → Prop where
  | required (positional : node.kind.IsPositional)
      (none : ∀ other ∈ earlier, ¬ other.kind.OpensGroup) :
      StandsFor earlier node ⟨node.text source, .required⟩
  | postRequired (positional : node.kind.IsPositional)
      (some : ∃ other ∈ earlier, other.kind.OpensGroup) :
      StandsFor earlier node ⟨node.text source, .postRequired⟩
  | named {kind : ParameterKind} {sign name : String}
      (listed : (node.kind, kind, sign) ∈ namedKinds) (named : HasName source node sign name) :
      StandsFor earlier node ⟨name, kind⟩
  | forward (isForward : node.kind = .forwardParameter) :
      StandsFor earlier node ⟨"...", .forward⟩

end

def AreToldApart (parameters : List Parameter) : Prop :=
  ∀ before parameter after, parameters = before ++ parameter :: after →
    (parameter.kind = .required → ∀ earlier ∈ before, ¬ earlier.kind.OpensGroup) ∧
    (parameter.kind = .postRequired → ∃ earlier ∈ before, earlier.kind.OpensGroup)

variable {source : SourceText}

theorem opensOptionalGroup_iff {kind : NodeKind} :
    opensOptionalGroup kind = true ↔ kind.OpensGroup := by
  simp [opensOptionalGroup, NodeKind.OpensGroup]

theorem hasName_nameOr (sign : String) (node : Node) :
    HasName source node sign (nameOr source sign node) := by
  unfold nameOr
  cases found : node.child? .name with
  | none =>
    refine Or.inr ⟨?_, rfl⟩
    intro child filled
    rw [found] at filled
    cases filled
  | some child =>
    by_cases hollow : (child.text source).isEmpty = true
    · refine Or.inr ⟨?_, if_pos hollow⟩
      intro other filled
      rw [found] at filled
      obtain rfl := Option.some.inj filled
      exact String.isEmpty_iff.mp hollow
    · refine Or.inl ⟨child, found, (if_neg hollow).symm, ?_⟩
      simp only [if_neg hollow]
      exact fun none => hollow (String.isEmpty_iff.mpr none)

theorem standsFor_positional (earlier : List Node) {node : Node}
    (positional : node.kind.IsPositional) :
    StandsFor source earlier node ⟨node.text source,
      if earlier.any fun other => opensOptionalGroup other.kind then .postRequired
      else .required⟩ := by
  by_cases opened : ∃ other ∈ earlier, other.kind.OpensGroup
  · rw [if_pos (by simpa only [List.any_eq_true, opensOptionalGroup_iff] using opened)]
    exact .postRequired positional opened
  · rw [if_neg (by simpa only [List.any_eq_true, opensOptionalGroup_iff] using opened)]
    apply StandsFor.required positional
    intro other member opens
    exact opened ⟨other, member, opens⟩

theorem standsFor_of_ofNode? {earlier : List Node} {node : Node} {parameter : Parameter}
    (read : ofNode? source (earlier.any fun other => opensOptionalGroup other.kind) node =
      some parameter) : StandsFor source earlier node parameter := by
  have named {kind : ParameterKind} {sign : String}
      (listed : (node.kind, kind, sign) ∈ namedKinds) :
      StandsFor source earlier node ⟨nameOr source sign node, kind⟩ :=
    .named listed (hasName_nameOr sign node)
  unfold ofNode? at read
  split at read <;> cases read <;> rename_i kind
  · exact standsFor_positional earlier (Or.inl kind)
  · exact standsFor_positional earlier (Or.inr kind)
  · exact named (by simp [namedKinds, kind])
  · exact named (by simp [namedKinds, kind])
  · exact named (by simp [namedKinds, kind])
  · exact named (by simp [namedKinds, kind])
  · exact named (by simp [namedKinds, kind])
  · exact .forward kind

theorem ofNode?_eq_none_iff {node : Node} {afterOptional : Bool} :
    ofNode? source afterOptional node = none ↔ node.kind ∉ NodeKind.parameterKinds := by
  unfold ofNode?
  split <;> simp_all [NodeKind.parameterKinds]

theorem standFor_ofNodes (earlier nodes : List Node) :
    List.Forall₂
      (fun place parameter =>
        StandsFor source ((earlier ++ nodes).take place.2) place.1 parameter)
      ((nodes.zipIdx earlier.length).filter (·.1.kind ∈ NodeKind.parameterKinds))
      (ofNodes source (earlier.any fun other => opensOptionalGroup other.kind) nodes) := by
  induction nodes generalizing earlier with
  | nil => exact .nil
  | cons node rest ih =>
    have later := ih (earlier ++ [node])
    simp only [List.append_assoc, List.singleton_append, List.length_append, List.length_singleton,
      List.any_append, List.any_cons, List.any_nil, Bool.or_false] at later
    rw [List.zipIdx_cons, ofNodes]
    cases read : ofNode? source (earlier.any fun other => opensOptionalGroup other.kind) node with
    | none =>
      have unknown := ofNode?_eq_none_iff.mp read
      rw [List.filter_cons_of_neg (by simpa using unknown)]
      exact later
    | some parameter =>
      have known : node.kind ∈ NodeKind.parameterKinds := by
        by_contra unknown
        rw [ofNode?_eq_none_iff.mpr unknown] at read
        cases read
      rw [List.filter_cons_of_pos (by simpa using known), Option.toList_some,
        List.singleton_append]
      refine .cons ?_ later
      simpa only [List.take_left'] using standsFor_of_ofNode? read

theorem opensGroup_of_ofNode? {node : Node} {afterOptional : Bool} {parameter : Parameter}
    (read : ofNode? source afterOptional node = some parameter) :
    (opensOptionalGroup node.kind = true ↔ parameter.kind.OpensGroup) ∧
      (parameter.kind = .required → afterOptional = false) ∧
      (parameter.kind = .postRequired → afterOptional = true) := by
  unfold ofNode? at read
  cases afterOptional <;> split at read <;> cases read <;>
    simp_all [ParameterKind.OpensGroup, opensOptionalGroup]

theorem toldApart_ofNodes {nodes : List Node} {afterOptional : Bool}
    {before after : List Parameter} {parameter : Parameter}
    (split : ofNodes source afterOptional nodes = before ++ parameter :: after) :
    (parameter.kind = .required →
      afterOptional = false ∧ ∀ earlier ∈ before, ¬ earlier.kind.OpensGroup) ∧
    (parameter.kind = .postRequired →
      afterOptional = true ∨ ∃ earlier ∈ before, earlier.kind.OpensGroup) := by
  induction nodes generalizing afterOptional before with
  | nil => simp [ofNodes] at split
  | cons node rest ih =>
    rw [ofNodes] at split
    cases read : ofNode? source afterOptional node with
    | none =>
      have closed : opensOptionalGroup node.kind = false := by
        have unknown := ofNode?_eq_none_iff.mp read
        simp_all [NodeKind.parameterKinds, opensOptionalGroup]
      rw [read, Option.toList_none, List.nil_append, closed, Bool.or_false] at split
      exact ih split
    | some first =>
      obtain ⟨opens, required, postRequired⟩ := opensGroup_of_ofNode? read
      rw [read, Option.toList_some, List.singleton_append] at split
      cases before with
      | nil =>
        obtain ⟨rfl, _⟩ := List.cons.inj split
        exact ⟨fun kind => ⟨required kind, by simp⟩, fun kind => Or.inl (postRequired kind)⟩
      | cons other before =>
        obtain ⟨rfl, splitRest⟩ := List.cons.inj split
        obtain ⟨requiredLater, postRequiredLater⟩ := ih splitRest
        simp only [Bool.or_eq_false_iff, Bool.or_eq_true, opens] at requiredLater postRequiredLater
        constructor
        · intro kind
          obtain ⟨⟨notYet, closed⟩, none⟩ := requiredLater kind
          refine ⟨notYet, List.forall_mem_cons.mpr ⟨?_, none⟩⟩
          rw [← opens, closed]
          exact Bool.false_ne_true
        · intro kind
          rcases postRequiredLater kind with (already | opensHere) | ⟨earlier, member, opensThere⟩
          · exact Or.inl already
          · exact Or.inr ⟨first, List.mem_cons_self .., opensHere⟩
          · exact Or.inr ⟨earlier, List.mem_cons_of_mem _ member, opensThere⟩

theorem foldl_ofNode? (arity : Arity) (afterOptional : Bool) (node : Node) :
    (ofNode? source afterOptional node).toList.foldl
        (fun arity parameter => arity.add parameter.kind) arity =
      ⟨arity.required + (if node.kind.IsPositional then 1 else 0),
        arity.optional + (if node.kind = .optionalParameter then 1 else 0),
        arity.hasRest || decide (node.kind = .splatParameter ∨ node.kind = .forwardParameter)⟩ := by
  unfold ofNode?
  cases afterOptional <;> split <;> simp_all [Arity.add, NodeKind.IsPositional]

theorem foldl_ofNodes (arity : Arity) (afterOptional : Bool) (nodes : List Node) :
    (ofNodes source afterOptional nodes).foldl
        (fun arity parameter => arity.add parameter.kind) arity =
      ⟨arity.required + nodes.countP (·.kind.IsPositional),
        arity.optional + nodes.countP (·.kind = .optionalParameter),
        arity.hasRest ||
          nodes.any fun node => node.kind = .splatParameter ∨ node.kind = .forwardParameter⟩ := by
  induction nodes generalizing arity afterOptional with
  | nil => simp [ofNodes]
  | cons node rest ih =>
    rw [ofNodes, List.foldl_append, foldl_ofNode?, ih]
    simp only [List.countP_cons, List.any_cons, decide_eq_true_eq, Bool.or_assoc]
    congr 1 <;> omega

/-- Each child of a kind that a parameter can have stands for the parameter at its place in the
list, and the other children for none. So positional parameters are told apart by what stands
before them in the list, and the arity counts the children. -/
theorem parameters_stand_for_children (source : SourceText) (list : Node) :
    let children := list.namedChildren
    let parameters := ofList source list
    let arity := Arity.ofParameters parameters
    List.Forall₂
      (fun place parameter => StandsFor source (children.take place.2) place.1 parameter)
      (children.zipIdx.filter (·.1.kind ∈ NodeKind.parameterKinds)) parameters ∧
    AreToldApart parameters ∧
    arity.required = children.countP (·.kind.IsPositional) ∧
    arity.optional = children.countP (·.kind = .optionalParameter) ∧
    (arity.hasRest = true ↔ ∃ child ∈ children,
      child.kind = .splatParameter ∨ child.kind = .forwardParameter) := by
  intro children parameters arity
  have counted : arity = ⟨_, _, _⟩ := @foldl_ofNodes source .empty false children
  simp only [Arity.empty, Nat.zero_add, Bool.false_or] at counted
  refine ⟨standFor_ofNodes [] children, ?_, ?_, ?_, ?_⟩
  · intro before parameter after split
    obtain ⟨required, postRequired⟩ := toldApart_ofNodes split
    exact ⟨fun kind => (required kind).2, fun kind => (postRequired kind).resolve_left (by simp)⟩
  · rw [counted]
  · rw [counted]
  · rw [counted]
    simp

end Parameter

end DeclarationIndex
