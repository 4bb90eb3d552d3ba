import DeclarationIndex.Proofs.Declaration.Nesting

/-!
The body that a node belongs to: that of the innermost class, module or singleton class which the
way goes into, or the file itself. A tour comes to every place once, so the visits in a body and
those outside it keep apart.
-/

namespace DeclarationIndex

def Form.opensBody : Form → Bool
  | .namespace _ | .unnamedNamespace | .singletonClass => true
  | _ => false

theorem Form.inBody_of_opensBody {form : Form} (opens : form.opensBody = true) :
    ∃ name, ∀ steps, form.inBody steps = .enter name :: (steps ++ [.leave name]) := by
  cases form with
  | «namespace» name => exact ⟨some name, fun _ => rfl⟩
  | unnamedNamespace => exact ⟨none, fun _ => rfl⟩
  | singletonClass => exact ⟨none, fun _ => rfl⟩
  | _ => cases opens

theorem Form.inBody_of_not_opensBody {form : Form} (opens : form.opensBody = false)
    (steps : List Step) : form.inBody steps = steps := by
  cases form <;> first | rfl | cases opens

/-- Whether a way goes into a body here. A singleton class has neither a name nor a superclass, so
all below it stands in its body; a node that is walked as a part of another opens none. -/
def Level.opensBody (level : Level) : Bool :=
  level.role.isNode && (level.node.kind = .singletonClass ||
    level.node.kind.isNamespace && !level.child.isHeader)

/-- The place of a node: the indices of the children on the way to it, nearest first. -/
def Level.path (above : List Level) : List Nat :=
  above.map (·.index)

/-- The body that a way ends in: the place of the node that opens it, or none for the file. -/
def Level.body : List Level → Option (List Nat)
  | [] => none
  | level :: outer => if level.opensBody then some (Level.path outer) else Level.body outer

def Visit.path (visit : Visit) : List Nat :=
  Level.path visit.above

def Visit.body (visit : Visit) : Option (List Nat) :=
  Level.body visit.above

section
variable {file : FileContext}

theorem NodeKind.opensBody_of_isNamespace {kind : NodeKind}
    (isNamespace : kind.isNamespace = true) : kind.opensBody = true := by
  cases kind <;> first | rfl | cases isNamespace

theorem NodeKind.opensBody_of_isAssignment {kind : NodeKind} (assigns : kind.isAssignment = true) :
    kind.opensBody = false := by
  cases kind <;> first | rfl | cases assigns

theorem NodeKind.opensBody_of_isMethod {kind : NodeKind} (isMethod : kind.isMethod = true) :
    kind.opensBody = false := by
  cases kind <;> first | rfl | cases isMethod

theorem Form.Fits.opensBody_eq {form : Form} {role : Role} {node : Node}
    (fits : form.Fits file role node) (isNode : role.isNode = true) :
    form.opensBody = node.kind.opensBody := by
  cases form with
  | «namespace» name => exact (NodeKind.opensBody_of_isNamespace fits.2.1).symm
  | unnamedNamespace => exact (NodeKind.opensBody_of_isNamespace fits.2.1).symm
  | singletonClass => rw [fits.2]; rfl
  | constant target => exact (NodeKind.opensBody_of_isAssignment fits.1).symm
  | method given => exact (NodeKind.opensBody_of_isMethod fits.1).symm
  | hidesConstants => rw [fits.1]; rfl
  | definesAttributes reader writer => rw [fits.1]; rfl
  | setsVisibility visibility => rw [fits.2.1]; rfl
  | spelledName name visibility =>
    have spelled := fits.2
    unfold FileContext.spelledName? at spelled
    cases kind : node.kind <;> simp_all [NodeKind.opensBody, Form.opensBody]
  | identifier => rw [show node.kind = .identifier from fits]; rfl
  | passage given => exact (fits isNode).symm

theorem Level.opensBody_eq (file : FileContext) (level : Level) :
    level.opensBody =
      ((level.role.form file level.node).opensBody &&
        !((level.role.form file level.node).isNamespace && level.child.isHeader)) := by
  have fits := level.role.fits_form file level.node
  cases isNode : level.role.isNode with
  | false =>
    cases role : level.role <;>
      simp_all [Role.isNode, Level.opensBody, Role.form, Form.opensBody]
  | true =>
    have opens := fits.opensBody_eq isNode
    cases form : level.role.form file level.node <;>
      simp_all [Form.Fits, Level.opensBody, Form.opensBody, Form.isNamespace] <;>
      cases kind : level.node.kind <;> simp_all [NodeKind.isNamespace, NodeKind.opensBody]

theorem Level.opensBody_of_into {node child : Node} {role next : Role} {stage : Stage}
    {earlier : List Node} (index : Nat)
    (into : (role.form file node).into node stage earlier child = some next) :
    Level.opensBody ⟨node, role, index, child⟩ =
      ((role.form file node).opensBody && stage == .after) := by
  rw [Level.opensBody_eq file]
  cases form : role.form file node with
  | «namespace» name =>
    rw [form] at into
    have header := Form.isHeader_of_into rfl into
    cases stage <;> simp_all [Form.opensBody, Form.isNamespace]
  | unnamedNamespace =>
    rw [form] at into
    have header := Form.isHeader_of_into rfl into
    cases stage <;> simp_all [Form.opensBody, Form.isNamespace]
  | singletonClass =>
    cases stage with
    | before => simp [form, Form.into] at into
    | after => rfl
  | _ => rfl

def Form.bodyInside (form : Form) (stage : Stage) (above : List Level) : Option (List Nat) :=
  if form.opensBody && stage == .after then some (Level.path above) else Level.body above

theorem Level.body_of_into {node child : Node} {role next : Role} {stage : Stage}
    {earlier : List Node} (index : Nat) (above : List Level)
    (into : (role.form file node).into node stage earlier child = some next) :
    Level.body (⟨node, role, index, child⟩ :: above) =
      (role.form file node).bodyInside stage above := by
  rw [Level.body, Level.opensBody_of_into index into, Form.bodyInside]

theorem Form.into_after_of_before {form : Form} {node child : Node} {earlier : List Node}
    {next : Role} (before : form.into node .before earlier child = some next) :
    form.into node .after earlier child = none := by
  cases form <;> simp_all [Form.into, isFirstWith, isNamedOutside]

theorem Visit.path_suffix {visit : Visit} {level : Level} {above : List Level}
    (below : (level :: above) <:+ visit.above) : level.index :: Level.path above <:+ visit.path :=
  below.map Level.index

namespace Level

theorem path_suffix_of_body {above : List Level} {path : List Nat}
    (body : Level.body above = some path) :
    path <:+ Level.path above ∧ path.length < above.length := by
  induction above with
  | nil => cases body
  | cons level outer ih =>
    simp only [Level.body] at body
    split at body
    · obtain rfl := Option.some.inj body
      exact ⟨List.suffix_cons .., by simp [Level.path]⟩
    · obtain ⟨inside, shorter⟩ := ih body
      exact ⟨inside.trans (List.suffix_cons ..), by simp only [List.length_cons]; omega⟩

theorem body_append (further above : List Level) :
    Level.body (further ++ above) = Level.body above ∨
      ∃ path, Level.body (further ++ above) = some path ∧ above.length ≤ path.length := by
  induction further with
  | nil => exact Or.inl rfl
  | cons level further ih =>
    simp only [List.cons_append, Level.body]
    split
    · exact Or.inr ⟨_, rfl, by simp [Level.path]⟩
    · exact ih

end Level

namespace Tour

theorem above_suffix_of_mem {visit : Visit} (node : Node) : ∀ above role,
    visit ∈ visits (ofNode file above role node) → above <:+ visit.above := by
  induction node using Node.ofChildren with
  | step node ih =>
    intro above role member
    rcases (mem_visits_ofNode ⟨node, role, above⟩).mp member with
      rfl | ⟨index, child, next, goes, below⟩
    · exact List.suffix_refl above
    · have inside := ih child (List.mem_of_getElem? goes.1) _ next below
      exact (List.suffix_cons ..).trans inside

theorem exists_into_of_mem_through {visit : Visit} {node : Node} {role : Role}
    {above : List Level} {stage : Stage} {index : Nat}
    (member : visit ∈ visits (through file above role node stage index)) :
    ∃ child next, node.children[index]? = some child ∧
      (role.form file node).into node stage (node.children.take index) child = some next ∧
      (⟨node, role, index, child⟩ :: above) <:+ visit.above := by
  let start : Visit := ⟨node, role, above⟩
  obtain ⟨child, next, found, into, below⟩ :=
    (@mem_visits_through file visit start stage index).mp member
  exact ⟨child, next, found, into, above_suffix_of_mem child _ next below⟩

theorem exists_into_of_mem_children {visit : Visit} {node : Node} {role : Role}
    {above : List Level} {stage : Stage} {indices : List Nat}
    (member : visit ∈ visits (indices.flatMap (through file above role node stage))) :
    ∃ index ∈ indices, ∃ child next, node.children[index]? = some child ∧
      (role.form file node).into node stage (node.children.take index) child = some next ∧
      (⟨node, role, index, child⟩ :: above) <:+ visit.above := by
  rw [visits, List.flatMap_assoc, List.mem_flatMap] at member
  obtain ⟨index, inside, below⟩ := member
  exact ⟨index, inside, exists_into_of_mem_through below⟩

theorem body_of_mem_children {visit : Visit} {node : Node} {role : Role} {above : List Level}
    {stage : Stage} {indices : List Nat}
    (member : visit ∈ visits (indices.flatMap (through file above role node stage))) :
    visit.body = (role.form file node).bodyInside stage above ∨
      ∃ path, visit.body = some path ∧ above.length < path.length := by
  obtain ⟨index, _, child, next, _, into, further, whole⟩ := exists_into_of_mem_children member
  rw [Visit.body, ← whole, ← Level.body_of_into index above into]
  exact Level.body_append further _

theorem body_ne_outer {visit : Visit} {node : Node} {role : Role} {above : List Level}
    {indices : List Nat} (opens : (role.form file node).opensBody = true)
    (member : visit ∈ visits (indices.flatMap (through file above role node .after))) :
    visit.body ≠ Level.body above := by
  have outer : ∀ path, Level.body above = some path → path.length < above.length :=
    fun path body => (Level.path_suffix_of_body body).2
  intro same
  rcases body_of_mem_children member with here | ⟨path, body, longer⟩
  · have inner : visit.body = some (Level.path above) := by
      simpa [Form.bodyInside, opens] using here
    have shorter := outer _ (same ▸ inner)
    simp [Level.path] at shorter
  · have shorter := outer _ (same ▸ body)
    omega

theorem not_suffix_of_ne {first second : Nat} {path longer : List Nat} (different : first ≠ second)
    (below : first :: path <:+ longer) : ¬ second :: path <:+ longer := by
  intro other
  have same : first :: path = second :: path :=
    (List.suffix_of_suffix_length_le below other (by simp)).eq_of_length (by simp)
  exact different (List.cons.inj same).1

end Tour

end

end DeclarationIndex
