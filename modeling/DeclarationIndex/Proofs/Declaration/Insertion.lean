import DeclarationIndex.Proofs.Declaration.Reach
import DeclarationIndex.Proofs.Declaration.Retrace

/-!
The entries that a tree declares, each with the visit at which it is inserted and the visits that
came before. In order, they are what the walk declares.
-/

namespace DeclarationIndex

/-- A visit on a tour: the visits before it, and the scope that it finds. -/
structure Moment where
  earlier : List Visit
  visit : Visit
  scope : Scope

/-- An entry on its way into an index: the visit that inserts it and the visits before that. -/
structure Insertion where
  earlier : List Visit
  visit : Visit
  entry : Entry

section
variable (file : FileContext)

def Visit.entries (visit : Visit) (scope : Scope) : List Entry :=
  (visit.changes file scope).filterMap Change.declared?

theorem Visit.entries_eq (visit : Visit) (scope : Scope) :
    visit.entries file scope =
      match visit.form file with
      | .namespace _ =>
          [file.entry visit.node (scope.qualify (file.fieldText visit.node .name))
            (file.namespaceKind visit.node) (file.comments visit.node) .isPublic]
      | .constant target =>
          [file.entry visit.node (scope.qualify (file.text target))
            (file.constantKind visit.node scope.nesting) (file.comments visit.node) .isPublic]
      | .method given =>
          if (file.fieldText visit.node .name).isEmpty then []
          else
            [file.entry visit.node (file.fieldText visit.node .name)
              (.method scope.owner (file.parameters visit.node)) (file.comments visit.node)
              (visit.node.methodVisibility given scope)]
      | .definesAttributes reader writer =>
          visit.node.argumentNodes.flatMap fun argument =>
            match file.spelledName? argument with
            | none => []
            | some name =>
                file.attributeEntries visit.node argument reader writer scope name
      | _ => [] := by
  unfold entries changes
  cases visit.form file with
  | method given =>
    simp only [FileContext.declareMethod, Walk.emit]
    split <;> rfl
  | hidesConstants =>
    simp only [FileContext.hideConstants, Walk.emit]
    split
    · rfl
    · simp [List.filterMap_eq_nil_iff, Change.declared?]
  | definesAttributes reader writer =>
    simp only [FileContext.declareAttributes, Walk.emit, List.filterMap_flatMap]
    congr
    funext argument
    cases file.spelledName? argument with
    | none => rfl
    | some name => simp [List.filterMap_map, Function.comp_def, Change.declared?]
  | _ => rfl

theorem mem_attributeEntries {call argument : Node} {reader writer : Bool} {scope : Scope}
    {name : String} {entry : Entry}
    (member : entry ∈ file.attributeEntries call argument reader writer scope name) :
    ∃ method parameters, entry = file.entry argument method (.method scope.owner parameters)
      (file.comments call) scope.current := by
  simp only [FileContext.attributeEntries, List.mem_append] at member
  rcases member with read | written
  · cases reader <;> simp at read
    exact ⟨_, _, read⟩
  · cases writer <;> simp at written
    exact ⟨_, _, written⟩

inductive Visit.Inserts (visit : Visit) (scope : Scope) : Entry → Prop where
  | classOrModule {name : String} (form : visit.form file = .namespace name) :
      Inserts visit scope
        (file.entry visit.node (scope.qualify (file.fieldText visit.node .name))
          (file.namespaceKind visit.node) (file.comments visit.node) .isPublic)
  | constant {target : Node} (form : visit.form file = .constant target) :
      Inserts visit scope
        (file.entry visit.node (scope.qualify (file.text target))
          (file.constantKind visit.node scope.nesting) (file.comments visit.node) .isPublic)
  | method {given : Option Visibility} (form : visit.form file = .method given) :
      Inserts visit scope
        (file.entry visit.node (file.fieldText visit.node .name)
          (.method scope.owner (file.parameters visit.node)) (file.comments visit.node)
          (visit.node.methodVisibility given scope))
  | accessor {reader writer : Bool} {argument : Node} {name : String}
      {parameters : List Parameter} (form : visit.form file = .definesAttributes reader writer) :
      Inserts visit scope
        (file.entry argument name (.method scope.owner parameters) (file.comments visit.node)
          scope.current)

theorem inserts_of_mem_entries {visit : Visit} {scope : Scope} {entry : Entry}
    (member : entry ∈ visit.entries file scope) : visit.Inserts file scope entry := by
  rw [Visit.entries_eq] at member
  cases form : visit.form file with
  | «namespace» name =>
    rw [form, List.mem_singleton] at member
    exact member ▸ .classOrModule form
  | constant target =>
    rw [form, List.mem_singleton] at member
    exact member ▸ .constant form
  | method given =>
    simp only [form, List.mem_ite_nil_left, List.mem_singleton] at member
    exact member.2 ▸ .method form
  | definesAttributes reader writer =>
    rw [form] at member
    obtain ⟨argument, _, defined⟩ := List.mem_flatMap.mp member
    cases spelled : file.spelledName? argument with
    | none => simp [spelled] at defined
    | some name =>
      simp only [spelled] at defined
      obtain ⟨method, parameters, same⟩ := mem_attributeEntries file defined
      exact same ▸ .accessor form
  | _ =>
    rw [form] at member
    cases member

theorem filePath_of_mem_entries {visit : Visit} {scope : Scope} {entry : Entry}
    (member : entry ∈ visit.entries file scope) : entry.filePath = file.path := by
  cases inserts_of_mem_entries file member <;> rfl

/-- Whether a node declares something, told from the node alone: a class or module whose name can
be told, an assignment to a path of constants, a method with a name, or an attribute call that
spells out a name. -/
def FileContext.declares (node : Node) : Bool :=
  match node.kind with
  | .classDefinition | .moduleDefinition => Naming.isConstantPath (file.fieldText node .name)
  | .assignment | .operatorAssignment => node.constantTarget?.isSome
  | .method | .singletonMethod => !(file.fieldText node .name).isEmpty
  | .call =>
      match CallForm.ofNode file node with
      | .definesAttributes _ _ => node.argumentNodes.any (file.spelledName? · |>.isSome)
      | _ => false
  | _ => false

def Form.declares (node : Node) : Form → Bool
  | .namespace _ | .constant _ => true
  | .method _ => !(file.fieldText node .name).isEmpty
  | .definesAttributes _ _ => node.argumentNodes.any (file.spelledName? · |>.isSome)
  | _ => false

theorem Form.declares_ofNode (node : Node) :
    (Form.ofNode file node).declares file node = file.declares node := by
  simp only [Form.ofNode, FileContext.declares]
  cases node.kind with
  | classDefinition | moduleDefinition =>
    cases Naming.isConstantPath (file.fieldText node .name) <;> rfl
  | assignment | operatorAssignment => cases node.constantTarget? <;> rfl
  | call => cases CallForm.ofNode file node <;> rfl
  | _ => rfl

theorem Role.declares_form (role : Role) (node : Node) :
    (role.form file node).declares file node = (role.isNode && file.declares node) := by
  cases role with
  | plain => exact Form.declares_ofNode file node
  | argument visibility =>
    simp only [Role.form]
    split
    · rename_i isMethod
      cases kind : node.kind <;> simp_all [NodeKind.isMethod, Form.declares, Role.isNode,
        FileContext.declares]
    · split
      · rename_i name spelled
        unfold FileContext.spelledName? at spelled
        cases kind : node.kind <;> simp_all [Form.declares, FileContext.declares]
      · exact Form.declares_ofNode file node
  | superclassClause => rfl
  | argumentList visibility => rfl

theorem CallForm.reader_or_writer {node : Node} {reader writer : Bool}
    (form : CallForm.ofNode file node = .definesAttributes reader writer) :
    reader = true ∨ writer = true := by
  unfold CallForm.ofNode at form
  split at form
  all_goals grind

theorem Visit.entries_ne_nil_iff (visit : Visit) (scope : Scope) :
    visit.entries file scope ≠ [] ↔ visit.role.isNode && file.declares visit.node := by
  rw [← Role.declares_form, Visit.entries_eq]
  have fits := visit.fits_form file
  change _ ↔ (visit.form file).declares file visit.node = true
  cases form : visit.form file with
  | method given => simp [Form.declares]
  | definesAttributes reader writer =>
    rw [form] at fits
    have filled : ∀ argument name,
        file.attributeEntries visit.node argument reader writer scope name ≠ [] := by
      intro argument name
      rcases CallForm.reader_or_writer file fits.2 with rfl | rfl <;>
        simp [FileContext.attributeEntries]
    simp only [Form.declares, List.any_eq_true]
    constructor
    · intro inserted
      obtain ⟨entry, member⟩ := List.exists_mem_of_ne_nil _ inserted
      obtain ⟨argument, given, defined⟩ := List.mem_flatMap.mp member
      refine ⟨argument, given, ?_⟩
      cases spelled : file.spelledName? argument with
      | none => simp [spelled] at defined
      | some name => rfl
    · rintro ⟨argument, given, spelled⟩
      obtain ⟨name, spelled⟩ := Option.isSome_iff_exists.mp spelled
      obtain ⟨entry, member⟩ := List.exists_mem_of_ne_nil _ (filled argument name)
      apply List.ne_nil_of_mem (a := entry)
      rw [List.mem_flatMap]
      exact ⟨argument, given, by simpa only [spelled] using member⟩
  | _ => simp [Form.declares]

namespace Tour

def moments (earlier : List Visit) (scope : Scope) : List Step → List Moment
  | [] => []
  | step :: rest =>
      step.visit?.toList.map (⟨earlier, ·, scope⟩) ++
        moments (earlier ++ step.visit?.toList) (step.scope file scope) rest

theorem moments_append (earlier : List Visit) (scope : Scope) (first second : List Step) :
    moments file earlier scope (first ++ second) =
      moments file earlier scope first ++
        moments file (earlier ++ visits first) (scopeAfter file scope first) second := by
  induction first generalizing earlier scope with
  | nil => simp [moments, visits, scopeAfter]
  | cons step rest ih => simp [moments, visits, scopeAfter, ih]

theorem map_visit_moments (earlier : List Visit) (scope : Scope) (steps : List Step) :
    (moments file earlier scope steps).map Moment.visit = visits steps := by
  induction steps generalizing earlier scope with
  | nil => rfl
  | cons step rest ih => cases step <;> simp [moments, visits, Step.visit?, ih]

theorem visits_of_mem_moments {earlier : List Visit} {scope : Scope} {steps : List Step}
    {moment : Moment} (member : moment ∈ moments file earlier scope steps) :
    ∃ later, earlier ++ visits steps = moment.earlier ++ moment.visit :: later := by
  induction steps generalizing earlier scope with
  | nil => cases member
  | cons step rest ih =>
    have visited : visits (step :: rest) = step.visit?.toList ++ visits rest := rfl
    rw [visited]
    rcases List.mem_append.mp member with here | later
    · obtain ⟨visit, met, rfl⟩ := List.mem_map.mp here
      rw [Option.mem_toList.mp met]
      exact ⟨visits rest, rfl⟩
    · obtain ⟨after, whole⟩ := ih later
      exact ⟨after, by rw [← List.append_assoc, whole]⟩

theorem changes_eq_moments (earlier : List Visit) (scope : Scope) (steps : List Step) :
    changes file scope steps =
      (moments file earlier scope steps).flatMap fun moment =>
        moment.visit.changes file moment.scope := by
  induction steps generalizing earlier scope with
  | nil => rfl
  | cons step rest ih =>
    rw [changes, moments, List.flatMap_append, ← ih]
    cases step <;> simp [Step.changes, Step.visit?]

end Tour

def Moment.insertions (moment : Moment) : List Insertion :=
  (moment.visit.entries file moment.scope).map (⟨moment.earlier, moment.visit, ·⟩)

def visitsOf (root : Node) : List Visit :=
  Tour.visits (Tour.ofNode file [] .plain root)

def momentsOf (root : Node) : List Moment :=
  Tour.moments file [] Scope.topLevel (Tour.ofNode file [] .plain root)

theorem reached_of_moment {root : Node} {moment : Moment} (member : moment ∈ momentsOf file root) :
    Reached file root moment.visit := by
  rw [← mem_visits_iff_reached, ← Tour.map_visit_moments file [] Scope.topLevel]
  exact List.mem_map_of_mem member

theorem visitsOf_of_moment {root : Node} {moment : Moment}
    (member : moment ∈ momentsOf file root) :
    ∃ later, visitsOf file root = moment.earlier ++ moment.visit :: later :=
  Tour.visits_of_mem_moments file member

theorem exists_moments_infix {root : Node} {visit : Visit} (reached : Reached file root visit) :
    ∃ earlier scope,
      Tour.moments file earlier scope (Tour.ofVisit file visit) <:+: momentsOf file root := by
  obtain ⟨before, after, whole⟩ := Tour.infix_of_reached reached
  refine ⟨Tour.visits before, Tour.scopeAfter file Scope.topLevel before, ?_⟩
  rw [momentsOf, ← whole, Tour.moments_append, Tour.moments_append]
  exact ⟨_, _, rfl⟩

def insertionsOf (root : Node) : List Insertion :=
  (momentsOf file root).flatMap (·.insertions file)

theorem insertions_infix {root : Node} {part : List Moment}
    (inside : part <:+: momentsOf file root) :
    part.flatMap (·.insertions file) <:+: insertionsOf file root := by
  obtain ⟨before, after, whole⟩ := inside
  rw [insertionsOf, ← whole, List.flatMap_append, List.flatMap_append]
  exact ⟨_, _, rfl⟩

theorem changesOf_eq_moments (root : Node) :
    changesOf file root = (momentsOf file root).flatMap fun moment =>
      moment.visit.changes file moment.scope := by
  rw [changesOf, walk_eq_run, momentsOf, ← Tour.changes_eq_moments]
  rfl

theorem declared_eq_insertions (root : Node) :
    (changesOf file root).filterMap Change.declared? =
      (insertionsOf file root).map Insertion.entry := by
  rw [changesOf_eq_moments, insertionsOf, List.filterMap_flatMap, List.map_flatMap]
  congr
  funext moment
  rw [Moment.insertions, List.map_map]
  exact (List.map_id _).symm

theorem mem_insertionsOf {root : Node} {insertion : Insertion}
    (member : insertion ∈ insertionsOf file root) :
    ∃ moment ∈ momentsOf file root, insertion.earlier = moment.earlier ∧
      insertion.visit = moment.visit ∧
      insertion.entry ∈ moment.visit.entries file moment.scope := by
  obtain ⟨moment, met, inserted⟩ := List.mem_flatMap.mp member
  obtain ⟨entry, given, rfl⟩ := List.mem_map.mp inserted
  exact ⟨moment, met, rfl, rfl, given⟩

/-- Every visit of a declaration inserts something, and no other visit does. -/
theorem exists_insertion_iff {root : Node} {visit : Visit} :
    (∃ insertion ∈ insertionsOf file root, insertion.visit = visit) ↔
      Reached file root visit ∧ visit.role.isNode = true ∧ file.declares visit.node = true := by
  rw [← Bool.and_eq_true]
  constructor
  · rintro ⟨insertion, member, rfl⟩
    obtain ⟨moment, met, _, same, inserted⟩ := mem_insertionsOf file member
    rw [same]
    exact ⟨reached_of_moment file met,
      (moment.visit.entries_ne_nil_iff file moment.scope).mp (List.ne_nil_of_mem inserted)⟩
  · rintro ⟨reached, declares⟩
    obtain ⟨moment, met, rfl⟩ : ∃ moment ∈ momentsOf file root, moment.visit = visit := by
      rw [← mem_visits_iff_reached, ← Tour.map_visit_moments file [] Scope.topLevel] at reached
      exact List.mem_map.mp reached
    obtain ⟨entry, inserted⟩ := List.exists_mem_of_ne_nil _
      ((moment.visit.entries_ne_nil_iff file moment.scope).mpr declares)
    exact ⟨⟨moment.earlier, moment.visit, entry⟩,
      List.mem_flatMap.mpr ⟨moment, met, List.mem_map_of_mem inserted⟩, rfl⟩

end

end DeclarationIndex
