import DeclarationIndex.Proofs.Declaration.Examined
import DeclarationIndex.Proofs.Declaration.Nesting
import Mathlib.Data.List.Forall2

/-!
No declaration is lost and none is indexed twice. Each entry that a file inserts stands for one
site, each site is a declaration of an examined node, and every declaration has one.
-/

namespace DeclarationIndex

/-- What of a node an entry stands for: the node itself, or the reader or writer that the argument
at an index defines. -/
inductive Part where
  | whole
  | reader (argument : Nat)
  | writer (argument : Nat)
  deriving DecidableEq

structure Site where
  place : List Nat
  part : Part
  deriving DecidableEq

section
variable (file : FileContext)

def FileContext.isCallOf (words : List String) (node : Node) : Bool :=
  node.kind = .call && (node.child? .receiver).isNone &&
    words.contains (file.fieldText node .method)

def FileContext.SpellsAt (node : Node) (index : Nat) : Prop :=
  ∃ argument name, node.argumentNodes[index]? = some argument ∧
    file.spelledName? argument = some name

/-- That a part of a node declares something: a class or module whose name can be told, an
assignment to a path of constants, a method with a name, and the accessors of each argument of an
attribute call that spells a name. -/
def FileContext.Declares (node : Node) : Part → Prop
  | .whole =>
      node.kind.isNamespace = true ∧ Naming.isConstantPath (file.fieldText node .name) = true ∨
        node.assignsConstant = true ∨
        node.kind.isMethod = true ∧ (file.fieldText node .name).isEmpty = false
  | .reader index =>
      file.isCallOf ["attr_reader", "attr_accessor"] node = true ∧ file.SpellsAt node index
  | .writer index =>
      file.isCallOf ["attr_writer", "attr_accessor"] node = true ∧ file.SpellsAt node index

def FileContext.HasKind (node : Node) (entry : Entry) : Prop :=
  match node.kind with
  | .classDefinition => entry.kind = .classEntry (file.superclassText node)
  | .moduleDefinition => entry.kind = .moduleEntry
  | .assignment | .operatorAssignment =>
      entry.kind = .constant ∨ ∃ target nesting, entry.kind = .unresolvedAlias target nesting
  | _ =>
      entry.name = file.fieldText node .name ∧
        ∃ owner, entry.kind = .method owner (file.parameters node)

/-- That an entry stands for a part of a node, as it tells by its location and its kind. -/
def FileContext.StandsFor (node : Node) (entry : Entry) : Part → Prop
  | .whole => entry.location = Location.ofNode node ∧ file.HasKind node entry
  | .reader index =>
      ∃ argument owner, node.argumentNodes[index]? = some argument ∧
        entry.location = Location.ofNode argument ∧
        file.spelledName? argument = some entry.name ∧ entry.kind = .method owner []
  | .writer index =>
      ∃ argument name owner, node.argumentNodes[index]? = some argument ∧
        entry.location = Location.ofNode argument ∧ file.spelledName? argument = some name ∧
        entry.name = name ++ "=" ∧ entry.kind = .method owner [⟨name, .required⟩]

def FileContext.StandsAt (root : Node) (site : Site) (entry : Entry) : Prop :=
  ∃ node, Examined file root site.place node ∧ file.StandsFor node entry site.part

def Part.accessors (reader writer : Bool) (index : Nat) : List Part :=
  (if reader then [.reader index] else []) ++ (if writer then [.writer index] else [])

def FileContext.accessorsAt (reader writer : Bool) (argument : Node) (index : Nat) : List Part :=
  match file.spelledName? argument with
  | none => []
  | some _ => Part.accessors reader writer index

def Form.parts (node : Node) : Form → List Part
  | .namespace _ | .constant _ => [.whole]
  | .method _ => if (file.fieldText node .name).isEmpty then [] else [.whole]
  | .definesAttributes reader writer =>
      node.argumentNodes.zipIdx.flatMap fun given =>
        file.accessorsAt reader writer given.1 given.2
  | _ => []

def Visit.sites (visit : Visit) : List Site :=
  ((visit.form file).parts file visit.node).map (⟨visit.path, ·⟩)

variable {file}

theorem CallForm.definesAttributes_iff {node : Node} {reader writer : Bool} :
    CallForm.ofNode file node = .definesAttributes reader writer ↔
      (node.child? .receiver).isNone = true ∧
        (file.fieldText node .method = "attr_reader" ∧ reader = true ∧ writer = false ∨
          file.fieldText node .method = "attr_writer" ∧ reader = false ∧ writer = true ∨
          file.fieldText node .method = "attr_accessor" ∧ reader = true ∧ writer = true) := by
  unfold CallForm.ofNode
  generalize file.fieldText node .method = message
  split <;> grind

theorem FileContext.definesReader_iff {node : Node} (call : node.kind = .call) :
    file.isCallOf ["attr_reader", "attr_accessor"] node = true ↔
      ∃ writer, CallForm.ofNode file node = .definesAttributes true writer := by
  simp only [isCallOf, call, CallForm.definesAttributes_iff, Bool.exists_bool]
  grind

theorem FileContext.definesWriter_iff {node : Node} (call : node.kind = .call) :
    file.isCallOf ["attr_writer", "attr_accessor"] node = true ↔
      ∃ reader, CallForm.ofNode file node = .definesAttributes reader true := by
  simp only [isCallOf, call, CallForm.definesAttributes_iff, Bool.exists_bool]
  grind

theorem Part.mem_accessors {reader writer : Bool} {index : Nat} {part : Part} :
    part ∈ accessors reader writer index ↔
      reader = true ∧ part = .reader index ∨ writer = true ∧ part = .writer index := by
  simp only [accessors, List.mem_append, List.mem_ite_nil_right, List.mem_singleton]

theorem Part.nodup_accessors (reader writer : Bool) (index : Nat) :
    (accessors reader writer index).Nodup := by
  cases reader <;> cases writer <;> simp [accessors]

theorem Part.disjoint_accessors (reader writer : Bool) {first second : Nat}
    (different : first ≠ second) :
    (accessors reader writer first).Disjoint (accessors reader writer second) := by
  intro part atFirst atSecond
  rcases mem_accessors.mp atFirst with ⟨_, rfl⟩ | ⟨_, rfl⟩ <;>
    simp_all [mem_accessors]

theorem FileContext.mem_accessorsAt {reader writer : Bool} {argument : Node} {index : Nat}
    {part : Part} :
    part ∈ file.accessorsAt reader writer argument index ↔
      (∃ name, file.spelledName? argument = some name) ∧
        part ∈ Part.accessors reader writer index := by
  unfold accessorsAt
  cases file.spelledName? argument <;> simp

theorem FileContext.nodup_accessorsAt (reader writer : Bool) (argument : Node) (index : Nat) :
    (file.accessorsAt reader writer argument index).Nodup := by
  unfold accessorsAt
  split
  · exact List.nodup_nil
  · exact Part.nodup_accessors reader writer index

theorem mem_parts_definesAttributes {node : Node} {reader writer : Bool} {part : Part} :
    part ∈ (Form.definesAttributes reader writer).parts file node ↔
      ∃ index, file.SpellsAt node index ∧
        (reader = true ∧ part = .reader index ∨ writer = true ∧ part = .writer index) := by
  simp only [Form.parts, List.mem_flatMap, Prod.exists, List.mem_zipIdx_iff_getElem?,
    FileContext.mem_accessorsAt, Part.mem_accessors, FileContext.SpellsAt]
  constructor
  · rintro ⟨argument, index, found, ⟨name, spelled⟩, accessor⟩
    exact ⟨index, ⟨argument, name, found, spelled⟩, accessor⟩
  · rintro ⟨index, ⟨argument, name, found, spelled⟩, accessor⟩
    exact ⟨argument, index, found, ⟨name, spelled⟩, accessor⟩

theorem Form.mem_parts_ofNode {node : Node} {part : Part} :
    part ∈ (Form.ofNode file node).parts file node ↔ file.Declares node part := by
  cases kind : node.kind with
  | call =>
    have reads : file.isCallOf ["attr_reader", "attr_accessor"] node = true ↔
        ∃ writer, CallForm.ofNode file node = .definesAttributes true writer :=
      FileContext.definesReader_iff kind
    have writes : file.isCallOf ["attr_writer", "attr_accessor"] node = true ↔
        ∃ reader, CallForm.ofNode file node = .definesAttributes reader true :=
      FileContext.definesWriter_iff kind
    cases form : CallForm.ofNode file node with
    | definesAttributes reader writer =>
      simp only [Form.ofNode, kind, form, mem_parts_definesAttributes]
      cases part <;>
        grind [FileContext.Declares, NodeKind.isNamespace, NodeKind.isMethod,
          Node.assignsConstant, NodeKind.isAssignment]
    | _ =>
      simp only [Form.ofNode, kind, form, Form.parts]
      cases part <;>
        grind [FileContext.Declares, NodeKind.isNamespace, NodeKind.isMethod,
          Node.assignsConstant, NodeKind.isAssignment]
  | _ =>
    -- only a call has parts other than the whole
    simp only [Form.ofNode, kind]
    cases part <;>
      grind [Form.parts, FileContext.Declares, NodeKind.isNamespace, NodeKind.isMethod,
        Node.assignsConstant, NodeKind.isAssignment, FileContext.isCallOf]

theorem Visit.mem_parts_iff {visit : Visit} (examines : visit.examines file = true) {part : Part} :
    part ∈ (visit.form file).parts file visit.node ↔ file.Declares visit.node part := by
  rw [← Form.mem_parts_ofNode]
  rcases Visit.form_of_examines examines with form | ⟨isMethod, given, form⟩
  · rw [form]
  · rw [form, Form.ofNode_of_isMethod isMethod]
    rfl

theorem Visit.parts_of_not_examines {visit : Visit} (unexamined : visit.examines file = false) :
    (visit.form file).parts file visit.node = [] := by
  cases taken : visit.role with
  | plain => simp [Visit.examines, taken] at unexamined
  | argument visibility =>
    obtain ⟨name, form⟩ := Visit.form_of_not_examines taken unexamined
    rw [form]
    rfl
  | superclassClause => simp only [Visit.form, taken, Role.form, Form.parts]
  | argumentList visibility => simp only [Visit.form, taken, Role.form, Form.parts]

theorem Form.nodup_parts (form : Form) (node : Node) : (form.parts file node).Nodup := by
  cases form with
  | definesAttributes reader writer =>
    rw [Form.parts, List.nodup_flatMap]
    constructor
    · exact fun given _ => file.nodup_accessorsAt reader writer given.1 given.2
    · have different : node.argumentNodes.zipIdx.Pairwise (·.2 ≠ ·.2) := by
        rw [← List.pairwise_map, List.zipIdx_map_snd]
        exact List.nodup_range'
      refine different.imp fun {first second} apart part atFirst atSecond => ?_
      have inFirst := (FileContext.mem_accessorsAt.mp atFirst).2
      have inSecond := (FileContext.mem_accessorsAt.mp atSecond).2
      exact Part.disjoint_accessors reader writer apart inFirst inSecond
  | method given =>
    rw [Form.parts]
    split
    · exact List.nodup_nil
    · exact List.nodup_singleton _
  | «namespace» name => exact List.nodup_singleton _
  | constant target => exact List.nodup_singleton _
  | _ => exact List.nodup_nil

theorem Visit.nodup_sites (visit : Visit) : (visit.sites file).Nodup := by
  refine (Form.nodup_parts _ visit.node).map fun first second same => ?_
  exact (Site.mk.inj same).2

theorem Visit.place_of_mem_sites {visit : Visit} {site : Site} (member : site ∈ visit.sites file) :
    site.place = visit.path := by
  obtain ⟨part, _, rfl⟩ := List.mem_map.mp member
  rfl

variable (file) in
def sitesOf (root : Node) : List Site :=
  (visitsOf file root).flatMap (Visit.sites file)

theorem nodup_sitesOf (root : Node) : (sitesOf file root).Nodup := by
  rw [sitesOf, List.nodup_flatMap]
  refine ⟨fun visit _ => visit.nodup_sites, ?_⟩
  have apart : (visitsOf file root).Pairwise (·.path ≠ ·.path) :=
    List.pairwise_map.mp (nodup_paths_visitsOf root)
  refine apart.imp fun {first second} different site inFirst inSecond => ?_
  have atFirst := Visit.place_of_mem_sites inFirst
  have atSecond := Visit.place_of_mem_sites inSecond
  exact different (atFirst.symm.trans atSecond)

theorem mem_sitesOf {root : Node} (unique : root.SuperclassesUnique) {site : Site} :
    site ∈ sitesOf file root ↔
      ∃ node, Examined file root site.place node ∧ file.Declares node site.part := by
  simp only [sitesOf, List.mem_flatMap, visitsOf, mem_visits_iff_reached]
  constructor
  · rintro ⟨visit, reached, member⟩
    obtain ⟨part, isPart, rfl⟩ := List.mem_map.mp member
    cases examines : visit.examines file with
    | false =>
      rw [Visit.parts_of_not_examines examines] at isPart
      cases isPart
    | true =>
      have examined := (examined_iff_reached unique).mpr ⟨visit, reached, examines, rfl, rfl⟩
      exact ⟨visit.node, examined, (Visit.mem_parts_iff examines).mp isPart⟩
  · rintro ⟨node, examined, declares⟩
    obtain ⟨visit, reached, examines, path, rfl⟩ := (examined_iff_reached unique).mp examined
    refine ⟨visit, reached, List.mem_map.mpr ⟨site.part, ?_, ?_⟩⟩
    · exact (Visit.mem_parts_iff examines).mpr declares
    · rw [path]

theorem FileContext.hasKind_namespace {node : Node} {name : String} {comments : List String}
    {visibility : Visibility} (isNamespace : node.kind.isNamespace = true) :
    file.HasKind node (file.entry node name (file.namespaceKind node) comments visibility) := by
  unfold HasKind
  cases kind : node.kind with
  | classDefinition | moduleDefinition => simp [entry, namespaceKind, kind]
  | _ => simp [kind, NodeKind.isNamespace] at isNamespace

theorem FileContext.hasKind_constant {node : Node} {name : String} {nesting : List String}
    {comments : List String} {visibility : Visibility} (assigns : node.kind.isAssignment = true) :
    file.HasKind node
      (file.entry node name (file.constantKind node nesting) comments visibility) := by
  have kinds : file.constantKind node nesting = .constant ∨
      ∃ target others, file.constantKind node nesting = .unresolvedAlias target others := by
    rcases constantKind_cases file node nesting with plain | ⟨target, refers⟩
    · exact Or.inl plain
    · exact Or.inr ⟨target, nesting, refers⟩
  unfold HasKind
  cases kind : node.kind with
  | assignment | operatorAssignment => exact kinds
  | _ => simp [kind, NodeKind.isAssignment] at assigns

theorem FileContext.hasKind_method {node : Node} {owner : Option String}
    {comments : List String} {visibility : Visibility} (isMethod : node.kind.isMethod = true) :
    file.HasKind node (file.entry node (file.fieldText node .name)
      (.method owner (file.parameters node)) comments visibility) := by
  unfold HasKind
  cases kind : node.kind with
  | method | singletonMethod => exact ⟨rfl, owner, rfl⟩
  | _ => simp [kind, NodeKind.isMethod] at isMethod

theorem FileContext.standsFor_accessors {node argument : Node} {index : Nat} {scope : Scope}
    {reader writer : Bool} {name : String} (found : node.argumentNodes[index]? = some argument)
    (spelled : file.spelledName? argument = some name) :
    List.Forall₂ (fun part entry => file.StandsFor node entry part)
      (Part.accessors reader writer index)
      (file.attributeEntries node argument reader writer scope name) := by
  have read : file.StandsFor node (file.entry argument name (.method scope.owner [])
      (file.comments node) scope.current) (.reader index) :=
    ⟨argument, scope.owner, found, rfl, spelled, rfl⟩
  have written : file.StandsFor node (file.entry argument (name ++ "=")
      (.method scope.owner [⟨name, .required⟩]) (file.comments node) scope.current)
      (.writer index) :=
    ⟨argument, name, scope.owner, found, rfl, spelled, rfl, rfl⟩
  cases reader <;> cases writer <;>
    simp [Part.accessors, attributeEntries, read, written]

theorem forall₂_flatMap {α β γ : Type} {holds : β → γ → Prop} {items : List α} {left : α → List β}
    {right : α → List γ} (each : ∀ item ∈ items, List.Forall₂ holds (left item) (right item)) :
    List.Forall₂ holds (items.flatMap left) (items.flatMap right) := by
  have same : List.Forall₂ (fun first second => first = second ∧ first ∈ items) items items :=
    List.forall₂_same.mpr fun item member => ⟨rfl, member⟩
  refine List.rel_flatMap same ?_
  rintro item _ ⟨rfl, member⟩
  exact each item member

theorem Visit.standsFor_parts (visit : Visit) (scope : Scope) :
    List.Forall₂ (fun part entry => file.StandsFor visit.node entry part)
      ((visit.form file).parts file visit.node) (visit.entries file scope) := by
  have fits := visit.fits_form file
  rw [Visit.entries_eq]
  cases form : visit.form file with
  | «namespace» name =>
    rw [form] at fits
    exact .cons ⟨rfl, FileContext.hasKind_namespace fits.2.1⟩ .nil
  | constant target =>
    rw [form] at fits
    exact .cons ⟨rfl, FileContext.hasKind_constant fits.1⟩ .nil
  | method given =>
    rw [form] at fits
    rw [Form.parts]
    dsimp only
    split
    · exact .nil
    · exact .cons ⟨rfl, FileContext.hasKind_method fits.1⟩ .nil
  | definesAttributes reader writer =>
    rw [Form.parts]
    dsimp only
    -- the entries in step with the indices of their arguments
    rw [← List.zipIdx_map_fst 0 visit.node.argumentNodes, List.flatMap_map, List.zipIdx_map_fst]
    refine forall₂_flatMap ?_
    rintro ⟨argument, index⟩ member
    have found := List.mem_zipIdx_iff_getElem?.mp member
    unfold FileContext.accessorsAt
    dsimp only
    cases spelled : file.spelledName? argument with
    | none => exact .nil
    | some name => exact FileContext.standsFor_accessors found spelled
  | _ => exact .nil

theorem declared_eq_moments (root : Node) :
    (changesOf file root).filterMap Change.declared? =
      (momentsOf file root).flatMap fun moment => moment.visit.entries file moment.scope := by
  rw [declared_eq_insertions, insertionsOf, List.map_flatMap]
  congr
  funext moment
  rw [Moment.insertions, List.map_map]
  exact List.map_id _

theorem sitesOf_eq_moments (root : Node) :
    sitesOf file root = (momentsOf file root).flatMap fun moment => moment.visit.sites file := by
  rw [sitesOf, visitsOf, ← Tour.map_visit_moments file [] Scope.topLevel, List.flatMap_map]
  rfl

variable (file) in
/-- That sites are those of the declarations of a tree, each of them once, and that entries stand
for them one by one. -/
structure MatchesDeclarations (root : Node) (sites : List Site) (entries : List Entry) :
    Prop where
  nodup : sites.Nodup
  mem_iff (site : Site) : site ∈ sites ↔
    ∃ node, Examined file root site.place node ∧ file.Declares node site.part
  standFor : List.Forall₂ (file.StandsAt root) sites entries

theorem standFor_sitesOf {root : Node} (unique : root.SuperclassesUnique) :
    List.Forall₂ (file.StandsAt root) (sitesOf file root)
      ((changesOf file root).filterMap Change.declared?) := by
  rw [declared_eq_moments, sitesOf_eq_moments]
  refine forall₂_flatMap fun moment met => ?_
  have reached := reached_of_moment file met
  cases examines : moment.visit.examines file with
  | true =>
    have examined := (examined_iff_reached unique).mpr ⟨moment.visit, reached, examines, rfl, rfl⟩
    refine List.forall₂_map_left_iff.mpr ?_
    exact (moment.visit.standsFor_parts moment.scope).imp fun part entry standsFor =>
      ⟨moment.visit.node, examined, standsFor⟩
  | false =>
    have parts := Visit.parts_of_not_examines examines
    have entries : moment.visit.entries file moment.scope = [] := by
      rw [← List.forall₂_nil_left_iff, ← parts]
      exact moment.visit.standsFor_parts moment.scope
    rw [Visit.sites, parts, entries]
    exact .nil

/-- What a walk declares matches the declarations of the tree: none is lost and none comes
twice. -/
theorem declarations_matched_once {root : Node} (unique : root.SuperclassesUnique) :
    ∃ sites, MatchesDeclarations file root sites
      ((changesOf file root).filterMap Change.declared?) :=
  ⟨sitesOf file root, nodup_sitesOf root, fun _ => mem_sitesOf unique, standFor_sitesOf unique⟩

end

/-- Accessors that are made private, in a class with a class in its superclass, over the lines
`class A < B.new(class C; end)`, `  private attr_accessor :d, e`, `end`. -/
def accessorTree : Node :=
  let innerName : Node := ⟨.constant, true, some .name, .onRow 22 23 0 22, []⟩
  let inner : Node := ⟨.classDefinition, true, none, .onRow 16 28 0 16, [innerName]⟩
  let values : Node := ⟨.other "argument_list", true, some .arguments, .onRow 15 29 0 15, [inner]⟩
  let receiver : Node := ⟨.constant, true, some .receiver, .onRow 10 11 0 10, []⟩
  let message : Node := ⟨.identifier, true, some .method, .onRow 12 15 0 12, []⟩
  let new : Node := ⟨.call, true, none, .onRow 10 29 0 10, [receiver, message, values]⟩
  let superclass : Node := ⟨.other "superclass", true, some .superclass, .onRow 8 29 0 8, [new]⟩
  let symbol : Node := ⟨.simpleSymbol, true, none, .onRow 54 56 1 24, []⟩
  let word : Node := ⟨.identifier, true, none, .onRow 58 59 1 28, []⟩
  let names : Node :=
    ⟨.other "argument_list", true, some .arguments, .onRow 54 59 1 24, [symbol, word]⟩
  let accessorWord : Node := ⟨.identifier, true, some .method, .onRow 40 53 1 10, []⟩
  let accessor : Node := ⟨.call, true, none, .onRow 40 59 1 10, [accessorWord, names]⟩
  let handed : Node :=
    ⟨.other "argument_list", true, some .arguments, .onRow 40 59 1 10, [accessor]⟩
  let visibilityWord : Node := ⟨.identifier, true, some .method, .onRow 32 39 1 2, []⟩
  let privateCall : Node := ⟨.call, true, none, .onRow 32 59 1 2, [visibilityWord, handed]⟩
  let body : Node := ⟨.bodyStatement, true, some (.other "body"), .onRow 32 59 1 2, [privateCall]⟩
  let name : Node := ⟨.constant, true, some .name, .onRow 6 7 0 6, []⟩
  let outer : Node :=
    ⟨.classDefinition, true, none, ⟨0, 63, ⟨0, 0⟩, ⟨2, 3⟩⟩, [name, superclass, body]⟩
  ⟨.program, true, none, ⟨0, 64, ⟨0, 0⟩, ⟨3, 0⟩⟩, [outer]⟩

def accessorFile : FileContext where
  path := "a.rb"
  source := SourceText.ofString
    "class A < B.new(class C; end)\n  private attr_accessor :d, e\nend\n"
  documentation := ⟨[], fun _ => false⟩

theorem accessors_matched_once :
    accessorTree.SuperclassesUnique ∧
      (∃ sites, MatchesDeclarations accessorFile accessorTree sites
        ((changesOf accessorFile accessorTree).filterMap Change.declared?)) ∧
      ((changesOf accessorFile accessorTree).filterMap Change.declared?).map
        Entry.name = ["C", "A", "d", "d="] := by
  have unique : accessorTree.SuperclassesUnique := by decide +kernel
  exact ⟨unique, declarations_matched_once unique, by decide +kernel⟩

end DeclarationIndex
