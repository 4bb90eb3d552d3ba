import DeclarationIndex.Proofs.Declaration.Recovery

/-!
A class or module is found under one name and its contents are named under another: the first is
its local name qualified by the names around it, the second the namespace of these names and its
own. The two are the same, so what stands in a body is named by the entry of the class or module
that the body belongs to.
-/

namespace DeclarationIndex

namespace Naming

theorem join_concat {segments : List String} (filled : segments ≠ []) (last : String) :
    join (segments ++ [last]) = join segments ++ separator ++ last := by
  rw [join_eq_intercalate, join_eq_intercalate,
    String.intercalate_append_of_ne_nil filled (List.cons_ne_nil last []),
    String.intercalate_singleton]

theorem fromLastRooted_concat_of_isRooted (names : List String) {name : String}
    (rooted : isRooted name = true) : fromLastRooted (names ++ [name]) = [name] := by
  induction names with
  | nil => rfl
  | cons first rest ih =>
    have some : (rest ++ [name]).any isRooted = true := by simp [rooted]
    rw [List.cons_append, fromLastRooted, if_pos some, ih]

theorem fromLastRooted_concat_of_not_isRooted (names : List String) {name : String}
    (rootless : isRooted name = false) :
    fromLastRooted (names ++ [name]) = fromLastRooted names ++ [name] := by
  induction names with
  | nil => rfl
  | cons first rest ih =>
    have same : (rest ++ [name]).any isRooted = rest.any isRooted := by simp [rootless]
    rw [List.cons_append, fromLastRooted, fromLastRooted, same, ih]
    split <;> rfl

theorem namespaceOf_concat_of_isRooted (names : List String) {name : String}
    (rooted : isRooted name = true) (once : isRootedTwice name = false) :
    namespaceOf (names ++ [name]) = some (stripRoot name) := by
  rw [namespaceOf, fromLastRooted_concat_of_isRooted names rooted]
  simp [join, unrooted_eq_stripRoot once]

theorem namespaceOf_concat_of_not_isRooted (names : List String) {name : String}
    (rootless : isRooted name = false) :
    namespaceOf (names ++ [name]) =
      some (((namespaceOf names).map (· ++ separator ++ name)).getD name) := by
  have own : unrooted name = name := by
    rw [unrooted, dropSeparators_of_not_isRooted rootless, String.ofList_toList]
  rw [namespaceOf, fromLastRooted_concat_of_not_isRooted names rootless, namespaceOf]
  cases fromLastRooted names with
  | nil => simp [join, own]
  | cons first rest =>
    have filled : (first :: rest).map unrooted ≠ [] := by simp
    simpa [own] using join_concat filled name

theorem namespaceOf_concat (names : List String) {name : String}
    (once : isRootedTwice name = false) :
    namespaceOf (names ++ [name]) = some (qualify names name) := by
  cases rooted : isRooted name with
  | true =>
    rw [namespaceOf_concat_of_isRooted names rooted once]
    obtain ⟨rest, stripped⟩ := Option.isSome_iff_exists.mp rooted
    simp [qualify, stripRoot, stripped]
  | false =>
    rw [namespaceOf_concat_of_not_isRooted names rooted]
    have kept : stripRoot? name = none := by simpa [isRooted] using rooted
    rw [qualify, kept]
    cases namespaceOf names <;> rfl

theorem qualify_of_namespaceOf {names : List String} {outer name : String}
    (under : namespaceOf names = some outer) (rootless : isRooted name = false) :
    qualify names name = outer ++ separator ++ name := by
  have kept : stripRoot? name = none := by simpa [isRooted] using rootless
  rw [qualify, kept, under]

end Naming

section
variable (file : FileContext)

/-- That a declaration stands in the body of a class or module of a name, and in that of no other
further in. -/
def Insertion.StandsIn (inner outer : Insertion) (name : String) : Prop :=
  ∃ further index child,
    inner.visit.above =
      further ++ ⟨outer.visit.node, outer.visit.role, index, child⟩ :: outer.visit.above ∧
    Level.name? file ⟨outer.visit.node, outer.visit.role, index, child⟩ = some name ∧
    ∀ level ∈ further, level.name? file = none

variable {file}

theorem Level.names_append_of_nameless {further above : List Level}
    (nameless : ∀ level ∈ further, level.name? file = none) :
    Level.names file (further ++ above) = Level.names file above := by
  have none : further.reverse.filterMap (Level.name? file) = [] := by
    simpa [List.filterMap_eq_nil_iff] using nameless
  rw [Level.names, List.reverse_append, List.filterMap_append, none, List.append_nil]
  rfl

theorem Level.exists_innermost {above : List Level} (enclosed : Level.names file above ≠ []) :
    ∃ further level outer name, above = further ++ level :: outer ∧
      level.name? file = some name ∧ ∀ level ∈ further, level.name? file = none := by
  induction above with
  | nil => exact absurd rfl enclosed
  | cons level above ih =>
    cases named : level.name? file with
    | some name => exact ⟨[], level, above, name, rfl, named, by simp⟩
    | none =>
      rw [Level.names_cons, named, Option.toList_none, List.append_nil] at enclosed
      obtain ⟨further, inner, outer, name, rfl, innerNamed, nameless⟩ := ih enclosed
      exact ⟨level :: further, inner, outer, name, rfl, innerNamed,
        List.forall_mem_cons.mpr ⟨named, nameless⟩⟩

theorem Reached.of_above {root : Node} {visit : Visit} (reached : Reached file root visit) :
    ∀ {further : List Level} {level : Level} {outer : List Level},
      visit.above = further ++ level :: outer →
        Reached file root ⟨level.node, level.role, outer⟩ := by
  induction reached with
  | root => simp
  | child parent goes ih =>
    intro further level outer whole
    cases further with
    | nil =>
      obtain ⟨rfl, rfl⟩ := List.cons.inj whole
      exact parent
    | cons first further => exact ih (List.cons.inj whole).2

theorem Level.name?_eq_some {level : Level} {name : String}
    (named : level.name? file = some name) :
    level.role.isNode = true ∧ level.node.kind.isNamespace = true ∧
      Naming.isConstantPath name = true ∧ file.fieldText level.node .name = name := by
  simp only [Level.name?, Option.ite_none_right_eq_some, Bool.and_eq_true,
    Option.some.injEq] at named
  obtain ⟨⟨⟨⟨isNode, isNamespace⟩, path⟩, _⟩, rfl⟩ := named
  exact ⟨isNode, isNamespace, path, rfl⟩

theorem FileContext.declares_of_isNamespace {node : Node}
    (isNamespace : node.kind.isNamespace = true)
    (path : Naming.isConstantPath (file.fieldText node .name) = true) :
    file.declares node = true := by
  unfold FileContext.declares
  cases kind : node.kind <;> simp_all [NodeKind.isNamespace]

theorem name_of_isNamespace {insertion : Insertion} {scope : Scope}
    (nesting : scope.nesting = insertion.visit.enclosingNames file)
    (inserted : insertion.entry ∈ insertion.visit.entries file scope)
    (isNamespace : insertion.visit.node.kind.isNamespace = true) :
    insertion.entry.name = Naming.qualify (insertion.visit.enclosingNames file)
      (file.fieldText insertion.visit.node .name) := by
  obtain ⟨earlier, visit, entry⟩ := insertion
  simp only at nesting inserted isNamespace ⊢
  have fits := visit.fits_form file
  cases inserts_of_mem_entries file inserted with
  | classOrModule form => rw [← nesting]; rfl
  | constant form =>
    rw [form] at fits
    cases kind : visit.node.kind <;>
      simp_all [Form.Fits, NodeKind.isNamespace, NodeKind.isAssignment]
  | method form =>
    rw [form] at fits
    cases kind : visit.node.kind <;>
      simp_all [Form.Fits, NodeKind.isNamespace, NodeKind.isMethod]
  | accessor form =>
    rw [form] at fits
    rw [fits.1] at isNamespace
    cases isNamespace

theorem owner_of_mem_entries {insertion : Insertion} {scope : Scope} {owner : Option String}
    {parameters : List Parameter}
    (nesting : scope.nesting = insertion.visit.enclosingNames file)
    (inserted : insertion.entry ∈ insertion.visit.entries file scope)
    (isMethod : insertion.entry.kind = .method owner parameters) :
    owner = Naming.namespaceOf (insertion.visit.enclosingNames file) := by
  obtain ⟨earlier, visit, entry⟩ := insertion
  simp only at nesting inserted isMethod ⊢
  rw [← nesting]
  cases inserts_of_mem_entries file inserted with
  | classOrModule form =>
    rcases namespaceKind_cases file visit.node with ⟨superclass, kind⟩ | kind <;>
      simp [FileContext.entry, kind] at isMethod
  | constant form =>
    rcases constantKind_cases file visit.node scope.nesting with kind | ⟨value, kind⟩ <;>
      simp [FileContext.entry, kind] at isMethod
  | method form => exact (EntryKind.method.inj isMethod).1.symm
  | accessor form => exact (EntryKind.method.inj isMethod).1.symm

namespace Insertion.StandsIn

variable {inner outer : Insertion} {name : String}

theorem enclosingNames_eq (stands : inner.StandsIn file outer name) :
    inner.visit.enclosingNames file = outer.visit.enclosingNames file ++ [name] := by
  obtain ⟨further, index, child, whole, named, nameless⟩ := stands
  rw [Visit.enclosingNames, Visit.enclosingNames, whole, Level.names_append_of_nameless nameless,
    Level.names_cons, named]
  rfl

theorem namespaceOf_eq (stands : inner.StandsIn file outer name) {root : Node}
    (member : outer ∈ insertionsOf file root) (once : Naming.isRootedTwice name = false) :
    Naming.namespaceOf (inner.visit.enclosingNames file) = some outer.entry.name := by
  rw [stands.enclosingNames_eq, Naming.namespaceOf_concat _ once]
  obtain ⟨_, _, _, _, named, _⟩ := stands
  obtain ⟨_, isNamespace, _, written⟩ := Level.name?_eq_some named
  obtain ⟨moment, met, _, visit, inserted⟩ := mem_insertionsOf file member
  have nesting := nesting_eq_enclosingNames met
  rw [← visit] at nesting inserted
  rw [name_of_isNamespace nesting inserted isNamespace, written]

end Insertion.StandsIn

theorem exists_standsIn {root : Node} {inner : Insertion} (member : inner ∈ insertionsOf file root)
    (enclosed : inner.visit.enclosingNames file ≠ []) :
    ∃ outer ∈ insertionsOf file root, ∃ name, inner.StandsIn file outer name := by
  obtain ⟨further, level, above, name, whole, named, nameless⟩ := Level.exists_innermost enclosed
  obtain ⟨isNode, isNamespace, path, written⟩ := Level.name?_eq_some named
  obtain ⟨moment, met, _, visit, _⟩ := mem_insertionsOf file member
  have reached := (visit ▸ reached_of_moment file met).of_above whole
  obtain ⟨outer, outerMember, same⟩ := (exists_insertion_iff file).mpr
    ⟨reached, isNode, file.declares_of_isNamespace isNamespace (written ▸ path)⟩
  refine ⟨outer, outerMember, name, further, level.index, level.child, ?_, ?_, nameless⟩
  · rw [same]
    exact whole
  · rw [same]
    exact named

variable (file) in
/-- The full name of a class or module is the namespace of what stands in its body: its contents
are named by its own entry, and its methods owned by it, as long as its name is not rooted twice. -/
theorem contents_named_after_entry (root : Node) :
    (∀ names name, Naming.isRootedTwice name = false →
      Naming.namespaceOf (names ++ [name]) = some (Naming.qualify names name)) ∧
    (changesOf file root).filterMap Change.declared? =
      (insertionsOf file root).map Insertion.entry ∧
    ∀ inner ∈ insertionsOf file root,
      (inner.visit.enclosingNames file ≠ [] →
        ∃ outer ∈ insertionsOf file root, ∃ name, inner.StandsIn file outer name) ∧
      ∀ outer ∈ insertionsOf file root, ∀ name, inner.StandsIn file outer name →
        Naming.isRootedTwice name = false →
          (∀ owner parameters, inner.entry.kind = .method owner parameters →
            owner = some outer.entry.name) ∧
          (inner.entry.isMethod = false →
            ∃ own, file.localName? inner.visit.node = some own ∧
              (Naming.isRooted own = false →
                inner.entry.name = outer.entry.name ++ Naming.separator ++ own)) := by
  refine ⟨fun names name => Naming.namespaceOf_concat names, declared_eq_insertions file root, ?_⟩
  intro inner member
  refine ⟨exists_standsIn member, fun outer outerMember name stands once => ?_⟩
  have space := stands.namespaceOf_eq outerMember once
  obtain ⟨moment, met, _, visit, inserted⟩ := mem_insertionsOf file member
  have nesting := nesting_eq_enclosingNames met
  rw [← visit] at nesting inserted
  constructor
  · intro owner parameters isMethod
    rw [owner_of_mem_entries nesting inserted isMethod, space]
  · intro isConstant
    obtain ⟨own, written, full⟩ := exists_localName_of_mem_entries nesting inserted isConstant
    refine ⟨own, written, fun rootless => ?_⟩
    rw [full, Naming.qualify_of_namespaceOf space rootless]

end

theorem alias_named_after_rooted_class :
    ∃ inner ∈ insertionsOf rootedClassFile rootedClassTree,
      ∃ outer ∈ insertionsOf rootedClassFile rootedClassTree,
        inner.StandsIn rootedClassFile outer "::B" ∧
        inner.visit.enclosingNames rootedClassFile = ["A", "::B"] ∧
        Naming.isRootedTwice "::B" = false ∧ Naming.isRooted "C" = false ∧
        inner.entry.name = outer.entry.name ++ Naming.separator ++ "C" ∧
        inner.entry.name = "B::C" := by
  let inner := (insertionsOf rootedClassFile rootedClassTree).get ⟨2, by decide +kernel⟩
  have member : inner ∈ insertionsOf rootedClassFile rootedClassTree := List.get_mem ..
  have around : inner.visit.enclosingNames rootedClassFile = ["A", "::B"] := by decide +kernel
  have once : Naming.isRootedTwice "::B" = false := by decide
  have rootless : Naming.isRooted "C" = false := by decide
  obtain ⟨enclosed, under⟩ :=
    (contents_named_after_entry rootedClassFile rootedClassTree).2.2 inner member
  obtain ⟨outer, outerMember, name, stands⟩ := enclosed (by rw [around]; simp)
  obtain rfl : "::B" = name := by
    have last := congrArg List.getLast? (around.symm.trans stands.enclosingNames_eq)
    simpa using last
  obtain ⟨own, written, named⟩ :=
    (under outer outerMember "::B" stands once).2 (by decide +kernel)
  have short : rootedClassFile.localName? inner.visit.node = some "C" := by decide +kernel
  obtain rfl : "C" = own := Option.some.inj (short.symm.trans written)
  exact ⟨inner, member, outer, outerMember, stands, around, once, rootless, named rootless,
    by decide +kernel⟩

end DeclarationIndex
