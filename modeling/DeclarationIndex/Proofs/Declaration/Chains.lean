import DeclarationIndex.Proofs.Declaration.Assignments
import Mathlib.Data.List.Chain

/-!
Assignments to constants whose values are assignments again, as in `A = B = 1`. Such a chain is
walked from its end, one insertion after the other, and each constant becomes an alias of the one
assigned next. Two tests decide this: whether the value assigns anything that is read as a constant
makes the alias, and whether it assigns a path of constants makes the insertion. They disagree on
constants of a dynamic receiver, as in `A = foo::B = 1`, and on nothing else.
-/

namespace DeclarationIndex

/-- A constant of something that is only known when the program runs. -/
def isDynamicPath (node : Node) : Bool :=
  readsConstant node && !isStaticPath node

def Node.assignsDynamically (node : Node) : Bool :=
  (node.child? .left).any isDynamicPath

theorem readsConstant_of_isStaticPath {node : Node} (static : isStaticPath node = true) :
    readsConstant node = true := by
  obtain ⟨kind, named, field, span, children⟩ := node
  cases kind <;> simp_all [isStaticPath, readsConstant, Node.child?]

theorem flatMap_range_eq_of_only {α : Type} {through : Nat → List α} {count index : Nat}
    (inside : index < count) (others : ∀ other, other ≠ index → through other = []) :
    (List.range count).flatMap through = through index := by
  induction count with
  | zero => omega
  | succ count ih =>
    rw [List.range_succ, List.flatMap_append, List.flatMap_singleton]
    rcases Nat.lt_succ_iff_lt_or_eq.mp inside with before | rfl
    · rw [ih before, others count (by omega), List.append_nil]
    · have absent : (List.range index).flatMap through = [] :=
        List.flatMap_eq_nil_iff.mpr fun other member =>
          others other (by have := List.mem_range.mp member; omega)
      rw [absent, List.nil_append]

section
variable {file : FileContext}

/-- That a visit is of an assignment to a constant and the other one of its value, which is again
an assignment. -/
structure Visit.ChainsTo (outer inner : Visit) : Prop where
  assigns : outer.AssignsConstant
  chained : inner.node.kind.isAssignment = true
  isValue : ∃ index, outer.node.children[index]? = some inner.node ∧
    isFirstWith .right (outer.node.children.take index) inner.node = true ∧
    inner = outer.child index inner.node .plain

namespace Visit.ChainsTo

variable {outer inner : Visit}

theorem role_eq (chains : outer.ChainsTo inner) : inner.role = .plain := by
  obtain ⟨_, _, _, same⟩ := chains.isValue
  rw [same]
  rfl

theorem assigns_inner (chains : outer.ChainsTo inner)
    (assigns : inner.node.assignsConstant = true) : inner.AssignsConstant :=
  ⟨by rw [chains.role_eq]; rfl, assigns⟩

theorem child?_right (chains : outer.ChainsTo inner) :
    outer.node.child? .right = some inner.node := by
  obtain ⟨index, found, first, _⟩ := chains.isValue
  exact (Node.child?_eq_some_iff
    (NodeKind.ne_error_of_isAssignment chains.assigns.isAssignment)).mpr ⟨index, found, first⟩

theorem readsConstant_eq (chains : outer.ChainsTo inner) : readsConstant inner.node = false := by
  have chained := chains.chained
  unfold readsConstant
  cases kind : inner.node.kind <;> simp_all [NodeKind.isAssignment]

theorem valueIsConstant_eq (chains : outer.ChainsTo inner) :
    outer.node.valueIsConstant = false := by
  rw [Node.valueIsConstant, chains.child?_right, Option.any_some, chains.readsConstant_eq]

theorem into_eq {target : Node} {earlier : List Node} {child : Node}
    (chains : outer.ChainsTo inner) :
    (Form.constant target).into outer.node .before earlier child =
      if isFirstWith .right earlier child then some .plain else none := by
  simp [Form.into, chains.valueIsConstant_eq]

variable (file) in
theorem goesTo (chains : outer.ChainsTo inner) :
    ∃ index, outer.GoesTo file index inner.node .plain ∧
      inner = outer.child index inner.node .plain := by
  obtain ⟨index, found, first, same⟩ := chains.isValue
  obtain ⟨target, _, form⟩ := chains.assigns.form file
  exact ⟨index, ⟨found, .before, by rw [form, chains.into_eq, if_pos first]⟩, same⟩

theorem reached {root : Node} (chains : outer.ChainsTo inner) (reached : Reached file root outer) :
    Reached file root inner := by
  obtain ⟨_, goes, same⟩ := chains.goesTo file
  exact same ▸ reached.child goes

theorem enclosingNames_eq (chains : outer.ChainsTo inner) :
    inner.enclosingNames file = outer.enclosingNames file := by
  obtain ⟨index, ⟨_, stage, into⟩, same⟩ := chains.goesTo file
  obtain ⟨target, _, form⟩ := chains.assigns.form file
  rw [same, enclosingNames, child, Level.names_of_into index outer.above into]
  rw [Visit.form] at form
  rw [form]
  rfl

end Visit.ChainsTo

theorem Visit.AssignsConstant.exists_chainsTo {outer : Visit} {value : Node}
    (assigns : outer.AssignsConstant) (isValue : outer.node.child? .right = some value)
    (chained : value.kind.isAssignment = true) :
    ∃ inner, outer.ChainsTo inner ∧ inner.node = value := by
  obtain ⟨index, found, first⟩ := (Node.child?_eq_some_iff
    (NodeKind.ne_error_of_isAssignment assigns.isAssignment)).mp isValue
  exact ⟨outer.child index value .plain, ⟨assigns, chained, index, found, first, rfl⟩, rfl⟩

theorem assignsConstant_of_chain {first : Visit} {inners : List Visit}
    (assigns : first.AssignsConstant) (chain : (first :: inners).IsChain Visit.ChainsTo)
    (assign : ∀ inner ∈ inners, inner.node.assignsConstant = true) :
    ∀ visit ∈ first :: inners, visit.AssignsConstant := by
  induction inners generalizing first with
  | nil => simpa using assigns
  | cons inner rest ih =>
    obtain ⟨link, further⟩ := List.isChain_cons_cons.mp chain
    have next := link.assigns_inner (assign inner (List.mem_cons_self ..))
    refine List.forall_mem_cons.mpr ⟨assigns, ih next further fun visit member => ?_⟩
    exact assign visit (List.mem_cons_of_mem _ member)

namespace Tour

theorem ofVisit_of_chainsTo {outer inner : Visit} (chains : outer.ChainsTo inner) :
    ofVisit file outer = ofVisit file inner ++ [.meet outer] := by
  obtain ⟨index, found, first, same⟩ := chains.isValue
  obtain ⟨target, _, form⟩ := chains.assigns.form file
  have inside := (List.getElem?_eq_some_iff.mp found).1
  have into : (outer.form file).into outer.node .before (outer.node.children.take index)
      inner.node = some .plain := by rw [form, chains.into_eq, if_pos first]
  have others (other : Nat) (different : other ≠ index) :
      through file outer.above outer.role outer.node .before other = [] := by
    unfold through
    split
    · rfl
    · rename_i sibling foundOther
      rw [Visit.form] at form
      rw [form, chains.into_eq]
      by_cases firstOther : isFirstWith .right (outer.node.children.take other) sibling = true
      · rw [isFirstWith_iff_findIdx? foundOther] at firstOther
        rw [isFirstWith_iff_findIdx? found, firstOther] at first
        exact absurd (Option.some.inj first) different
      · rw [if_neg firstOther]
  rw [ofVisit_of_assignsConstant chains.assigns, flatMap_range_eq_of_only inside others,
    through_of_into found into, ← same]

variable (file) in
theorem exists_ofVisit_of_chain {visit : Visit} {inners : List Visit}
    (chain : (visit :: inners).IsChain Visit.ChainsTo)
    (assign : ∀ member ∈ visit :: inners, member.AssignsConstant) :
    ∃ before, ofVisit file visit = before ++ (visit :: inners).reverse.map .meet := by
  induction inners generalizing visit with
  | nil =>
    exact ⟨_, ofVisit_of_assignsConstant (assign visit (List.mem_cons_self ..))⟩
  | cons inner rest ih =>
    obtain ⟨link, further⟩ := List.isChain_cons_cons.mp chain
    obtain ⟨before, whole⟩ := ih further
      fun member inside => assign member (List.mem_cons_of_mem _ inside)
    refine ⟨before, ?_⟩
    -- an assignment is visited right after its value, so the rest of the chain comes first
    rw [ofVisit_of_chainsTo link, whole]
    simp

end Tour

theorem exists_insertions_of_chain {root : Node} {visit : Visit} {inners : List Visit}
    (reached : Reached file root visit) (chain : (visit :: inners).IsChain Visit.ChainsTo)
    (assign : ∀ member ∈ visit :: inners, member.AssignsConstant) :
    ∃ insertions, insertions <:+: insertionsOf file root ∧
      insertions.map Insertion.visit = (visit :: inners).reverse := by
  obtain ⟨earlier, scope, inside⟩ := exists_moments_infix file reached
  obtain ⟨before, whole⟩ := Tour.exists_ofVisit_of_chain file chain assign
  rw [whole, Tour.moments_append] at inside
  let part := Tour.moments file (earlier ++ Tour.visits before)
    (Tour.scopeAfter file scope before) ((visit :: inners).reverse.map .meet)
  have partInside : part <:+: momentsOf file root := (List.suffix_append ..).isInfix.trans inside
  have visits : part.map Moment.visit = (visit :: inners).reverse := by
    rw [Tour.map_visit_moments, Tour.visits, List.flatMap_map]
    exact (List.flatMap_singleton' _)
  have assigned : ∀ moment ∈ part, moment.visit.AssignsConstant := by
    intro moment member
    refine assign _ (List.mem_reverse.mp ?_)
    rw [← visits]
    exact List.mem_map_of_mem member
  refine ⟨part.flatMap (·.insertions file), insertions_infix file partInside, ?_⟩
  rw [map_visit_insertions (fun moment member => partInside.mem member) assigned, visits]

theorem constantKind_of_chainsTo {outer inner : Visit} (chains : outer.ChainsTo inner)
    (names : List String) :
    file.constantKind outer.node names =
      if (inner.node.child? .left).any readsConstant then
        .unresolvedAlias (file.fieldText inner.node .left) names
      else .constant := by
  simp [FileContext.constantKind, chains.child?_right, chains.readsConstant_eq, writesConstant,
    chains.chained]

theorem Node.assigns_agree_iff {node : Node} (isAssignment : node.kind.isAssignment = true) :
    ((node.child? .left).any readsConstant = true ↔ node.assignsConstant = true) ↔
      node.assignsDynamically = false := by
  rw [assignsConstant, isAssignment, Bool.true_and, constantTarget?, assignsDynamically]
  cases node.child? .left with
  | none => simp
  | some left =>
    have reads := @readsConstant_of_isStaticPath left
    cases static : isStaticPath left <;> simp_all [isDynamicPath, Option.filter]

theorem inserted_iff_assignsConstant {root : Node} {outer inner : Visit}
    (reached : Reached file root outer) (chains : outer.ChainsTo inner) :
    (∃ insertion ∈ insertionsOf file root, insertion.visit = inner) ↔
      inner.node.assignsConstant = true := by
  rw [exists_insertion_iff, FileContext.declares_of_isAssignment chains.chained]
  exact ⟨fun declared => declared.2.2,
    fun assigns => ⟨chains.reached reached, (chains.assigns_inner assigns).isNode, assigns⟩⟩

variable (file) in
/-- That a constant is an alias of another one, whose name its target has where it stands. -/
def Insertion.IsAliasOf (insertion original : Insertion) : Prop :=
  ∃ target, insertion.entry.kind =
      .unresolvedAlias target (insertion.visit.enclosingNames file) ∧
    Naming.qualify (insertion.visit.enclosingNames file) target = original.entry.name

variable (file) in
structure Visit.Linked (root : Node) (outer inner : Visit) (insertion : Insertion) : Prop where
  inserted : insertion ∈ insertionsOf file root
  visit_eq : insertion.visit = outer
  only : ∀ other ∈ insertionsOf file root, other.visit = outer → other = insertion
  kind_eq : insertion.entry.kind =
    if insertion.entry.isAlias then
      .unresolvedAlias (file.fieldText inner.node .left) (outer.enclosingNames file)
    else .constant
  /-- There is an alias just where there is something to be an alias of, unless the inner assignment
  is to a constant of a dynamic receiver: then there is an alias of nothing. -/
  isAlias_iff : (insertion.entry.isAlias = true ↔
    ∃ other ∈ insertionsOf file root, other.visit = inner) ↔ inner.node.assignsDynamically = false
  alias_of : ∀ other ∈ insertionsOf file root, other.visit = inner →
    insertion.IsAliasOf file other ∧ [other, insertion] <:+: insertionsOf file root

theorem isAlias_iff_of_chainsTo {root : Node} {outer inner : Visit} {insertion : Insertion}
    (chains : outer.ChainsTo inner) (member : insertion ∈ insertionsOf file root)
    (visit : insertion.visit = outer) :
    insertion.entry.isAlias = true ↔ (inner.node.child? .left).any readsConstant = true := by
  rw [entry_of_assignsConstant member (visit ▸ chains.assigns), visit, Entry.isAlias,
    Visit.constantEntry]
  simp only [FileContext.entry, constantKind_of_chainsTo chains]
  cases (inner.node.child? .left).any readsConstant <;> simp

theorem kind_of_chainsTo {root : Node} {outer inner : Visit} {insertion : Insertion}
    (chains : outer.ChainsTo inner) (member : insertion ∈ insertionsOf file root)
    (visit : insertion.visit = outer) :
    insertion.entry.kind =
      if insertion.entry.isAlias then
        .unresolvedAlias (file.fieldText inner.node .left) (outer.enclosingNames file)
      else .constant := by
  simp only [isAlias_iff_of_chainsTo chains member visit]
  rw [entry_of_assignsConstant member (visit ▸ chains.assigns), visit, Visit.constantEntry]
  exact constantKind_of_chainsTo chains _

theorem isAliasOf_of_chainsTo {root : Node} {outer inner : Insertion}
    (chains : outer.visit.ChainsTo inner.visit) (outerMember : outer ∈ insertionsOf file root)
    (innerMember : inner ∈ insertionsOf file root)
    (assigns : inner.visit.AssignsConstant) : outer.IsAliasOf file inner := by
  obtain ⟨target, static, _⟩ := assigns.form file
  have left := Option.filter_eq_some_iff.mp static
  have reads : (inner.visit.node.child? .left).any readsConstant = true := by
    rw [left.1, Option.any_some, readsConstant_of_isStaticPath left.2]
  refine ⟨file.fieldText inner.visit.node .left, ?_, ?_⟩
  · rw [kind_of_chainsTo chains outerMember rfl,
      if_pos ((isAlias_iff_of_chainsTo chains outerMember rfl).mpr reads)]
  · rw [entry_of_assignsConstant innerMember assigns, ← chains.enclosingNames_eq]
    rfl

theorem infix_of_chainsTo {root : Node} {outer inner : Insertion}
    (chains : outer.visit.ChainsTo inner.visit) (reached : Reached file root outer.visit)
    (outerMember : outer ∈ insertionsOf file root) (innerMember : inner ∈ insertionsOf file root)
    (assigns : inner.visit.AssignsConstant) : [inner, outer] <:+: insertionsOf file root := by
  obtain ⟨insertions, inside, visits⟩ := exists_insertions_of_chain reached
    (List.isChain_pair.mpr chains) (by simp [chains.assigns, assigns])
  obtain ⟨first, later, rfl, firstVisit, rest⟩ := List.map_eq_cons_iff.mp visits
  obtain ⟨second, rfl, secondVisit⟩ := List.map_eq_singleton_iff.mp rest
  have firstEq : inner = first := insertion_unique innerMember (inside.mem (by simp))
    firstVisit.symm assigns
  have secondEq : outer = second := insertion_unique outerMember (inside.mem (by simp))
    secondVisit.symm chains.assigns
  rwa [firstEq, secondEq]

theorem exists_linked {root : Node} {outer inner : Visit} (reached : Reached file root outer)
    (chains : outer.ChainsTo inner) : ∃ insertion, outer.Linked file root inner insertion := by
  have declares : file.declares outer.node = true := by
    rw [FileContext.declares_of_isAssignment chains.assigns.isAssignment]
    exact chains.assigns.assigns
  obtain ⟨insertion, member, visit⟩ :=
    (exists_insertion_iff file).mpr ⟨reached, chains.assigns.isNode, declares⟩
  subst visit
  refine ⟨insertion, member, rfl, fun other otherMember same => ?_,
    kind_of_chainsTo chains member rfl, ?_, fun other otherMember same => ?_⟩
  · exact insertion_unique otherMember member same (same ▸ chains.assigns)
  · rw [isAlias_iff_of_chainsTo chains member rfl, inserted_iff_assignsConstant reached chains]
    exact Node.assigns_agree_iff chains.chained
  · subst same
    have assigns : other.visit.AssignsConstant := chains.assigns_inner
      ((inserted_iff_assignsConstant reached chains).mp ⟨other, otherMember, rfl⟩)
    exact ⟨isAliasOf_of_chainsTo chains member otherMember assigns,
      infix_of_chainsTo chains reached member otherMember assigns⟩

/-- Where the value of an assignment to a constant is another assignment, the constant is an alias
just when the inner assignment is inserted, and of what that inserts, right before it. The one
exception is an inner assignment to a constant of a dynamic receiver. A chain of assignments to
constants, however long, makes a chain of aliases, inserted from its end. -/
theorem chained_constants_linked {root : Node} {first : Visit} (reached : Reached file root first)
    (assigns : first.AssignsConstant) :
    (∀ value, first.node.child? .right = some value → value.kind.isAssignment = true →
      ∃ inner insertion, first.ChainsTo inner ∧ inner.node = value ∧ Reached file root inner ∧
        first.Linked file root inner insertion) ∧
    ∀ inners, (first :: inners).IsChain Visit.ChainsTo →
      (∀ inner ∈ inners, inner.node.assignsConstant = true) →
      ∃ insertions, insertions <:+: insertionsOf file root ∧
        insertions.map Insertion.visit = (first :: inners).reverse ∧
        insertions.IsChain fun inner outer => outer.IsAliasOf file inner := by
  constructor
  · intro value isValue chained
    obtain ⟨inner, chains, same⟩ := assigns.exists_chainsTo isValue chained
    obtain ⟨insertion, linked⟩ := exists_linked reached chains
    exact ⟨inner, insertion, chains, same, chains.reached reached, linked⟩
  · intro inners chain assign
    have assign := assignsConstant_of_chain assigns chain assign
    obtain ⟨insertions, inside, visits⟩ := exists_insertions_of_chain reached chain assign
    refine ⟨insertions, inside, visits, ?_⟩
    have links : insertions.IsChain fun inner outer => outer.visit.ChainsTo inner.visit := by
      have mapped : (insertions.map Insertion.visit).IsChain fun inner outer =>
          outer.ChainsTo inner := by
        rw [visits, List.isChain_reverse]
        exact chain
      exact (List.isChain_map Insertion.visit).mp mapped
    refine (List.IsChain.iff_mem.mp links).imp ?_
    rintro inner outer ⟨innerMember, outerMember, link⟩
    have innerAssigns : inner.visit.AssignsConstant := by
      refine assign _ (List.mem_reverse.mp ?_)
      rw [← visits]
      exact List.mem_map_of_mem innerMember
    exact isAliasOf_of_chainsTo link (inside.mem outerMember) (inside.mem innerMember) innerAssigns

end

/-- The single line `A = B = C = 1`. -/
def chainTree : Node :=
  let target (start : Nat) : Node :=
    ⟨.constant, true, some .left, .onRow start (start + 1) 0 start, []⟩
  let number : Node := ⟨.other "integer", true, some .right, .onRow 12 13 0 12, []⟩
  let inmost : Node := ⟨.assignment, true, some .right, .onRow 8 13 0 8, [target 8, number]⟩
  let inner : Node := ⟨.assignment, true, some .right, .onRow 4 13 0 4, [target 4, inmost]⟩
  let outer : Node := ⟨.assignment, true, none, .onRow 0 13 0 0, [target 0, inner]⟩
  ⟨.program, true, none, .onRow 0 13 0 0, [outer]⟩

def chainFile : FileContext where
  path := "a.rb"
  source := SourceText.ofString "A = B = C = 1"
  documentation := ⟨[], fun _ => false⟩

def Visit.childAt (visit : Visit) (index : Nat) : Visit :=
  visit.child index visit.node.children[index]! .plain

theorem three_constants_chained :
    ∃ first inners, Reached chainFile chainTree first ∧ first.AssignsConstant ∧
      (first :: inners).IsChain Visit.ChainsTo ∧
      (∃ value, first.node.child? .right = some value ∧ value.kind.isAssignment = true ∧
        ∃ inner insertion, first.ChainsTo inner ∧ inner.node = value ∧
          first.Linked chainFile chainTree inner insertion) ∧
      ∃ insertions : List Insertion,
        insertions.map Insertion.visit = (first :: inners).reverse ∧
        (insertions.IsChain fun inner outer => outer.IsAliasOf chainFile inner) ∧
        insertions.map (·.entry.name) = ["C", "B", "A"] := by
  let root : Visit := ⟨chainTree, .plain, []⟩
  let first := root.childAt 0
  have reached : Reached chainFile chainTree first :=
    .child .root ⟨rfl, .after, rfl⟩
  have assigns : first.AssignsConstant := ⟨rfl, by decide +kernel⟩
  have link : first.ChainsTo (first.childAt 1) := ⟨assigns, rfl, 1, rfl, by decide +kernel, rfl⟩
  have nextAssigns : (first.childAt 1).AssignsConstant := ⟨rfl, by decide +kernel⟩
  have nextLink : (first.childAt 1).ChainsTo ((first.childAt 1).childAt 1) :=
    ⟨nextAssigns, rfl, 1, rfl, by decide +kernel, rfl⟩
  have chain : [first, first.childAt 1, (first.childAt 1).childAt 1].IsChain Visit.ChainsTo := by
    simp [link, nextLink]
  obtain ⟨links, chains⟩ := chained_constants_linked reached assigns
  obtain ⟨inner, insertion, linked⟩ := links _ link.child?_right rfl
  obtain ⟨insertions, inside, visits, aliases⟩ := chains _ chain (by decide +kernel)
  have whole : insertions = insertionsOf chainFile chainTree := by
    refine inside.eq_of_length ?_
    rw [← List.length_map, visits]
    decide +kernel
  exact ⟨first, _, reached, assigns, chain,
    ⟨_, link.child?_right, rfl, inner, insertion, linked.1, linked.2.1, linked.2.2.2⟩,
    insertions, visits, aliases, by rw [whole]; decide +kernel⟩

/-- The single line `A = foo::Bar = 1`. -/
def dynamicChainTree : Node :=
  let receiver : Node := ⟨.identifier, true, some .scope, .onRow 4 7 0 4, []⟩
  let name : Node := ⟨.constant, true, some .name, .onRow 9 12 0 9, []⟩
  let path : Node := ⟨.scopeResolution, true, some .left, .onRow 4 12 0 4, [receiver, name]⟩
  let number : Node := ⟨.other "integer", true, some .right, .onRow 15 16 0 15, []⟩
  let inner : Node := ⟨.assignment, true, some .right, .onRow 4 16 0 4, [path, number]⟩
  let target : Node := ⟨.constant, true, some .left, .onRow 0 1 0 0, []⟩
  let outer : Node := ⟨.assignment, true, none, .onRow 0 16 0 0, [target, inner]⟩
  ⟨.program, true, none, .onRow 0 16 0 0, [outer]⟩

def dynamicChainFile : FileContext where
  path := "a.rb"
  source := SourceText.ofString "A = foo::Bar = 1"
  documentation := ⟨[], fun _ => false⟩

theorem alias_of_nothing_inserted :
    ∃ outer inner, Reached dynamicChainFile dynamicChainTree outer ∧ outer.ChainsTo inner ∧
      (∃ insertion ∈ insertionsOf dynamicChainFile dynamicChainTree, insertion.visit = outer ∧
        insertion.entry.name = "A" ∧ insertion.entry.kind = .unresolvedAlias "foo::Bar" []) ∧
      ¬ ∃ insertion ∈ insertionsOf dynamicChainFile dynamicChainTree, insertion.visit = inner := by
  let root : Visit := ⟨dynamicChainTree, .plain, []⟩
  let outer := root.childAt 0
  have reached : Reached dynamicChainFile dynamicChainTree outer := .child .root ⟨rfl, .after, rfl⟩
  have assigns : outer.AssignsConstant := ⟨rfl, by decide +kernel⟩
  have link : outer.ChainsTo (outer.childAt 1) := ⟨assigns, rfl, 1, rfl, by decide +kernel, rfl⟩
  have unassigned : (outer.childAt 1).node.assignsConstant = false := by decide +kernel
  refine ⟨outer, outer.childAt 1, reached, link, ?_, ?_⟩
  · obtain ⟨insertion, member, visit⟩ := (exists_insertion_iff dynamicChainFile).mpr
      ⟨reached, assigns.isNode, by decide +kernel⟩
    have entry := entry_of_assignsConstant member (visit ▸ assigns)
    rw [visit] at entry
    exact ⟨insertion, member, visit, by rw [entry]; decide +kernel, by rw [entry]; decide +kernel⟩
  · rw [inserted_iff_assignsConstant reached link, unassigned]
    decide

end DeclarationIndex
