import DeclarationIndex.Proofs.Index.History

/-!
The aliases of an index. They are sorted by their names, and the sort leaves those of one name as
they came. So where each entry stands under its own name, the aliases come name by name, and those
of one name in the order in which the index holds them.
-/

namespace DeclarationIndex

namespace Index

theorem entries_eq_map_pairs (index : Index) : index.entries = index.pairs.map (·.2) := by
  simp [entries, pairs, List.map_flatMap, Function.comp_def]

theorem filter_name_entries {index : Index} (named : index.NamedByKey) (name : String) :
    index.entries.filter (·.name = name) = index.get name := by
  have key : ∀ pair ∈ index.pairs, pair.2.name = pair.1 := by
    intro (key, entry) member
    have held : entry ∈ index.get key := by
      rw [get_eq_under]
      exact List.mem_map_of_mem (List.mem_filter.mpr ⟨member, decide_eq_true rfl⟩)
    exact named key entry held
  rw [entries_eq_map_pairs, get_eq_under, Log.under, List.filter_map]
  congr 1
  apply List.filter_congr
  intro pair member
  simp only [Function.comp_apply, key pair member]

section
variable (entries : List Entry)

def sortedByName : List Entry :=
  entries.mergeSort fun first second => first.name ≤ second.name

theorem sortedByName_perm : (sortedByName entries).Perm entries :=
  List.mergeSort_perm entries _

theorem sortedByName_pairwise :
    (sortedByName entries).Pairwise fun first second => first.name ≤ second.name := by
  have names : (sortedByName entries).map Entry.name =
      (entries.map Entry.name).mergeSort fun first second => first ≤ second :=
    List.map_mergeSort fun _ _ _ _ => rfl
  rw [← List.pairwise_map, names]
  exact pairwise_mergeSort_le _

theorem filter_name_sortedByName (name : String) :
    (sortedByName entries).filter (·.name = name) = entries.filter (·.name = name) := by
  have tied : (entries.filter (·.name = name)).Pairwise fun first second =>
      decide (first.name ≤ second.name) = true := by
    apply List.pairwise_of_forall_mem_list
    intro first memberFirst second memberSecond
    have namedFirst : first.name = name := of_decide_eq_true (List.mem_filter.mp memberFirst).2
    have namedSecond : second.name = name := of_decide_eq_true (List.mem_filter.mp memberSecond).2
    have equal : first.name = second.name := namedFirst.trans namedSecond.symm
    exact decide_eq_true (equal ▸ String.le_refl first.name)
  have inside : (entries.filter (·.name = name)).Sublist (sortedByName entries) := by
    apply List.sublist_mergeSort _ _ tied List.filter_sublist
    · exact fun first second third => decide_le_trans first.name second.name third.name
    · exact fun first second => decide_le_total first.name second.name
  have kept := inside.filter (·.name = name)
  rw [List.filter_filter] at kept
  simp only [Bool.and_self] at kept
  exact (kept.eq_of_length ((sortedByName_perm entries).filter _).length_eq.symm).symm

end

theorem mem_iff_of_filter_name_eq {first second : List Entry}
    (same : ∀ name, first.filter (·.name = name) = second.filter (·.name = name))
    (entry : Entry) : entry ∈ first ↔ entry ∈ second := by
  have named : entry ∈ first.filter (·.name = entry.name) ↔
      entry ∈ second.filter (·.name = entry.name) := by rw [same]
  simpa using named

theorem name_le_of_mem_cons {head : Entry} {tail : List Entry}
    (ascending : (head :: tail).Pairwise fun entry later => entry.name ≤ later.name)
    {entry : Entry} (member : entry ∈ head :: tail) : head.name ≤ entry.name := by
  rcases List.mem_cons.mp member with rfl | later
  · exact String.le_refl _
  · exact List.rel_of_pairwise_cons ascending later

theorem eq_of_filter_name_eq {first second : List Entry}
    (ascendingFirst : first.Pairwise fun entry later => entry.name ≤ later.name)
    (ascendingSecond : second.Pairwise fun entry later => entry.name ≤ later.name)
    (same : ∀ name, first.filter (·.name = name) = second.filter (·.name = name)) :
    first = second := by
  have mem_iff := mem_iff_of_filter_name_eq same
  induction first generalizing second with
  | nil =>
    symm
    rw [List.eq_nil_iff_forall_not_mem]
    intro entry member
    cases (mem_iff entry).mpr member
  | cons entry rest ih =>
    cases second with
    | nil => cases (mem_iff entry).mp (List.mem_cons_self ..)
    | cons other others =>
      -- both heads have the least name, and each is the first entry of that name
      have tied : other.name = entry.name := String.le_antisymm
        (name_le_of_mem_cons ascendingSecond ((mem_iff entry).mp (List.mem_cons_self ..)))
        (name_le_of_mem_cons ascendingFirst ((mem_iff other).mpr (List.mem_cons_self ..)))
      have heads := same entry.name
      simp only [List.filter_cons, tied, decide_true, if_true] at heads
      obtain ⟨rfl, _⟩ := List.cons.inj heads
      have sameRest : ∀ name, rest.filter (·.name = name) = others.filter (·.name = name) := by
        intro name
        have whole := same name
        rw [List.filter_cons, List.filter_cons] at whole
        split at whole
        · exact (List.cons.inj whole).2
        · exact whole
      rw [ih ascendingFirst.of_cons ascendingSecond.of_cons sameRest
        (mem_iff_of_filter_name_eq sameRest)]

/-- The aliases of an index in the order that is asked of them: each once, name by name, and those
of one name as the index holds them. -/
structure AliasesInOrder (index : Index) : Prop where
  once : index.aliases.Perm (index.entries.filter Entry.isAlias)
  ascending : index.aliases.Pairwise fun first second => first.name ≤ second.name
  stable : ∀ name,
    index.aliases.filter (·.name = name) = (index.get name).filter Entry.isAlias

theorem aliasesInOrder {index : Index} (named : index.NamedByKey) : index.AliasesInOrder where
  once := sortedByName_perm _
  ascending := sortedByName_pairwise _
  stable name := by
    have kept : index.aliases.filter (·.name = name) =
        (index.entries.filter Entry.isAlias).filter (·.name = name) :=
      filter_name_sortedByName _ name
    rw [kept, List.filter_filter, ← filter_name_entries named, List.filter_filter]
    simp only [Bool.and_comm]

theorem aliases_congr {first second : Index} (same : ∀ name, first.get name = second.get name)
    (namedFirst : first.NamedByKey) (namedSecond : second.NamedByKey) :
    first.aliases = second.aliases := by
  have inFirst := aliasesInOrder namedFirst
  have inSecond := aliasesInOrder namedSecond
  apply eq_of_filter_name_eq inFirst.ascending inSecond.ascending
  intro name
  rw [inFirst.stable, inSecond.stable, same]

end Index

end DeclarationIndex
