import DeclarationIndex.Index.Search
import DeclarationIndex.Proofs.Index.Log
import DeclarationIndex.Proofs.Text.ByteOrder

/-!
A search by the beginning of a name cuts one block out of the whole index in the order of its names.
The names with a beginning stand together there, since what lies between two of them has the same
beginning; so a longer beginning cuts a block out of the block.
-/

namespace DeclarationIndex

theorem prefix_of_between {beginning low middle high : List Char} (begins : beginning <+: low)
    (ends : beginning <+: high) (above : low < middle) (below : middle < high) :
    beginning <+: middle := by
  induction beginning generalizing low middle high with
  | nil => exact List.nil_prefix
  | cons c rest ih =>
    obtain ⟨_, rfl⟩ := begins
    obtain ⟨_, rfl⟩ := ends
    cases middle with
    | nil => exact absurd above (List.not_lt_nil _)
    | cons d others =>
      simp only [List.cons_append, List.cons_lt_cons_iff] at above below
      rcases above with less | ⟨rfl, aboveRest⟩
      · rcases below with more | ⟨rfl, _⟩
        · exact absurd more (Char.lt_asymm less)
        · exact absurd less (Char.lt_irrefl _)
      · rcases below with more | ⟨_, belowRest⟩
        · exact absurd more (Char.lt_irrefl _)
        · have later := ih (List.prefix_append ..) (List.prefix_append ..) aboveRest belowRest
          exact (List.prefix_cons_inj c).mpr later

section
variable {α : Type} {keep : α → Bool}

theorem filter_prefix_of_closed {list : List α}
    (closed : list.Pairwise fun first second => keep second = true → keep first = true) :
    list.filter keep <+: list := by
  induction list with
  | nil => exact List.prefix_rfl
  | cons first rest ih =>
    obtain ⟨closedHere, closedRest⟩ := List.pairwise_cons.mp closed
    by_cases kept : keep first = true
    · rw [List.filter_cons_of_pos kept]
      exact (List.prefix_cons_inj first).mpr (ih closedRest)
    · have none : rest.filter keep = [] := by
        apply List.filter_eq_nil_iff.mpr
        intro other member keptToo
        exact kept (closedHere other member keptToo)
      rw [List.filter_cons_of_neg kept, none]
      exact List.nil_prefix

theorem filter_infix_of_convex {list : List α} {before : α → α → Prop}
    (sorted : list.Pairwise before)
    (convex : ∀ low middle high, before low middle → before middle high →
      keep low = true → keep high = true → keep middle = true) :
    list.filter keep <:+: list := by
  induction list with
  | nil => exact List.infix_rfl
  | cons first rest ih =>
    obtain ⟨least, sortedRest⟩ := List.pairwise_cons.mp sorted
    by_cases kept : keep first = true
    · -- what is kept reaches without a gap from the first one to the last
      have closed : rest.Pairwise fun middle high => keep high = true → keep middle = true :=
        sortedRest.imp_of_mem fun member _ below => convex first _ _ (least _ member) below kept
      rw [List.filter_cons_of_pos kept]
      exact ((List.prefix_cons_inj first).mpr (filter_prefix_of_closed closed)).isInfix
    · rw [List.filter_cons_of_neg kept]
      exact List.infix_cons (ih sortedRest)

end

namespace Index

theorem beginsWith_iff {beginning name : String} :
    beginsWith beginning name = true ↔ ∃ rest, name = beginning ++ rest := by
  rw [beginsWith, List.isPrefixOf_iff_prefix]
  constructor
  · intro ⟨rest, whole⟩
    refine ⟨String.ofList rest, String.toList_injective ?_⟩
    rw [String.toList_append, String.toList_ofList, whole]
  · intro ⟨rest, whole⟩
    rw [whole, String.toList_append]
    exact List.prefix_append ..

theorem beginsWith_of_between {beginning low middle high : String} (above : low < middle)
    (below : middle < high) (begins : beginsWith beginning low = true)
    (ends : beginsWith beginning high = true) : beginsWith beginning middle = true :=
  List.isPrefixOf_iff_prefix.mpr (prefix_of_between (List.isPrefixOf_iff_prefix.mp begins)
    (List.isPrefixOf_iff_prefix.mp ends) (String.lt_iff_toList_lt.mp above)
    (String.lt_iff_toList_lt.mp below))

variable (index : Index)

theorem mergeSort_filter (keep : String → Bool) (texts : List String) :
    (texts.filter keep).mergeSort (fun first second => first ≤ second) =
      (texts.mergeSort fun first second => first ≤ second).filter keep := by
  have perm : ((texts.filter keep).mergeSort fun first second => first ≤ second).Perm
      ((texts.mergeSort fun first second => first ≤ second).filter keep) :=
    (List.mergeSort_perm _ _).trans ((List.mergeSort_perm _ _).symm.filter keep)
  exact perm.eq_of_pairwise (fun _ _ _ _ below above => String.le_antisymm below above)
    (pairwise_mergeSort_le _) ((pairwise_mergeSort_le _).filter keep)

theorem startingWith_eq (beginning : String) :
    index.startingWith beginning =
      (index.names.filter (beginsWith beginning)).flatMap index.get := by
  let found := index.buckets.filter fun bucket => beginsWith beginning bucket.name
  let sorted := found.mergeSort fun first second => first.name ≤ second.name
  have named : sorted.map Bucket.name = index.names.filter (beginsWith beginning) := by
    calc
      sorted.map Bucket.name
        = (found.map Bucket.name).mergeSort fun first second => first ≤ second :=
          List.map_mergeSort fun _ _ _ _ => rfl
      _ = ((index.buckets.map Bucket.name).filter (beginsWith beginning)).mergeSort
            fun first second => first ≤ second := by rw [List.filter_map]; rfl
      _ = index.names.filter (beginsWith beginning) := mergeSort_filter _ _
  calc
    index.startingWith beginning = sorted.flatMap Bucket.entries := rfl
    _ = sorted.flatMap fun bucket => index.get bucket.name := by
      apply List.flatMap_congr
      intro bucket member
      have held := (List.mem_filter.mp ((List.mergeSort_perm _ _).mem_iff.mp member)).1
      exact (get_of_mem_buckets held).symm
    _ = (sorted.map Bucket.name).flatMap index.get := (List.flatMap_map ..).symm
    _ = (index.names.filter (beginsWith beginning)).flatMap index.get := by rw [named]

theorem infix_flatMap {few many : List String} (inside : few <:+: many) :
    few.flatMap index.get <:+: many.flatMap index.get := by
  obtain ⟨front, back, rfl⟩ := inside
  exact ⟨front.flatMap index.get, back.flatMap index.get, by simp⟩

theorem startingWith_append_infix (beginning continuation : String) :
    index.startingWith (beginning ++ continuation) <:+: index.startingWith beginning := by
  have narrower : (index.names.filter (beginsWith beginning)).filter
      (beginsWith (beginning ++ continuation)) =
        index.names.filter (beginsWith (beginning ++ continuation)) := by
    rw [List.filter_filter]
    apply List.filter_congr
    intro name _
    rw [Bool.and_eq_left_iff_imp]
    intro begins
    obtain ⟨rest, rfl⟩ := beginsWith_iff.mp begins
    exact beginsWith_iff.mpr ⟨continuation ++ rest, String.append_assoc ..⟩
  rw [startingWith_eq, startingWith_eq, ← narrower]
  apply infix_flatMap
  exact filter_infix_of_convex (index.names_pairwise_lt.filter _)
    fun _ _ _ above below => beginsWith_of_between above below

theorem startingWith_empty_perm : (index.startingWith "").Perm index.entries := by
  have all : index.buckets.filter (fun bucket => beginsWith "" bucket.name) = index.buckets :=
    List.filter_eq_self.mpr fun bucket _ => beginsWith_iff.mpr ⟨bucket.name, by simp⟩
  rw [startingWith, all]
  exact (List.mergeSort_perm _ _).flatMap_right _

/-- What a search by the beginning finds is what stands under the names that begin so, in the order
of their bytes. It is a block of what the empty beginning finds, which is every entry once; and a
longer beginning finds a block of it. -/
theorem startingWith_is_slice (index : Index) (beginning continuation : String) :
    (∃ names : List String,
      (names.Pairwise fun first second => utf8Bytes first < utf8Bytes second) ∧
      (∀ name, name ∈ names ↔
        index.contains name = true ∧ ∃ rest, name = beginning ++ rest) ∧
      index.startingWith beginning = names.flatMap index.get) ∧
    index.startingWith beginning <:+: index.startingWith "" ∧
    (index.startingWith "").Perm index.entries ∧
    index.startingWith (beginning ++ continuation) <:+: index.startingWith beginning := by
  refine ⟨⟨index.names.filter (beginsWith beginning), ?_, ?_, index.startingWith_eq beginning⟩,
    ?_, index.startingWith_empty_perm, index.startingWith_append_infix beginning continuation⟩
  · exact (index.names_pairwise_lt.filter _).imp fun less => (lt_iff_utf8Bytes_lt _ _).mp less
  · intro name
    rw [List.mem_filter, ← contains_iff_mem_names, beginsWith_iff]
  · have whole := index.startingWith_append_infix "" beginning
    rwa [String.empty_append] at whole

end Index

end DeclarationIndex
