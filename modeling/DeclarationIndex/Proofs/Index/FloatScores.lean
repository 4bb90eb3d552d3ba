import DeclarationIndex.Proofs.Index.Ranking
import DeclarationIndex.Proofs.Similarity.Order

/-!
A search by likeness with floating-point scores. It ranks the names as if each score were its rank
in a linear order, so the names and their scores settle the ranking; and nothing reaches a threshold
that is no number.
-/

namespace DeclarationIndex

namespace Index

theorem IsRanking.unique {Score : Type} [LinearOrder Score] {score : String → Score}
    {threshold : Score} {first second : Index} {one other : List String}
    (rankedOne : first.IsRanking score threshold one)
    (rankedOther : second.IsRanking score threshold other)
    (same : ∀ name, first.contains name = second.contains name) : one = other := by
  have enough : ∀ name ∈ other, threshold ≤ score name :=
    fun name member => ((rankedOther.mem name).mp member).2
  have held : ∀ name ∈ other, first.contains name = true := by
    intro name member
    rw [same]
    exact ((rankedOther.mem name).mp member).1
  have covered : ∀ name ∈ one, name ∈ other := by
    intro name member
    rw [rankedOther.mem, ← same]
    exact (rankedOne.mem name).mp member
  rw [rankedOne.eq_filter rankedOther.ordered enough covered, List.filter_eq_self.mpr held]

variable (index : Index) (score : String → Float) {threshold : Float}

theorem reaching_eq_nil (noNumber : floatRank threshold = ⊥) :
    index.reaching score threshold = [] := by
  rw [List.eq_nil_iff_forall_not_mem]
  intro hit member
  have enough := (mem_reaching.mp member).2.2
  exact ((float_le_iff _ _).mp enough).1 noNumber

theorem map_rank_mergeSort_reaching (number : floatRank threshold ≠ ⊥) :
    ((index.reaching score threshold).mergeSort ranksBefore).map
        (fun hit => (hit.1, floatRank hit.2)) =
      index.rankedBuckets (floatRank ∘ score) (floatRank threshold) := by
  -- whatever reaches a number is a number, and numbers compare as their ranks do
  have isNumber : ∀ hit ∈ index.reaching score threshold, floatRank hit.2 ≠ ⊥ := by
    intro hit member
    obtain ⟨_, scored, enough⟩ := mem_reaching.mp member
    rw [scored]
    exact ne_bot_of_le_ne_bot number ((float_le_iff _ _).mp enough).2
  calc
    ((index.reaching score threshold).mergeSort ranksBefore).map
        (fun hit => (hit.1, floatRank hit.2))
      = ((index.reaching score threshold).map fun hit => (hit.1, floatRank hit.2)).mergeSort
          ranksBefore := by
        apply List.map_mergeSort
        intro first memberFirst second memberSecond
        simp only [ranksBefore, float_le_iff, isNumber first memberFirst,
          isNumber second memberSecond, ne_eq, not_false_iff, true_and]
    _ = index.rankedBuckets (floatRank ∘ score) (floatRank threshold) := by
        simp only [reaching, rankedBuckets, float_le_iff, number, ne_eq, not_false_iff, true_and]
        rw [List.filter_map, List.filter_map, List.map_map]
        rfl

theorem names_mergeSort_reaching (number : floatRank threshold ≠ ⊥) :
    ((index.reaching score threshold).mergeSort ranksBefore).map (·.1.name) =
      (index.rankedBuckets (floatRank ∘ score) (floatRank threshold)).map (·.1.name) := by
  rw [← map_rank_mergeSort_reaching index score number, List.map_map]
  rfl

theorem names_mergeSort_reaching_congr {first second : Index}
    (same : ∀ name, first.contains name = second.contains name) (threshold : Float) :
    ((first.reaching score threshold).mergeSort ranksBefore).map (·.1.name) =
      ((second.reaching score threshold).mergeSort ranksBefore).map (·.1.name) := by
  by_cases number : floatRank threshold = ⊥
  · rw [reaching_eq_nil first score number, reaching_eq_nil second score number]
  · rw [names_mergeSort_reaching first score number, names_mergeSort_reaching second score number]
    exact isRanking_rankedBuckets.unique isRanking_rankedBuckets same

end Index

end DeclarationIndex
