import DeclarationIndex.Index.Search
import DeclarationIndex.Proofs.Similarity.Order
import DeclarationIndex.Similarity

/-!
Which queries a search by likeness takes for the beginning of a name: those of fewer than four
bytes. These are not all the queries of fewer than four characters, since only an ASCII character
is a single byte.
-/

namespace DeclarationIndex

/-- The bytes of a text beyond the first one of each character. -/
def surplusBytes (text : String) : Nat :=
  (text.toList.map fun c => c.utf8Size - 1).sum

theorem utf8ByteSize_eq_add_surplusBytes (text : String) :
    text.utf8ByteSize = text.length + surplusBytes text := by
  have count : ∀ chars : List Char,
      String.utf8Len chars = chars.length + (chars.map fun c => c.utf8Size - 1).sum := by
    intro chars
    induction chars with
    | nil => rfl
    | cons c rest ih =>
      have positive := c.utf8Size_pos
      simp only [String.utf8Len_cons, ih, List.length_cons, List.map_cons, List.sum_cons]
      omega
  rw [← String.utf8Len_toList, count, String.length_toList]
  rfl

theorem surplusBytes_eq_zero_iff (text : String) :
    surplusBytes text = 0 ↔ ∀ c ∈ text.toList, c.val ≤ 127 := by
  have single (c : Char) : c.utf8Size - 1 = 0 ↔ c.val ≤ 127 := by
    have positive := c.utf8Size_pos
    rw [← Char.utf8Size_eq_one_iff]
    omega
  rw [surplusBytes, List.sum_eq_zero_iff_forall_eq_nat, List.forall_mem_map]
  simp only [single]

namespace Index

variable {index : Index}

theorem mem_startingWith {beginning : String} {entry : Entry} :
    entry ∈ index.startingWith beginning ↔
      ∃ bucket ∈ index.buckets, beginsWith beginning bucket.name = true ∧
        entry ∈ bucket.entries := by
  rw [startingWith, List.mem_flatMap]
  simp only [(List.mergeSort_perm _ _).mem_iff, List.mem_filter, and_assoc]

theorem reaches_of_mem_similarTo {Score : Type} [LE Score] [DecidableLE Score]
    {similarity : String → String → Score} {perfect threshold : Score} {query : String}
    (many : shortestCompared ≤ query.utf8ByteSize) {hit : Entry × Score}
    (found : hit ∈ index.similarTo similarity perfect query threshold) :
    ∃ bucket ∈ index.buckets, hit.1 ∈ bucket.entries ∧ threshold ≤ hit.2 ∧
      hit.2 = scoreOf similarity (Lowercase.ofString query) bucket.name := by
  rw [similarTo, if_neg (Nat.not_lt.mpr many)] at found
  obtain ⟨ranked, member, held⟩ := List.mem_flatMap.mp found
  obtain ⟨entry, inside, rfl⟩ := List.mem_map.mp held
  rw [(List.mergeSort_perm _ _).mem_iff, List.mem_filter] at member
  obtain ⟨scored, reaches⟩ := member
  obtain ⟨bucket, inIndex, rfl⟩ := List.mem_map.mp scored
  exact ⟨bucket, inIndex, inside, of_decide_eq_true reaches, rfl⟩

theorem not_le_of_isNaN {threshold : Float} (isNaN : threshold.isNaN = true) (score : Float) :
    ¬ threshold ≤ score := by
  intro reaches
  have isNumber := ((float_le_iff threshold score).mp reaches).1
  exact isNumber ((floatRank_eq_bot_iff threshold).mpr isNaN)

def classNamed (name : String) : Entry :=
  ⟨name, "a.rb", ⟨1, 0, 2, 3⟩, [], .isPublic, .classEntry none⟩

theorem mem_startingWith_of_only {beginning name : String}
    (begins : beginsWith beginning name = true) :
    classNamed name ∈ (empty.insert (classNamed name)).startingWith beginning :=
  mem_startingWith.mpr ⟨⟨name, [classNamed name]⟩, List.mem_singleton.mpr rfl, begins,
    List.mem_singleton.mpr rfl⟩

/-- A query is searched as a beginning in every index and at every threshold exactly if its
characters and the bytes that they take beyond one each are fewer than four. -/
theorem searched_as_beginning_iff (similarity : String → String → Float) (perfect : Float)
    (query : String) :
    ((∀ index threshold, similarTo index similarity perfect query threshold =
        (index.startingWith query).map fun entry => (entry, perfect)) ↔
      query.length + surplusBytes query < 4) ∧
    (surplusBytes query = 0 ↔ ∀ c ∈ query.toList, c.val ≤ 127) := by
  refine ⟨?_, surplusBytes_eq_zero_iff query⟩
  rw [← utf8ByteSize_eq_add_surplusBytes]
  constructor
  · intro always
    by_contra many
    have begins : beginsWith query query = true :=
      List.isPrefixOf_iff_prefix.mpr List.prefix_rfl
    -- an index with the query alone, at a threshold that no score reaches
    have listed := List.mem_map_of_mem (f := fun entry => (entry, perfect))
      (mem_startingWith_of_only begins)
    rw [← always (empty.insert (classNamed query)) (0.0 / 0.0)] at listed
    obtain ⟨_, _, _, reaches, _⟩ := reaches_of_mem_similarTo (Nat.not_lt.mp many) listed
    exact not_le_of_isNaN (by decide +kernel) perfect reaches
  · intro few index threshold
    exact if_pos few

/-- Three characters may be compared: two of these take a byte each and the first takes two. -/
theorem three_characters_compared :
    "Éco".length < 4 ∧
      similarTo (empty.insert (classNamed "École")) Similarity.jaroWinkler 1.0 "Éco" 0.7 ≠
        ((empty.insert (classNamed "École")).startingWith "Éco").map
          fun entry => (entry, (1.0 : Float)) := by
  refine ⟨by decide, fun same => ?_⟩
  have begins : beginsWith "Éco" "École" = true := by decide
  have listed := List.mem_map_of_mem (f := fun entry => (entry, (1.0 : Float)))
    (mem_startingWith_of_only begins)
  rw [← same] at listed
  obtain ⟨bucket, member, _, _, scored⟩ := reaches_of_mem_similarTo (by decide) listed
  obtain rfl := List.mem_singleton.mp member
  have unlike : (1.0 : Float) ≠ scoreOf Similarity.jaroWinkler (Lowercase.ofString "Éco")
      "École" := by decide +kernel
  exact unlike scored

end Index

end DeclarationIndex
