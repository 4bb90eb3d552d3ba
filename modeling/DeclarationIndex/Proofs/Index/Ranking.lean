import DeclarationIndex.Proofs.Index.Slices
import DeclarationIndex.Similarity
import Mathlib.Data.List.Basic
import Mathlib.Order.Nat

/-!
What a search by likeness finds. With scores that are totally ordered it ranks exactly the names
that score enough: the better score first, the lesser name where scores are equal, and under each
name all its entries. So a higher threshold cuts the answer short, and an insertion leaves the order
of all other entries as it is.
-/

namespace DeclarationIndex

namespace Naming

/-- Whether a segment is what follows the last separator of a path: no other separator leaves less
behind it. A path without separators is its own last segment. -/
def IsLastSegment (path segment : String) : Prop :=
  ((∃ front, path = front ++ separator ++ segment) ∧
    ∀ front other, path = front ++ separator ++ other → segment.length ≤ other.length) ∨
  (∀ front other, path ≠ front ++ separator ++ other) ∧ segment = path

theorem cons_eq_append_separator {first : Char} {rest front other : List Char}
    (split : first :: rest = front ++ separator.toList ++ other) :
    first = ':' ∧ rest = ':' :: other ∨
      ∃ later, rest = later ++ separator.toList ++ other := by
  cases front with
  | nil =>
    rw [toList_separator] at split
    obtain ⟨rfl, rfl⟩ := List.cons.inj split
    exact Or.inl ⟨rfl, rfl⟩
  | cons _ later =>
    obtain ⟨rfl, rfl⟩ := List.cons.inj split
    exact Or.inr ⟨later, rfl⟩

theorem ne_of_afterLastSeparator_eq_none {path : List Char}
    (none : afterLastSeparator path = none) (front other : List Char) :
    path ≠ front ++ separator.toList ++ other := by
  induction path generalizing front with
  | nil => simp [toList_separator]
  | cons first rest ih =>
    intro split
    unfold afterLastSeparator at none
    cases found : afterLastSeparator rest with
    | some segment => simp [found] at none
    | none =>
      rw [found] at none
      rcases cons_eq_append_separator split with ⟨rfl, rfl⟩ | ⟨later, splitRest⟩
      · simp at none
      · exact ih found later splitRest

theorem follows_of_afterLastSeparator {path segment : List Char}
    (found : afterLastSeparator path = some segment) :
    (∃ front, path = front ++ separator.toList ++ segment) ∧
      ∀ front other, path = front ++ separator.toList ++ other →
        segment.length ≤ other.length := by
  induction path generalizing segment with
  | nil => cases found
  | cons first rest ih =>
    unfold afterLastSeparator at found
    cases inRest : afterLastSeparator rest with
    | some last =>
      rw [inRest] at found
      obtain rfl := Option.some.inj found
      obtain ⟨⟨front, whole⟩, least⟩ := ih inRest
      refine ⟨⟨first :: front, by rw [whole]; rfl⟩, ?_⟩
      intro before behind split
      rcases cons_eq_append_separator split with ⟨_, rfl⟩ | ⟨later, splitRest⟩
      · have lengths := congrArg List.length whole
        simp only [toList_separator, List.length_cons, List.length_append, List.length_nil]
          at lengths
        omega
      · exact least later behind splitRest
    | none =>
      rw [inRest] at found
      simp only at found
      split at found
      · obtain ⟨isColon, same⟩ := (Option.ite_none_right_eq_some).mp found
        obtain rfl := Option.some.inj same
        refine ⟨⟨[], by rw [isColon]; rfl⟩, ?_⟩
        intro before behind split
        rcases cons_eq_append_separator split with ⟨_, same⟩ | ⟨later, splitRest⟩
        · exact Nat.le_of_eq (congrArg List.length (List.cons.inj same).2)
        · exact absurd splitRest (ne_of_afterLastSeparator_eq_none inRest later behind)
      · cases found

theorem isLastSegment_lastSegment (path : String) : IsLastSegment path (lastSegment path) := by
  have toChars {front other : String} (split : path = front ++ separator ++ other) :
      path.toList = front.toList ++ separator.toList ++ other.toList := by
    rw [split, String.toList_append, String.toList_append]
  unfold lastSegment
  cases found : afterLastSeparator path.toList with
  | none =>
    refine Or.inr ⟨?_, rfl⟩
    intro front other split
    exact ne_of_afterLastSeparator_eq_none found _ _ (toChars split)
  | some segment =>
    obtain ⟨⟨front, whole⟩, least⟩ := follows_of_afterLastSeparator found
    refine Or.inl ⟨⟨String.ofList front, ?_⟩, ?_⟩
    · apply String.toList_injective
      simp [whole]
    · intro before behind split
      simpa only [String.length_ofList, String.length_toList] using least _ _ (toChars split)

end Naming

namespace Index

theorem contains_insert (index : Index) (entry : Entry) (name : String) :
    (index.insert entry).contains name = true ↔
      entry.name = name ∨ index.contains name = true := by
  rw [contains_iff_get, contains_iff_get, get_insert]
  by_cases same : entry.name = name
  · simp [same]
  · simp [same]

section
variable {Score : Type}

def scoredEntries (index : Index) (score : String → Score) (names : List String) :
    List (Entry × Score) :=
  names.flatMap fun name => (index.get name).map fun entry => (entry, score name)

variable {index : Index} {score : String → Score}

theorem scoredEntries_filter_contains (names : List String) :
    index.scoredEntries score (names.filter index.contains) = index.scoredEntries score names := by
  induction names with
  | nil => rfl
  | cons name rest ih =>
    unfold scoredEntries at ih ⊢
    cases held : index.contains name with
    | true => rw [List.filter_cons_of_pos held, List.flatMap_cons, ih, List.flatMap_cons]
    | false =>
      have hollow : index.get name = [] := by
        by_contra filled
        have found := (contains_iff_get index name).mpr filled
        rw [held] at found
        cases found
      rw [List.filter_cons_of_neg (by simp [held]), ih, List.flatMap_cons, hollow]
      rfl

theorem scoredEntries_insert_of_not_mem (index : Index) (score : String → Score) {entry : Entry}
    {names : List String}
    (other : entry.name ∉ names) :
    (index.insert entry).scoredEntries score names = index.scoredEntries score names := by
  apply List.flatMap_congr
  intro name member
  have different : entry.name ≠ name := fun same => other (same ▸ member)
  rw [get_insert, if_neg different]

theorem scoredEntries_insert {entry : Entry} {front back : List String}
    (distinct : (front ++ entry.name :: back).Nodup) :
    (index.insert entry).scoredEntries score (front ++ entry.name :: back) =
      index.scoredEntries score (front ++ [entry.name]) ++
        (entry, score entry.name) :: index.scoredEntries score back := by
  obtain ⟨absentBack, _⟩ := List.nodup_cons.mp (List.nodup_append.mp distinct).2.1
  have absentFront : entry.name ∉ front := fun member =>
    (List.nodup_append.mp distinct).2.2 entry.name member entry.name (List.mem_cons_self ..) rfl
  have inFront := scoredEntries_insert_of_not_mem index score absentFront
  have inBack := scoredEntries_insert_of_not_mem index score absentBack
  unfold scoredEntries at inFront inBack ⊢
  rw [List.flatMap_append, List.flatMap_cons, inFront, inBack, get_insert, if_pos rfl]
  simp

end

section
variable {Score : Type} [LE Score] [DecidableLE Score]

def reaching (index : Index) (score : String → Score) (threshold : Score) :
    List (Bucket × Score) :=
  (index.buckets.map fun bucket => (bucket, score bucket.name)).filter fun hit =>
    threshold ≤ hit.2

variable {index : Index} {score : String → Score} {threshold : Score}

theorem mem_reaching {hit : Bucket × Score} :
    hit ∈ index.reaching score threshold ↔
      hit.1 ∈ index.buckets ∧ hit.2 = score hit.1.name ∧ threshold ≤ score hit.1.name := by
  rw [reaching, List.mem_filter, List.mem_map, decide_eq_true_eq]
  constructor
  · intro ⟨scored, enough⟩
    obtain ⟨bucket, member, rfl⟩ := scored
    exact ⟨member, rfl, enough⟩
  · intro ⟨member, scored, enough⟩
    exact ⟨⟨hit.1, member, by rw [← scored]⟩, by rwa [scored]⟩

theorem similarTo_eq_scoredEntries (similarity : String → String → Score) (perfect : Score)
    {query : String} (long : shortestCompared ≤ query.utf8ByteSize) :
    index.similarTo similarity perfect query threshold =
      index.scoredEntries (scoreOf similarity (Lowercase.ofString query))
        (((index.reaching (scoreOf similarity (Lowercase.ofString query)) threshold).mergeSort
          ranksBefore).map (·.1.name)) := by
  unfold similarTo scoredEntries
  rw [if_neg (Nat.not_lt.mpr long), List.flatMap_map]
  apply List.flatMap_congr
  intro hit ranked
  have reached := (List.mergeSort_perm _ _).mem_iff.mp ranked
  obtain ⟨member, scored, _⟩ := mem_reaching.mp reached
  rw [get_of_mem_buckets member, scored]

end

section
variable {Score : Type} [LinearOrder Score]

/-- Whether a name comes before another: it scores better, or as well and is the lesser name. -/
def Outranks (score : String → Score) (first second : String) : Prop :=
  score second < score first ∨ score first = score second ∧ first < second

/-- The names that an index holds and that score at least the threshold, in the order of their
rank. -/
structure IsRanking (index : Index) (score : String → Score) (threshold : Score)
    (ranking : List String) : Prop where
  mem : ∀ name, name ∈ ranking ↔ index.contains name = true ∧ threshold ≤ score name
  ordered : ranking.Pairwise (Outranks score)

variable {score : String → Score} {threshold : Score}

theorem Outranks.asymm {first second : String} (before : Outranks score first second) :
    ¬ Outranks score second first := by
  intro after
  rcases before with better | ⟨same, less⟩
  · rcases after with worse | ⟨same, _⟩
    · exact lt_asymm better worse
    · exact absurd same (ne_of_lt better)
  · rcases after with worse | ⟨_, more⟩
    · exact absurd same (ne_of_lt worse)
    · exact String.lt_asymm less more

theorem nodup_of_outranks {names : List String} (ordered : names.Pairwise (Outranks score)) :
    names.Nodup := by
  apply ordered.imp
  intro first second before same
  subst same
  exact before.asymm before

theorem ranksBefore_iff (first second : Bucket × Score) :
    ranksBefore first second = true ↔
      second.2 < first.2 ∨ first.2 = second.2 ∧ first.1.name ≤ second.1.name := by
  unfold ranksBefore
  by_cases below : first.2 ≤ second.2
  · by_cases above : second.2 ≤ first.2
    · simp [le_antisymm below above]
    · simp [below, above, ne_of_lt (lt_of_not_ge above)]
  · simp [below, lt_of_not_ge below]

theorem ranksBefore_trans (first second third : Bucket × Score)
    (before : ranksBefore first second = true) (after : ranksBefore second third = true) :
    ranksBefore first third = true := by
  rw [ranksBefore_iff] at before after ⊢
  rcases before with better | ⟨same, less⟩
  · rcases after with worse | ⟨same, _⟩
    · exact Or.inl (worse.trans better)
    · exact Or.inl (same ▸ better)
  · rcases after with worse | ⟨again, more⟩
    · exact Or.inl (same ▸ worse)
    · exact Or.inr ⟨same.trans again, String.le_trans less more⟩

theorem ranksBefore_total (first second : Bucket × Score) :
    (ranksBefore first second || ranksBefore second first) = true := by
  rw [Bool.or_eq_true, ranksBefore_iff, ranksBefore_iff]
  rcases lt_trichotomy first.2 second.2 with worse | same | better
  · exact Or.inr (Or.inl worse)
  · rcases String.le_total first.1.name second.1.name with less | more
    · exact Or.inl (Or.inr ⟨same, less⟩)
    · exact Or.inr (Or.inr ⟨same.symm, more⟩)
  · exact Or.inl (Or.inl better)

def rankedBuckets (index : Index) (score : String → Score) (threshold : Score) :
    List (Bucket × Score) :=
  ((index.buckets.map fun bucket => (bucket, score bucket.name)).filter
    fun hit => threshold ≤ hit.2).mergeSort ranksBefore

variable {index : Index}

theorem mem_rankedBuckets {hit : Bucket × Score} :
    hit ∈ index.rankedBuckets score threshold ↔
      hit.1 ∈ index.buckets ∧ hit.2 = score hit.1.name ∧ threshold ≤ score hit.1.name := by
  rw [← mem_reaching]
  exact (List.mergeSort_perm (index.reaching score threshold) ranksBefore).mem_iff

theorem nodup_names_rankedBuckets (index : Index) (score : String → Score) (threshold : Score) :
    ((index.rankedBuckets score threshold).map (·.1.name)).Nodup := by
  have perm := (List.mergeSort_perm ((index.buckets.map fun bucket =>
    (bucket, score bucket.name)).filter fun hit => threshold ≤ hit.2) ranksBefore).map (·.1.name)
  have part := (List.filter_sublist (p := fun hit : Bucket × Score => threshold ≤ hit.2)
    (l := index.buckets.map fun bucket => (bucket, score bucket.name))).map (·.1.name)
  rw [List.map_map] at part
  exact perm.nodup_iff.mpr (index.distinct.sublist part)

theorem isRanking_rankedBuckets :
    index.IsRanking score threshold ((index.rankedBuckets score threshold).map (·.1.name)) := by
  constructor
  · intro name
    rw [contains_iff_mem_names, mem_names_iff, List.mem_map]
    constructor
    · rintro ⟨hit, ranked, rfl⟩
      obtain ⟨member, _, enough⟩ := mem_rankedBuckets.mp ranked
      exact ⟨⟨hit.1, member, rfl⟩, enough⟩
    · rintro ⟨⟨bucket, member, rfl⟩, enough⟩
      exact ⟨(bucket, score bucket.name), mem_rankedBuckets.mpr ⟨member, rfl, enough⟩, rfl⟩
  · have sorted : (index.rankedBuckets score threshold).Pairwise
        fun first second => ranksBefore first second = true :=
      List.pairwise_mergeSort ranksBefore_trans ranksBefore_total _
    have distinct := List.pairwise_map.mp (nodup_names_rankedBuckets index score threshold)
    rw [List.pairwise_map]
    apply (sorted.and distinct).imp_of_mem
    intro first second memberFirst memberSecond both
    rw [ranksBefore_iff, (mem_rankedBuckets.mp memberFirst).2.1,
      (mem_rankedBuckets.mp memberSecond).2.1] at both
    obtain ⟨better | ⟨same, below⟩, different⟩ := both
    · exact Or.inl better
    · refine Or.inr ⟨same, String.not_le.mp fun above => ?_⟩
      exact different (String.le_antisymm below above)

theorem IsRanking.eq_filter {ranking names : List String}
    (ranked : index.IsRanking score threshold ranking) (ordered : names.Pairwise (Outranks score))
    (enough : ∀ name ∈ names, threshold ≤ score name)
    (covered : ∀ name ∈ ranking, name ∈ names) : ranking = names.filter index.contains := by
  have orderedHeld := ordered.filter index.contains
  have same : ∀ name, name ∈ ranking ↔ name ∈ names.filter index.contains := by
    intro name
    rw [List.mem_filter]
    constructor
    · intro member
      exact ⟨covered name member, ((ranked.mem name).mp member).1⟩
    · intro ⟨member, held⟩
      exact (ranked.mem name).mpr ⟨held, enough name member⟩
  have perm := (List.perm_ext_iff_of_nodup (nodup_of_outranks ranked.ordered)
    (nodup_of_outranks orderedHeld)).mpr same
  -- outranking is a strict order, so the same names can be listed in one way only
  exact perm.eq_of_pairwise (fun _ _ _ _ before after => absurd after before.asymm)
    ranked.ordered orderedHeld

theorem IsRanking.prefix_of_le {low high : Score} (le : low ≤ high) {longer shorter : List String}
    (rankedLow : index.IsRanking score low longer)
    (rankedHigh : index.IsRanking score high shorter) : shorter <+: longer := by
  have descending : longer.Pairwise fun first second => score second ≤ score first := by
    apply rankedLow.ordered.imp
    intro first second before
    rcases before with better | ⟨same, _⟩
    · exact le_of_lt better
    · exact le_of_eq same.symm
  have covered : ∀ name ∈ shorter, name ∈ longer.filter fun name => high ≤ score name := by
    intro name member
    obtain ⟨held, enough⟩ := (rankedHigh.mem name).mp member
    exact List.mem_filter.mpr
      ⟨(rankedLow.mem name).mpr ⟨held, le.trans enough⟩, decide_eq_true enough⟩
  have enough : ∀ name ∈ longer.filter fun name => high ≤ score name, high ≤ score name :=
    fun name member => of_decide_eq_true (List.mem_filter.mp member).2
  have allHeld : ∀ name ∈ longer.filter fun name => high ≤ score name,
      index.contains name = true :=
    fun name member => ((rankedLow.mem name).mp (List.mem_filter.mp member).1).1
  have cut := rankedHigh.eq_filter (rankedLow.ordered.filter _) enough covered
  rw [List.filter_eq_self.mpr allHeld] at cut
  rw [cut]
  apply filter_prefix_of_closed
  apply descending.imp
  intro first second below reaches
  exact decide_eq_true ((of_decide_eq_true reaches).trans below)

theorem scoredEntries_before_insert {entry : Entry} {old new : List String}
    (rankedOld : index.IsRanking score threshold old)
    (rankedNew : (index.insert entry).IsRanking score threshold new) :
    index.scoredEntries score old = index.scoredEntries score new := by
  have enough : ∀ name ∈ new, threshold ≤ score name :=
    fun name member => ((rankedNew.mem name).mp member).2
  have covered : ∀ name ∈ old, name ∈ new := by
    intro name member
    obtain ⟨held, reaches⟩ := (rankedOld.mem name).mp member
    have heldStill := (contains_insert index entry name).mpr (Or.inr held)
    exact (rankedNew.mem name).mpr ⟨heldStill, reaches⟩
  rw [rankedOld.eq_filter rankedNew.ordered enough covered, scoredEntries_filter_contains]

end

/-- A search by likeness finds exactly the entries of the names that score enough, name by name in
the order of their rank. A higher threshold leaves a beginning of the answer, and an insertion
leaves the answer as it is or puts its own entry into it. -/
theorem similarTo_ranks_matches {Score : Type} [LinearOrder Score]
    (similarity : String → String → Score) (perfect : Score) {query : String}
    (long : 4 ≤ query.utf8ByteSize) :
    (∀ lower name, ∃ segment, Naming.IsLastSegment (Lowercase.ofString name) segment ∧
      scoreOf similarity lower name =
        max (similarity lower (Lowercase.ofString name)) (similarity lower segment)) ∧
    let score := scoreOf similarity (Lowercase.ofString query)
    let found (index : Index) (threshold : Score) :=
      index.similarTo similarity perfect query threshold
    (∀ index threshold, ∃ ranking, index.IsRanking score threshold ranking ∧
      found index threshold = index.scoredEntries score ranking) ∧
    (∀ index low high, low ≤ high → found index high <+: found index low) ∧
    ∀ index entry threshold,
      (threshold ≤ score entry.name → ∃ before after,
        found index threshold = before ++ after ∧
          found (index.insert entry) threshold =
            before ++ (entry, score entry.name) :: after) ∧
      (score entry.name < threshold →
        found (index.insert entry) threshold = found index threshold) := by
  constructor
  · intro lower name
    refine ⟨_, Naming.isLastSegment_lastSegment _, ?_⟩
    simp only [scoreOf, larger, max_def]
  intro score found
  have ranks (index : Index) (threshold : Score) :
      ∃ ranking, index.IsRanking score threshold ranking ∧
        found index threshold = index.scoredEntries score ranking :=
    ⟨_, isRanking_rankedBuckets, similarTo_eq_scoredEntries similarity perfect long⟩
  refine ⟨ranks, ?_, ?_⟩
  · intro index low high le
    obtain ⟨longer, rankedLow, foundLow⟩ := ranks index low
    obtain ⟨shorter, rankedHigh, foundHigh⟩ := ranks index high
    obtain ⟨rest, rfl⟩ := rankedLow.prefix_of_le le rankedHigh
    rw [foundLow, foundHigh, scoredEntries, scoredEntries, List.flatMap_append]
    exact List.prefix_append _ _
  · intro index entry threshold
    obtain ⟨old, rankedOld, foundOld⟩ := ranks index threshold
    obtain ⟨new, rankedNew, foundNew⟩ := ranks (index.insert entry) threshold
    rw [foundOld, foundNew, scoredEntries_before_insert rankedOld rankedNew]
    constructor
    · intro enough
      have member : entry.name ∈ new := (rankedNew.mem _).mpr
        ⟨(contains_insert index entry entry.name).mpr (Or.inl rfl), enough⟩
      obtain ⟨front, back, rfl⟩ := List.append_of_mem member
      refine ⟨index.scoredEntries score (front ++ [entry.name]),
        index.scoredEntries score back, ?_,
        scoredEntries_insert (nodup_of_outranks rankedNew.ordered)⟩
      simp [scoredEntries]
    · intro low
      apply scoredEntries_insert_of_not_mem
      intro member
      exact absurd ((rankedNew.mem _).mp member).2 (not_le_of_gt low)

/-- Scores by Jaro-Winkler, in a total order: those that are not negative compare as their bits. -/
def orderedSimilarity (first second : String) : Nat :=
  (Similarity.jaroWinkler first second).toBits.toNat

/-- A class alone and in a namespace, and a module with a name that is somewhat like the class's. -/
def visitorClasses : Index :=
  let entry (name : String) (line : UInt32) (kind : EntryKind) : Entry :=
    ⟨name, "a.rb", ⟨line, 0, line, 3⟩, [], .isPublic, kind⟩
  ((empty.insert (entry "Visitor" 1 (.classEntry none))).insert
    (entry "Vista" 2 .moduleEntry)).insert (entry "Index::Visitor" 3 (.classEntry none))

theorem visitors_ranked_between :
    let visitors : Entry := ⟨"Visitors", "b.rb", ⟨1, 0, 1, 3⟩, [], .isPublic, .moduleEntry⟩
    let low := (0.7 : Float).toBits.toNat
    let high := (0.98 : Float).toBits.toNat
    let score := scoreOf orderedSimilarity (Lowercase.ofString "visitor")
    let found (index : Index) (threshold : Nat) :=
      index.similarTo orderedSimilarity 0 "visitor" threshold
    (4 ≤ "visitor".utf8ByteSize ∧ low ≤ high ∧ low ≤ score visitors.name ∧
      score visitors.name < high) ∧
    found visitorClasses high <+: found visitorClasses low ∧
    (∃ before after, found visitorClasses low = before ++ after ∧
      found (visitorClasses.insert visitors) low =
        before ++ (visitors, score visitors.name) :: after) ∧
    found (visitorClasses.insert visitors) high = found visitorClasses high ∧
    (visitorClasses.buckets.map (·.name)).filter (low ≤ score ·) =
      ["Visitor", "Vista", "Index::Visitor"] ∧
    (visitorClasses.buckets.map (·.name)).filter (high ≤ score ·) =
      ["Visitor", "Index::Visitor"] := by
  intro visitors low high score found
  have long : 4 ≤ "visitor".utf8ByteSize := by decide
  have le : low ≤ high := by decide +kernel
  have enough : low ≤ score visitors.name := by decide +kernel
  have short : score visitors.name < high := by decide +kernel
  obtain ⟨_, _, cut, inserted⟩ := similarTo_ranks_matches orderedSimilarity 0 long
  exact ⟨⟨long, le, enough, short⟩, cut visitorClasses low high le,
    (inserted visitorClasses visitors low).1 enough,
    (inserted visitorClasses visitors high).2 short, by decide +kernel, by decide +kernel⟩

end Index

end DeclarationIndex
