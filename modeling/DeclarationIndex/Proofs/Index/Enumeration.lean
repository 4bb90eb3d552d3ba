import DeclarationIndex.Index.Statistics
import DeclarationIndex.Proofs.Index.Aliases
import DeclarationIndex.Proofs.Index.FloatScores
import DeclarationIndex.Proofs.Index.Reindex

/-!
No answer shows in what order the buckets of an index come. Each is settled by what stands under the
names: what is listed is sorted by names, which are distinct, and what is counted is counted in any
order. Only the aliases are sorted by what an entry says of itself; so they need that each entry
stands under its own name.
-/

namespace DeclarationIndex

theorem nodup_eraseDups (texts : List String) : texts.eraseDups.Nodup := by
  cases texts with
  | nil => simp
  | cons text rest =>
    have laterOnce := nodup_eraseDups (rest.filter fun other => !other == text)
    rw [List.eraseDups_cons, List.nodup_cons, List.mem_eraseDups]
    exact ⟨by simp, laterOnce⟩
termination_by texts.length
decreasing_by exact Nat.lt_succ_of_le (List.length_filter_le _ rest)

theorem length_eraseDups_of_perm {first second : List String} (perm : first.Perm second) :
    first.eraseDups.length = second.eraseDups.length := by
  apply List.Perm.length_eq
  rw [List.perm_ext_iff_of_nodup (nodup_eraseDups first) (nodup_eraseDups second)]
  intro text
  rw [List.mem_eraseDups, List.mem_eraseDups, perm.mem_iff]

namespace Index

structure AnswersAlike (first second : Index) : Prop where
  names : first.names = second.names
  size : first.size = second.size
  startingWith : ∀ beginning, first.startingWith beginning = second.startingWith beginning
  similarTo : ∀ (similarity : String → String → Float) (perfect : Float) (query : String)
    (threshold : Float), first.similarTo similarity perfect query threshold =
      second.similarTo similarity perfect query threshold
  statistics : Statistics.ofIndex first = Statistics.ofIndex second
  aliases : first.aliases = second.aliases

section
variable {first second : Index} (same : ∀ name, first.get name = second.get name)
include same

theorem entries_perm_of_get_eq : first.entries.Perm second.entries := by
  rw [entries_eq_map_pairs, entries_eq_map_pairs]
  apply List.Perm.map
  apply pairs_perm
  intro name
  rw [same, get_eq_under]

theorem startingWith_congr (beginning : String) :
    first.startingWith beginning = second.startingWith beginning := by
  rw [startingWith_eq, startingWith_eq, names_eq_of_get_eq same, funext same]

theorem similarTo_congr (similarity : String → String → Float) (perfect : Float) (query : String)
    (threshold : Float) :
    first.similarTo similarity perfect query threshold =
      second.similarTo similarity perfect query threshold := by
  by_cases long : shortestCompared ≤ query.utf8ByteSize
  · have sameNames : ∀ name, first.contains name = second.contains name := by
      intro name
      rw [Bool.eq_iff_iff, contains_iff_get, contains_iff_get, same]
    rw [similarTo_eq_scoredEntries similarity perfect long,
      similarTo_eq_scoredEntries similarity perfect long, scoredEntries, scoredEntries,
      names_mergeSort_reaching_congr _ sameNames, funext same]
  · have short := Nat.not_le.mp long
    rw [similarTo, similarTo, if_pos short, if_pos short, startingWith_congr same]

theorem statistics_congr : Statistics.ofIndex first = Statistics.ofIndex second := by
  have perm := entries_perm_of_get_eq same
  have files := length_eraseDups_of_perm (perm.map Entry.filePath)
  have names : first.buckets.length = second.buckets.length := by
    have listed := congrArg List.length (names_eq_of_get_eq same)
    simpa [names] using listed
  have size : first.size = second.size := perm.length_eq
  have kinds (kind : String) : Statistics.countKind first.entries kind =
      Statistics.countKind second.entries kind := perm.countP_eq _
  simp only [Statistics.ofIndex, files, names, size, kinds]

end

/-- Two runs of the same operations answer alike, in whatever order the buckets came after each
operation of either run, as long as nothing is put under a name that it does not have. And the
aliases are listed once each, name by name, those of one name in the order of their insertion. -/
theorem answers_ignore_bucket_order {operations : List Operation}
    (keeps : ∀ operation ∈ operations, operation.KeepsNames) {first second : Index}
    (reachedFirst : first.ReachedBy operations) (reachedSecond : second.ReachedBy operations) :
    first.AnswersAlike second ∧ first.AliasesInOrder := by
  have same : ∀ name, first.get name = second.get name := by
    intro name
    rw [get_of_reachedBy reachedFirst, get_of_reachedBy reachedSecond]
  have namedFirst := namedByKey_of_reachedBy reachedFirst keeps
  have namedSecond := namedByKey_of_reachedBy reachedSecond keeps
  refine ⟨?_, aliasesInOrder namedFirst⟩
  exact {
    names := names_eq_of_get_eq same
    size := (entries_perm_of_get_eq same).length_eq
    startingWith := startingWith_congr same
    similarTo := similarTo_congr same
    statistics := statistics_congr same
    aliases := aliases_congr same namedFirst namedSecond }

def reversed (index : Index) : Index where
  buckets := index.buckets.reverse
  distinct := by
    rw [List.map_reverse]
    exact (List.reverse_perm _).nodup_iff.mpr index.distinct
  inhabited bucket member := index.inhabited bucket (List.mem_reverse.mp member)

/-- An alias of a name in two files, around a class that is replaced, and a file with a method. -/
def aliasOperations : List Operation :=
  let entry (name path : String) (kind : EntryKind) : Entry :=
    ⟨name, path, ⟨1, 0, 1, 3⟩, [], .isPublic, kind⟩
  [.edit (.insert (entry "open" "b.rb" (.unresolvedAlias "start" []))),
    .edit (.insert (entry "File" "a.rb" (.classEntry none))),
    .edit (.insert (entry "open" "a.rb" (.unresolvedAlias "begin" []))),
    .edit (.replace "File" [entry "File" "c.rb" .moduleEntry]),
    .edit (.update "open" (·.withVisibility .isPrivate)),
    .visit ⟨[], []⟩ Indexer.privateMethodFile]

theorem aliases_of_reversed_buckets :
    let index := aliasOperations.foldl after empty
    (∀ operation ∈ aliasOperations, operation.KeepsNames) ∧
    index.ReachedBy aliasOperations ∧ index.reversed.ReachedBy aliasOperations ∧
    index.buckets ≠ index.reversed.buckets ∧
    index.AnswersAlike index.reversed ∧ index.AliasesInOrder ∧
    ((index.get "open").filter Entry.isAlias).map Entry.filePath = ["b.rb", "a.rb"] := by
  intro index
  have keeps : ∀ operation ∈ aliasOperations, operation.KeepsNames := by
    simp [aliasOperations, Operation.KeepsNames, Edit.KeepsNames, Entry.withVisibility]
  have reached : index.ReachedBy aliasOperations := reachedBy_foldl aliasOperations
  have reachedReversed : index.reversed.ReachedBy aliasOperations :=
    reached.reordered (List.reverse_perm index.buckets)
  have answers := answers_ignore_bucket_order keeps reached reachedReversed
  exact ⟨keeps, reached, reachedReversed, by decide +kernel, answers.1, answers.2,
    by decide +kernel⟩

end Index

end DeclarationIndex
