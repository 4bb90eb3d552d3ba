import DeclarationIndex.Proofs.Index.Append
import Mathlib.Data.List.Induction

/-!
The indexes that a history of edits and indexed files can lead to. The buckets of an index come in
no order of their own, so at any time an index may turn into one with the same buckets in another
order. What stands under the names is settled by the history alone, and it is named as its bucket if
no edit gives it another name.
-/

namespace DeclarationIndex

inductive Operation where
  | edit (change : Edit)
  | visit (indexer : Indexer) (file : SourceFile)

/-- That an edit puts under a name, or leaves there, only entries that are named so. -/
def Edit.KeepsNames : Edit → Prop
  | .update name change => ∀ entry, entry.name = name → (change entry).name = name
  | .replace name entries => ∀ entry ∈ entries, entry.name = name
  | _ => True

def Operation.KeepsNames : Operation → Prop
  | .edit change => change.KeepsNames
  | .visit _ _ => True

namespace Index

def after (index : Index) : Operation → Index
  | .edit edit => (index.perform edit).2
  | .visit indexer file => (indexer.indexFile index file).1

/-- That some operations lead from the empty index to this one, whatever the order of the buckets
was after each of them. -/
inductive ReachedBy : List Operation → Index → Prop where
  | start : ReachedBy [] empty
  | operation {operations : List Operation} {index : Index} (operation : Operation) :
      ReachedBy operations index → ReachedBy (operations ++ [operation]) (index.after operation)
  | reordered {operations : List Operation} {index other : Index} :
      ReachedBy operations index → other.buckets.Perm index.buckets → ReachedBy operations other

def NamedByKey (index : Index) : Prop :=
  ∀ name, ∀ entry ∈ index.get name, entry.name = name

theorem get_of_buckets_perm {first second : Index} (perm : first.buckets.Perm second.buckets)
    (name : String) : first.get name = second.get name := by
  by_cases held : ∃ bucket ∈ first.buckets, bucket.name = name
  · obtain ⟨bucket, member, rfl⟩ := held
    rw [get_of_mem_buckets member, get_of_mem_buckets (perm.mem_iff.mp member)]
  · have absentFirst : name ∉ first.buckets.map Bucket.name := by
      rwa [List.mem_map]
    have absentSecond : name ∉ second.buckets.map Bucket.name := by
      rwa [← (perm.map Bucket.name).mem_iff]
    rw [get, get, Bucket.lookup_of_absent absentFirst, Bucket.lookup_of_absent absentSecond]

theorem get_after_congr {first second : Index}
    (same : ∀ name, first.get name = second.get name) (operation : Operation) (name : String) :
    (first.after operation).get name = (second.after operation).get name := by
  cases operation with
  | edit edit =>
    have agreesFirst : ∀ name, first.get name = second.pairs.under name := by
      intro name
      rw [same, get_eq_under]
    have afterFirst := (perform_agrees agreesFirst edit).2 name
    have afterSecond := (perform_agrees second.get_eq_under edit).2 name
    exact afterFirst.trans afterSecond.symm
  | visit indexer file =>
    simp only [after, Indexer.indexFile]
    rw [get_applyAll first, get_applyAll second, same]

theorem reachedBy_foldl (operations : List Operation) :
    (operations.foldl after empty).ReachedBy operations := by
  induction operations using List.reverseRecOn with
  | nil => exact .start
  | append_singleton before last ih =>
    rw [List.foldl_append]
    exact ih.operation last

theorem get_of_reachedBy {operations : List Operation} {index : Index}
    (reached : index.ReachedBy operations) (name : String) :
    index.get name = (operations.foldl after empty).get name := by
  induction reached generalizing name with
  | start => rfl
  | operation operation _ ih =>
    rw [List.foldl_append]
    exact get_after_congr ih operation name
  | reordered _ perm ih => exact (get_of_buckets_perm perm name).trans (ih name)

theorem namedByKey_after {index : Index} (named : index.NamedByKey) {operation : Operation}
    (keeps : operation.KeepsNames) : (index.after operation).NamedByKey := by
  have updated (name : String) {change : Entry → Entry}
      (keeps : ∀ entry, entry.name = name → (change entry).name = name) :
      (index.update name change).NamedByKey := by
    intro other entry member
    rw [get_update] at member
    split at member
    · rename_i same
      obtain ⟨source, held, rfl⟩ := List.mem_map.mp member
      rw [keeps source (named name source held), same]
    · exact named other entry member
  cases operation with
  | edit edit =>
    cases edit with
    | insert entry =>
      intro name held member
      rw [after, perform, get_insert] at member
      split at member
      · rename_i same
        rcases List.mem_append.mp member with old | new
        · exact named name held old
        · rw [List.mem_singleton.mp new, same]
      · exact named name held member
    | update name change => exact updated name keeps
    | setVisibility name visibility => exact updated name fun _ same => same
    | replace name entries =>
      intro other entry member
      rw [after, perform, get_replace] at member
      split at member
      · rename_i same
        exact (keeps entry member).trans same
      · exact named other entry member
    | eraseFile path =>
      intro name entry member
      rw [after, perform, get_eraseFile] at member
      exact named name entry (List.mem_of_mem_filter member)
    | clear =>
      intro name entry member
      cases member
  | visit indexer file =>
    intro name entry member
    obtain ⟨source, visibility, rfl, held | ⟨_, declared⟩⟩ := mem_get_applyAll member
    · exact named name source held
    · exact declared

theorem namedByKey_of_reachedBy {operations : List Operation} {index : Index}
    (reached : index.ReachedBy operations)
    (keeps : ∀ operation ∈ operations, operation.KeepsNames) : index.NamedByKey := by
  induction reached with
  | start => exact fun _ _ member => nomatch member
  | operation operation _ ih =>
    have keepsBefore := fun before member => keeps before (List.mem_append_left _ member)
    have keepsLast := keeps operation (List.mem_append_right _ (List.mem_singleton.mpr rfl))
    exact namedByKey_after (ih keepsBefore) keepsLast
  | reordered _ perm ih =>
    intro name entry member
    rw [get_of_buckets_perm perm] at member
    exact ih keeps name entry member

end Index

end DeclarationIndex
