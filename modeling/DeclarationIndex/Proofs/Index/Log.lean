import DeclarationIndex.Index.Edit
import DeclarationIndex.Index.Lookup

/-!
An index is a flat log of names and entries seen through the names. Whatever is done to the index
can be done to the log, in one list and without buckets, and all that the index shows can be read
off the log.
-/

namespace DeclarationIndex

/-- The entries of an index and the names that they are under, in one list. -/
abbrev Log : Type :=
  List (String × Entry)

namespace Log

def under (log : Log) (name : String) : List Entry :=
  (log.filter (·.1 = name)).map (·.2)

def update (log : Log) (name : String) (change : Entry → Entry) : Log :=
  log.map fun pair => if pair.1 = name then (pair.1, change pair.2) else pair

def perform (log : Log) : Edit → Reply × Log
  | .insert entry => (.nothing, log ++ [(entry.name, entry)])
  | .update name change => (.count (log.countP (·.1 = name)), log.update name change)
  | .setVisibility name visibility =>
      (.count (log.countP (·.1 = name)), log.update name (·.withVisibility visibility))
  | .replace name entries =>
      (.former (log.under name), log.filter (·.1 ≠ name) ++ entries.map (name, ·))
  | .eraseFile path =>
      let kept := log.filter (·.2.filePath ≠ path)
      (.count (log.length - kept.length), kept)
  | .clear => (.nothing, [])

def performAll (log : Log) : List Edit → List Reply × Log
  | [] => ([], log)
  | edit :: rest =>
      let (reply, next) := log.perform edit
      let (replies, last) := next.performAll rest
      (reply :: replies, last)

theorem length_under (log : Log) (name : String) :
    (log.under name).length = log.countP (·.1 = name) := by
  rw [under, List.length_map, List.countP_eq_length_filter]

@[simp] theorem under_append (first second : Log) (name : String) :
    under (first ++ second) name = first.under name ++ second.under name := by
  simp [under]

theorem mem_filter_name {log : Log} {name : String} {pair : String × Entry}
    (member : pair ∈ log.filter (·.1 = name)) : pair.1 = name := by
  simpa using (List.mem_filter.mp member).2

theorem under_map_mk (name : String) (entries : List Entry) (other : String) :
    under (entries.map (name, ·)) other = if name = other then entries else [] := by
  by_cases same : name = other
  · simp [under, same, List.filter_map, Function.comp_def]
  · simp [under, same]

theorem under_update (log : Log) (name : String) (change : Entry → Entry) (other : String) :
    (log.update name change).under other =
      if name = other then (log.under name).map change else log.under other := by
  let changed (pair : String × Entry) := if pair.1 = name then (pair.1, change pair.2) else pair
  have kept : (fun pair => decide ((changed pair).1 = other)) =
      fun pair : String × Entry => decide (pair.1 = other) := by
    funext pair
    simp only [changed]
    split <;> rfl
  change ((log.map changed).filter (·.1 = other)).map (·.2) = _
  rw [List.filter_map, Function.comp_def, kept, List.map_map]
  split
  · rename_i same
    rw [under, List.map_map, same]
    apply List.map_congr_left
    intro pair member
    simp [changed, mem_filter_name member, same]
  · rename_i different
    rw [under]
    apply List.map_congr_left
    intro pair member
    simp [changed, mem_filter_name member, Ne.symm different]

theorem under_filter_ne (log : Log) (name other : String) :
    under (log.filter (·.1 ≠ name)) other = if name = other then [] else log.under other := by
  simp only [under, List.filter_filter]
  split
  · rename_i same
    simp [← same]
  · rename_i different
    congr 1
    apply List.filter_congr
    intro pair _
    by_cases named : pair.1 = other
    · simp [named, Ne.symm different]
    · simp [named]

theorem under_filter_entry (log : Log) (passes : Entry → Bool) (name : String) :
    under (log.filter (passes ·.2)) name = (log.under name).filter passes := by
  simp only [under, List.filter_filter, List.filter_map, Function.comp_def]
  simp [Bool.and_comm]

theorem length_sub_length_filter (log : Log) (path : String) :
    log.length - (log.filter (·.2.filePath ≠ path)).length =
      log.countP (·.2.filePath = path) := by
  have whole := List.length_eq_countP_add_countP (l := log)
    fun pair => decide (pair.2.filePath = path)
  rw [← List.countP_eq_length_filter, whole]
  simp

theorem count_eq_count_under (log : Log) (pair : String × Entry) :
    log.count pair = (log.under pair.1).count pair.2 := by
  induction log with
  | nil => rfl
  | cons first rest ih =>
    by_cases named : first.1 = pair.1
    · simp_all [under, List.count_cons, Prod.ext_iff]
    · simp_all [under, Prod.ext_iff]

theorem perm_of_under_eq {first second : Log}
    (same : ∀ name, first.under name = second.under name) :
    first.Perm second := by
  rw [List.perm_iff_count]
  intro pair
  rw [count_eq_count_under, count_eq_count_under, same]

end Log

namespace Index

def pairs (index : Index) : Log :=
  index.buckets.flatMap fun bucket => bucket.entries.map (bucket.name, ·)

/-- That all an index shows can be read off the log. -/
structure Shows (index : Index) (log : Log) : Prop where
  get : ∀ name, index.get name = log.under name
  contains : ∀ name, index.contains name = true ↔ log.under name ≠ []
  names_ascending : index.names.Pairwise (· < ·)
  mem_names : ∀ name, name ∈ index.names ↔ ∃ entry, (name, entry) ∈ log
  size : index.size = log.length
  isEmpty : index.isEmpty = true ↔ log = []

theorem lookup_eq_under {buckets : List Bucket} (distinct : (buckets.map Bucket.name).Nodup)
    (name : String) :
    Bucket.lookup name buckets =
      Log.under (buckets.flatMap fun bucket => bucket.entries.map (bucket.name, ·)) name := by
  induction buckets with
  | nil => rfl
  | cons bucket rest ih =>
    obtain ⟨absent, distinctRest⟩ := List.nodup_cons.mp distinct
    rw [List.flatMap_cons, Log.under_append, Log.under_map_mk, ← ih distinctRest, Bucket.lookup]
    split
    · rename_i same
      rw [Bucket.lookup_of_absent (same ▸ absent), List.append_nil]
    · rfl

theorem get_eq_under (index : Index) (name : String) : index.get name = index.pairs.under name :=
  lookup_eq_under index.distinct name

theorem pairs_perm {index : Index} {log : Log} (agrees : ∀ name, index.get name = log.under name) :
    index.pairs.Perm log :=
  Log.perm_of_under_eq fun name => by rw [← get_eq_under, agrees]

theorem size_eq_length_pairs (index : Index) : index.size = index.pairs.length := by
  simp [size, entries, pairs, List.length_flatMap]

theorem countFile_eq_countP_pairs (index : Index) (path : String) :
    index.countFile path = index.pairs.countP (·.2.filePath = path) := by
  simp only [countFile, entries, pairs, List.countP_flatMap, List.countP_map, Function.comp_def]
  rfl

theorem mem_names_iff (index : Index) (name : String) :
    name ∈ index.names ↔ ∃ bucket ∈ index.buckets, bucket.name = name := by
  rw [names, (List.mergeSort_perm _ _).mem_iff, List.mem_map]

theorem contains_iff_mem_names (index : Index) (name : String) :
    index.contains name = true ↔ name ∈ index.names := by
  rw [mem_names_iff, contains, List.any_eq_true]
  simp

theorem mem_names_iff_pairs (index : Index) (name : String) :
    name ∈ index.names ↔ ∃ entry, (name, entry) ∈ index.pairs := by
  rw [mem_names_iff]
  constructor
  · rintro ⟨bucket, member, rfl⟩
    obtain ⟨entry, held⟩ := List.exists_mem_of_ne_nil _ (index.inhabited bucket member)
    exact ⟨entry, List.mem_flatMap.mpr ⟨bucket, member, List.mem_map_of_mem held⟩⟩
  · rintro ⟨entry, held⟩
    obtain ⟨bucket, member, inside⟩ := List.mem_flatMap.mp held
    obtain ⟨_, _, same⟩ := List.mem_map.mp inside
    exact ⟨bucket, member, congrArg Prod.fst same⟩

theorem isEmpty_iff_pairs (index : Index) : index.isEmpty = true ↔ index.pairs = [] := by
  rw [isEmpty, List.isEmpty_iff, pairs, List.flatMap_eq_nil_iff]
  constructor
  · intro none bucket member
    rw [none] at member
    cases member
  · intro hollow
    rw [List.eq_nil_iff_forall_not_mem]
    intro bucket member
    exact index.inhabited bucket member (List.map_eq_nil_iff.mp (hollow bucket member))

theorem decide_le_trans (first second third : String) (below : decide (first ≤ second) = true)
    (above : decide (second ≤ third) = true) : decide (first ≤ third) = true := by
  rw [decide_eq_true_eq] at below above ⊢
  exact String.le_trans below above

theorem decide_le_total (first second : String) :
    (decide (first ≤ second) || decide (second ≤ first)) = true := by
  rw [Bool.or_eq_true, decide_eq_true_eq, decide_eq_true_eq]
  exact String.le_total first second

theorem pairwise_mergeSort_le (texts : List String) :
    (texts.mergeSort fun first second => first ≤ second).Pairwise (· ≤ ·) := by
  have sorted := List.pairwise_mergeSort decide_le_trans decide_le_total texts
  exact sorted.imp fun below => of_decide_eq_true below

theorem names_pairwise_lt (index : Index) : index.names.Pairwise (· < ·) := by
  have sorted : index.names.Pairwise (· ≤ ·) := pairwise_mergeSort_le _
  have distinct : index.names.Nodup :=
    (List.mergeSort_perm _ _).nodup_iff.mpr index.distinct
  refine (sorted.and distinct).imp fun {first second} both => ?_
  rcases Decidable.em (first < second) with less | notLess
  · exact less
  · exact absurd (String.le_antisymm both.1 (String.not_lt.mp notLess)) both.2

theorem shows_of_get_eq {index : Index} {log : Log}
    (agrees : ∀ name, index.get name = log.under name) : index.Shows log := by
  have perm := pairs_perm agrees
  have mem_names : ∀ name, name ∈ index.names ↔ ∃ entry, (name, entry) ∈ log := by
    intro name
    simp only [mem_names_iff_pairs, perm.mem_iff]
  exact {
    get := agrees
    contains := fun name => by
      rw [contains_iff_mem_names, mem_names]
      simp [Log.under, List.filter_eq_nil_iff]
    names_ascending := index.names_pairwise_lt
    mem_names
    size := by rw [size_eq_length_pairs, perm.length_eq]
    isEmpty := by
      rw [isEmpty_iff_pairs]
      exact ⟨fun none => (none ▸ perm).nil_eq.symm, fun none => (none ▸ perm).eq_nil⟩ }

theorem contains_iff_get (index : Index) (name : String) :
    index.contains name = true ↔ index.get name ≠ [] := by
  rw [get_eq_under]
  exact (shows_of_get_eq index.get_eq_under).contains name

theorem mem_names_iff_get (index : Index) (name : String) :
    name ∈ index.names ↔ index.get name ≠ [] := by
  rw [← contains_iff_mem_names, contains_iff_get]

variable {index : Index} {log : Log}

theorem perform_agrees (agrees : ∀ name, index.get name = log.under name) (edit : Edit) :
    (index.perform edit).1 = (log.perform edit).1 ∧
      ∀ name, (index.perform edit).2.get name = (log.perform edit).2.under name := by
  have touched (name : String) : (index.get name).length = log.countP (·.1 = name) := by
    rw [agrees, Log.length_under]
  have updated (name : String) (change : Entry → Entry) (other : String) :
      (index.update name change).get other = (log.update name change).under other := by
    rw [get_update, Log.under_update, agrees, agrees]
  cases edit with
  | insert entry =>
    refine ⟨rfl, fun name => ?_⟩
    have added := Log.under_map_mk entry.name [entry] name
    rw [List.map_singleton] at added
    simp only [perform, Log.perform, get_insert, Log.under_append, added, agrees]
    split <;> simp
  | update name change => exact ⟨congrArg Reply.count (touched name), updated name change⟩
  | setVisibility name visibility =>
    exact ⟨congrArg Reply.count (touched name), updated name (·.withVisibility visibility)⟩
  | replace name entries =>
    refine ⟨congrArg Reply.former (agrees name), fun other => ?_⟩
    simp only [perform, Log.perform, get_replace, Log.under_append, Log.under_filter_ne,
      Log.under_map_mk, agrees]
    split <;> simp
  | eraseFile path =>
    have counted : index.countFile path = log.countP (·.2.filePath = path) := by
      rw [countFile_eq_countP_pairs, (pairs_perm agrees).countP_eq]
    have kept : (fun entry : Entry => entry.filePath != path) =
        fun entry => decide (entry.filePath ≠ path) := by
      funext entry
      rw [bne, Bool.beq_eq_decide_eq, decide_not]
    refine ⟨congrArg Reply.count (counted.trans (log.length_sub_length_filter path).symm), ?_⟩
    intro name
    simp only [perform, Log.perform, get_eraseFile, agrees, kept]
    exact (Log.under_filter_entry log (fun entry => decide (entry.filePath ≠ path)) name).symm
  | clear => exact ⟨rfl, fun _ => rfl⟩

theorem performAll_agrees (agrees : ∀ name, index.get name = log.under name) (edits : List Edit) :
    (index.performAll edits).1 = (log.performAll edits).1 ∧
      ∀ name, (index.performAll edits).2.get name = (log.performAll edits).2.under name := by
  induction edits generalizing index log with
  | nil => exact ⟨rfl, agrees⟩
  | cons edit rest ih =>
    obtain ⟨answers, next⟩ := perform_agrees agrees edit
    obtain ⟨later, last⟩ := ih next
    refine ⟨?_, last⟩
    simp only [performAll, Log.performAll, answers, later]

/-- An index that was empty at first shows what a log shows that was edited in the same way. -/
theorem performAll_refines_log (edits : List Edit) :
    (empty.performAll edits).1 = (Log.performAll [] edits).1 ∧
      (empty.performAll edits).2.Shows (Log.performAll [] edits).2 := by
  have start : ∀ name, empty.get name = Log.under [] name := fun _ => rfl
  obtain ⟨answers, agrees⟩ := performAll_agrees start edits
  exact ⟨answers, shows_of_get_eq agrees⟩

end Index

end DeclarationIndex
