import DeclarationIndex.Index.Basic

/-!
The index as a function from names to entries. Each edit changes what it is aimed at and leaves
the entries of all other names alone.
-/

namespace DeclarationIndex

namespace Bucket

theorem lookup_of_absent {name : String} {buckets : List Bucket}
    (absent : name ∉ buckets.map Bucket.name) : lookup name buckets = [] := by
  induction buckets with
  | nil => rfl
  | cons bucket rest ih =>
    have parts := not_or.mp (mt List.mem_cons.mpr absent)
    rw [lookup, if_neg (Ne.symm parts.1)]
    exact ih parts.2

theorem lookup_of_mem {bucket : Bucket} {buckets : List Bucket}
    (distinct : (buckets.map Bucket.name).Nodup) (member : bucket ∈ buckets) :
    lookup bucket.name buckets = bucket.entries := by
  induction buckets with
  | nil => cases member
  | cons first rest ih =>
    obtain ⟨absent, distinctRest⟩ := List.nodup_cons.mp distinct
    rcases List.mem_cons.mp member with rfl | later
    · rw [lookup, if_pos rfl]
    · have other : first.name ≠ bucket.name :=
        fun same => absent (same ▸ List.mem_map_of_mem later)
      rw [lookup, if_neg other, ih distinctRest later]

theorem lookup_place {name : String} {rest : List Bucket} (entries : List Entry)
    (absent : name ∉ rest.map Bucket.name) (other : String) :
    lookup other (place name entries rest) =
      if name = other then entries else lookup other rest := by
  unfold place
  split
  · rename_i hollow
    split
    · rename_i same
      rw [lookup_of_absent (same ▸ absent), List.isEmpty_iff.mp hollow]
    · rfl
  · rfl

theorem lookup_alter (name : String) (change : List Entry → List Entry) {buckets : List Bucket}
    (distinct : (buckets.map Bucket.name).Nodup) (other : String) :
    lookup other (alter name change buckets) =
      if name = other then change (lookup name buckets) else lookup other buckets := by
  induction buckets with
  | nil => exact lookup_place _ (by simp) other
  | cons bucket rest ih =>
    obtain ⟨absent, distinctRest⟩ := List.nodup_cons.mp distinct
    simp only [alter, lookup]
    by_cases found : bucket.name = name
    · subst found
      simp only [if_true, lookup_place _ absent]
      split <;> rfl
    · simp only [if_neg found, lookup, ih distinctRest]
      by_cases same : bucket.name = other
      · rw [if_pos same, if_neg fun named => found (same.trans named.symm), if_pos same]
      · rw [if_neg same, if_neg same]

theorem lookup_keep (passes : Entry → Bool) {buckets : List Bucket}
    (distinct : (buckets.map Bucket.name).Nodup) (name : String) :
    lookup name (keep passes buckets) = (lookup name buckets).filter passes := by
  induction buckets with
  | nil => rfl
  | cons bucket rest ih =>
    obtain ⟨absent, distinctRest⟩ := List.nodup_cons.mp distinct
    rw [keep, lookup_place _ (fun member => absent (mem_names_keep member)), lookup,
      ih distinctRest]
    split <;> rfl

end Bucket

namespace Index

theorem get_empty (name : String) : empty.get name = [] :=
  rfl

theorem get_of_mem_buckets {index : Index} {bucket : Bucket} (member : bucket ∈ index.buckets) :
    index.get bucket.name = bucket.entries :=
  Bucket.lookup_of_mem index.distinct member

theorem get_alter (index : Index) (name : String) (change : List Entry → List Entry)
    (other : String) :
    (index.alter name change).get other =
      if name = other then change (index.get name) else index.get other :=
  Bucket.lookup_alter name change index.distinct other

theorem get_insert (index : Index) (entry : Entry) (name : String) :
    (index.insert entry).get name =
      if entry.name = name then index.get name ++ [entry] else index.get name := by
  rw [insert, get_alter]
  split
  · rename_i same
    rw [same]
  · rfl

theorem get_update (index : Index) (name : String) (change : Entry → Entry) (other : String) :
    (index.update name change).get other =
      if name = other then (index.get name).map change else index.get other :=
  get_alter index name _ other

theorem get_replace (index : Index) (name : String) (entries : List Entry) (other : String) :
    (index.replace name entries).get other =
      if name = other then entries else index.get other :=
  get_alter index name _ other

theorem get_eraseFile (index : Index) (path name : String) :
    (index.eraseFile path).get name = (index.get name).filter (·.filePath != path) :=
  Bucket.lookup_keep _ index.distinct name

end Index

end DeclarationIndex
