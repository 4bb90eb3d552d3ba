import DeclarationIndex.Declaration.Scope

/-!
The index: for each name the entries declared under it, in the order they came. Names are kept in
buckets, one per name and none empty; all changes to one name go through `alter`.
-/

namespace DeclarationIndex

structure Bucket where
  name : String
  entries : List Entry
  deriving DecidableEq, Inhabited

namespace Bucket

def place (name : String) (entries : List Entry) (rest : List Bucket) : List Bucket :=
  if entries.isEmpty then rest else ⟨name, entries⟩ :: rest

/-- Changes the entries under a name; new names come last and emptied ones go. -/
def alter (name : String) (change : List Entry → List Entry) : List Bucket → List Bucket
  | [] => place name (change []) []
  | bucket :: rest =>
      if bucket.name = name then place name (change bucket.entries) rest
      else bucket :: alter name change rest

def lookup (name : String) : List Bucket → List Entry
  | [] => []
  | bucket :: rest => if bucket.name = name then bucket.entries else lookup name rest

def keep (passes : Entry → Bool) : List Bucket → List Bucket
  | [] => []
  | bucket :: rest => place bucket.name (bucket.entries.filter passes) (keep passes rest)

theorem mem_place {bucket : Bucket} {name : String} {entries : List Entry} {rest : List Bucket}
    (member : bucket ∈ place name entries rest) :
    bucket = ⟨name, entries⟩ ∧ entries ≠ [] ∨ bucket ∈ rest := by
  unfold place at member
  split at member
  · exact Or.inr member
  · rename_i filled
    rcases List.mem_cons.mp member with same | later
    · exact Or.inl ⟨same, by simpa using filled⟩
    · exact Or.inr later

theorem mem_names_alter {other name : String} {change : List Entry → List Entry}
    {buckets : List Bucket} (member : other ∈ (alter name change buckets).map Bucket.name) :
    other = name ∨ other ∈ buckets.map Bucket.name := by
  induction buckets with
  | nil =>
    obtain ⟨bucket, place, rfl⟩ := List.mem_map.mp member
    rcases mem_place place with ⟨rfl, _⟩ | none
    · exact Or.inl rfl
    · simp at none
  | cons bucket rest ih =>
    simp only [alter] at member
    split at member
    · obtain ⟨found, place, rfl⟩ := List.mem_map.mp member
      rcases mem_place place with ⟨rfl, _⟩ | later
      · exact Or.inl rfl
      · exact Or.inr (List.mem_cons_of_mem _ (List.mem_map_of_mem later))
    · rcases List.mem_cons.mp member with same | later
      · exact Or.inr (by simp [same])
      · rcases ih later with same | old
        · exact Or.inl same
        · exact Or.inr (List.mem_cons_of_mem _ old)

theorem mem_names_keep {other : String} {passes : Entry → Bool} {buckets : List Bucket}
    (member : other ∈ (keep passes buckets).map Bucket.name) :
    other ∈ buckets.map Bucket.name := by
  induction buckets with
  | nil => simp [keep] at member
  | cons bucket rest ih =>
    obtain ⟨found, place, rfl⟩ := List.mem_map.mp member
    rcases mem_place place with ⟨rfl, _⟩ | later
    · simp
    · exact List.mem_cons_of_mem _ (ih (List.mem_map_of_mem later))

theorem nodup_names_place {name : String} {entries : List Entry} {rest : List Bucket}
    (absent : name ∉ rest.map Bucket.name) (distinct : (rest.map Bucket.name).Nodup) :
    ((place name entries rest).map Bucket.name).Nodup := by
  unfold place
  split
  · exact distinct
  · exact List.nodup_cons.mpr ⟨absent, distinct⟩

theorem nodup_names_alter (name : String) (change : List Entry → List Entry)
    {buckets : List Bucket} (distinct : (buckets.map Bucket.name).Nodup) :
    ((alter name change buckets).map Bucket.name).Nodup := by
  induction buckets with
  | nil => exact nodup_names_place (by simp) (by simp)
  | cons bucket rest ih =>
    obtain ⟨absent, distinctRest⟩ := List.nodup_cons.mp distinct
    simp only [alter]
    split
    · rename_i same
      exact nodup_names_place (same ▸ absent) distinctRest
    · rename_i different
      refine List.nodup_cons.mpr ⟨fun member => ?_, ih distinctRest⟩
      rcases mem_names_alter member with same | old
      · exact different same
      · exact absent old

theorem nodup_names_keep (passes : Entry → Bool) {buckets : List Bucket}
    (distinct : (buckets.map Bucket.name).Nodup) :
    ((keep passes buckets).map Bucket.name).Nodup := by
  induction buckets with
  | nil => simp [keep]
  | cons bucket rest ih =>
    obtain ⟨absent, distinctRest⟩ := List.nodup_cons.mp distinct
    exact nodup_names_place (fun member => absent (mem_names_keep member)) (ih distinctRest)

theorem entries_ne_nil_alter (name : String) (change : List Entry → List Entry)
    {buckets : List Bucket} (inhabited : ∀ bucket ∈ buckets, bucket.entries ≠ []) :
    ∀ bucket ∈ alter name change buckets, bucket.entries ≠ [] := by
  induction buckets with
  | nil =>
    intro bucket member
    rcases mem_place member with ⟨rfl, filled⟩ | none
    · exact filled
    · simp at none
  | cons first rest ih =>
    intro bucket member
    have inhabitedRest : ∀ bucket ∈ rest, bucket.entries ≠ [] :=
      fun bucket later => inhabited bucket (List.mem_cons_of_mem _ later)
    simp only [alter] at member
    split at member
    · rcases mem_place member with ⟨rfl, filled⟩ | later
      · exact filled
      · exact inhabitedRest bucket later
    · rcases List.mem_cons.mp member with rfl | later
      · exact inhabited _ (by simp)
      · exact ih inhabitedRest bucket later

theorem entries_ne_nil_keep (passes : Entry → Bool) (buckets : List Bucket) :
    ∀ bucket ∈ keep passes buckets, bucket.entries ≠ [] := by
  induction buckets with
  | nil => simp [keep]
  | cons first rest ih =>
    intro bucket member
    rcases mem_place member with ⟨rfl, filled⟩ | later
    · exact filled
    · exact ih bucket later

end Bucket

structure Index where
  buckets : List Bucket
  distinct : (buckets.map Bucket.name).Nodup
  inhabited : ∀ bucket ∈ buckets, bucket.entries ≠ []

namespace Index

def empty : Index :=
  ⟨[], by simp, by simp⟩

instance : Inhabited Index :=
  ⟨empty⟩

def alter (index : Index) (name : String) (change : List Entry → List Entry) : Index :=
  ⟨Bucket.alter name change index.buckets, Bucket.nodup_names_alter name change index.distinct,
    Bucket.entries_ne_nil_alter name change index.inhabited⟩

/-- The entries declared under exactly this name, oldest first. -/
def get (index : Index) (name : String) : List Entry :=
  Bucket.lookup name index.buckets

def contains (index : Index) (name : String) : Bool :=
  index.buckets.any (·.name == name)

def entries (index : Index) : List Entry :=
  index.buckets.flatMap Bucket.entries

def size (index : Index) : Nat :=
  index.entries.length

def isEmpty (index : Index) : Bool :=
  index.buckets.isEmpty

def names (index : Index) : List String :=
  (index.buckets.map Bucket.name).mergeSort fun first second => first ≤ second

def insert (index : Index) (entry : Entry) : Index :=
  index.alter entry.name (· ++ [entry])

def update (index : Index) (name : String) (change : Entry → Entry) : Index :=
  index.alter name (List.map change)

def setVisibility (index : Index) (name : String) (visibility : Visibility) : Index :=
  index.update name (·.withVisibility visibility)

/-- Puts other entries under a name; no entries take the name out of the index. -/
def replace (index : Index) (name : String) (entries : List Entry) : Index :=
  index.alter name fun _ => entries

def eraseFile (index : Index) (path : String) : Index :=
  ⟨Bucket.keep (·.filePath != path) index.buckets,
    Bucket.nodup_names_keep _ index.distinct, Bucket.entries_ne_nil_keep _ _⟩

def countFile (index : Index) (path : String) : Nat :=
  index.entries.countP (·.filePath == path)

def sortedBuckets (index : Index) : List Bucket :=
  index.buckets.mergeSort fun first second => first.name ≤ second.name

def aliases (index : Index) : List Entry :=
  (index.entries.filter Entry.isAlias).mergeSort fun first second => first.name ≤ second.name

def setMethodVisibility (index : Index) (name : String) (owner : Option String)
    (visibility : Visibility) : Index :=
  index.update name fun entry =>
    if entry.isMethod && entry.owner == owner then entry.withVisibility visibility else entry

def apply (index : Index) : Change → Index
  | .declare entry => index.insert entry
  | .hide name => index.setVisibility name .isPrivate
  | .setMethodVisibility name owner visibility => index.setMethodVisibility name owner visibility

def applyAll (index : Index) (changes : List Change) : Index :=
  changes.foldl apply index

end Index

end DeclarationIndex
