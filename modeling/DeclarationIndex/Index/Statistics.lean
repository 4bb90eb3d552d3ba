import DeclarationIndex.Index.Basic

/-! Counts over an index. -/

namespace DeclarationIndex

structure Statistics where
  files : Nat
  names : Nat
  entries : Nat
  /-- Kinds with at least one entry, in ascending order, and the number of their entries. -/
  byKind : List (String × Nat)
  deriving DecidableEq, Inhabited

namespace Statistics

def kindNames : List String :=
  ["class", "constant", "method", "module", "unresolved_alias"]

def countKind (entries : List Entry) (kind : String) : Nat :=
  entries.countP (·.kind.name == kind)

def ofIndex (index : Index) : Statistics where
  files := (index.entries.map Entry.filePath).eraseDups.length
  names := index.buckets.length
  entries := index.size
  byKind := (kindNames.map fun kind => (kind, countKind index.entries kind)).filter (·.2 != 0)

end Statistics

end DeclarationIndex
