import DeclarationIndex.Index.Basic
import DeclarationIndex.Text.Lowercase

/-!
Two ways to search an index: by the beginning of a name, and by likeness to a name. The second
takes the similarity of texts as a parameter, into any type of scores that can be compared.
-/

namespace DeclarationIndex

namespace Naming

def afterLastSeparator : List Char → Option (List Char)
  | [] => none
  | c :: rest =>
      match afterLastSeparator rest with
      | some segment => some segment
      | none =>
          match rest with
          | ':' :: segment => if c = ':' then some segment else none
          | _ => none

def lastSegment (path : String) : String :=
  match afterLastSeparator path.toList with
  | some segment => String.ofList segment
  | none => path

end Naming

namespace Index

def beginsWith (beginning : String) (name : String) : Bool :=
  beginning.toList.isPrefixOf name.toList

def startingWith (index : Index) (beginning : String) : List Entry :=
  ((index.buckets.filter fun bucket => beginsWith beginning bucket.name).mergeSort
    fun first second => first.name ≤ second.name).flatMap Bucket.entries

/-- Queries of fewer bytes are too short to compare and are searched as a beginning. -/
def shortestCompared : Nat := 4

section Fuzzy

variable {Score : Type} [LE Score] [DecidableLE Score]

def larger (first second : Score) : Score :=
  if first ≤ second then second else first

/-- How like a name is to a query in lowercase: as a whole or by its last segment, whichever is
more like. -/
def scoreOf (similarity : String → String → Score) (query name : String) : Score :=
  let lower := Lowercase.ofString name
  larger (similarity query lower) (similarity query (Naming.lastSegment lower))

/-- Better scores come first, and ascending names where the scores are equal. -/
def ranksBefore (first second : Bucket × Score) : Bool :=
  if first.2 ≤ second.2 then
    if second.2 ≤ first.2 then first.1.name ≤ second.1.name else false
  else true

def similarTo (index : Index) (similarity : String → String → Score) (perfect : Score)
    (query : String) (threshold : Score) : List (Entry × Score) :=
  if query.utf8ByteSize < shortestCompared then
    (index.startingWith query).map fun entry => (entry, perfect)
  else
    let lower := Lowercase.ofString query
    let scored := index.buckets.map fun bucket => (bucket, scoreOf similarity lower bucket.name)
    let ranked := (scored.filter fun hit => threshold ≤ hit.2).mergeSort ranksBefore
    ranked.flatMap fun hit => hit.1.entries.map fun entry => (entry, hit.2)

end Fuzzy

end Index

end DeclarationIndex
