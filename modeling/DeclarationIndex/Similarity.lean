/-!
Jaro-Winkler similarity of two texts, as a binary floating-point number. Characters match when
they are equal and not too far apart; a common beginning raises a similarity that is high already.
-/

namespace DeclarationIndex.Similarity

/-- A character of the second text, and whether one of the first has been matched with it. -/
structure Slot where
  char : Char
  taken : Bool

/-- Takes the first free slot with the character among the positions from `low` to before
`high`; `position` is that of the first slot listed. -/
def take (c : Char) (low high : Nat) : Nat → List Slot → Option (List Slot)
  | _, [] => none
  | position, slot :: rest =>
      if low ≤ position && position < high && slot.char == c && !slot.taken then
        some ({ slot with taken := true } :: rest)
      else (take c low high (position + 1) rest).map (slot :: ·)

def matchAll (range : Nat) : Nat → List Char → List Slot → List Char × List Slot
  | _, [], slots => ([], slots)
  | position, c :: rest, slots =>
      match take c (position - range) (position + range + 1) 0 slots with
      | none => matchAll range (position + 1) rest slots
      | some slots =>
          let later := matchAll range (position + 1) rest slots
          (c :: later.1, later.2)

def differences : List Char → List Char → Nat
  | first :: firsts, second :: seconds =>
      (if first == second then 0 else 1) + differences firsts seconds
  | _, _ => 0

def jaro (first second : List Char) : Float :=
  if first.isEmpty && second.isEmpty then 1.0
  else
    let range := max first.length second.length / 2 - 1
    let matched := matchAll range 0 first (second.map fun c => ⟨c, false⟩)
    let matchedSecond := (matched.2.filter Slot.taken).map Slot.char
    let count := matched.1.length
    if count == 0 then 0.0
    else
      let transpositions := differences matched.1 matchedSecond / 2
      let agreeing := Float.ofNat count
      ((agreeing / Float.ofNat first.length + agreeing / Float.ofNat second.length) +
        Float.ofNat (count - transpositions) / agreeing) / 3.0

def commonBeginning : List Char → List Char → Nat
  | first :: firsts, second :: seconds =>
      if first == second then commonBeginning firsts seconds + 1 else 0
  | _, _ => 0

/-- At most four characters of a common beginning count. -/
def jaroWinkler (first second : String) : Float :=
  let similarity := jaro first.toList second.toList
  if similarity > 0.7 then
    let common := min 4 (commonBeginning first.toList second.toList)
    similarity + (0.1 * Float.ofNat common) * (1.0 - similarity)
  else similarity

end DeclarationIndex.Similarity
