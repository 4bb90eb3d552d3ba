import DeclarationIndex.Text.CaseTable

/-!
Lowercase of a whole text. Two characters are special: the capital I with a dot becomes two
characters, and a capital sigma that ends a word takes its final form.
-/

namespace DeclarationIndex.Lowercase

def inRanges (ranges : List (Nat × Nat)) (c : Char) : Bool :=
  ranges.any fun range => range.1 ≤ c.toNat && c.toNat ≤ range.2

def isIgnorable (c : Char) : Bool :=
  inRanges CaseTable.ignorable c

def isCased (c : Char) : Bool :=
  inRanges CaseTable.cased c

def single (c : Char) : Char :=
  let code := c.toNat
  let within (run : CaseTable.Run) : Bool :=
    run.first ≤ code && code ≤ run.last && (code - run.first) % run.step == 0
  match CaseTable.lowercase.find? within with
  | some run => Char.ofNat (run.lower + (code - run.first))
  | none => c

def casedNext (text : List Char) : Bool :=
  match text.dropWhile isIgnorable with
  | c :: _ => isCased c
  | [] => false

/-- The lowercase of a character between the text before it, nearest first, and the text after. -/
def mapChar (before : List Char) (c : Char) (after : List Char) : List Char :=
  if c == 'Σ' then [if casedNext before && !casedNext after then 'ς' else 'σ']
  else if c == 'İ' then ['i', '\u0307']
  else [single c]

def mapChars (before : List Char) : List Char → List Char
  | [] => []
  | c :: after => mapChar before c after ++ mapChars (c :: before) after

def ofString (text : String) : String :=
  String.ofList (mapChars [] text.toList)

end DeclarationIndex.Lowercase
