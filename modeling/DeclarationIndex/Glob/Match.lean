import DeclarationIndex.Glob.Pattern

/-!
Matching a glob against a text. For every suffix of the text, longest first, it is told whether
the rest of the pattern matches it; each token of the pattern is one step on that list.
-/

namespace DeclarationIndex.Glob

/-- For each suffix whether a test holds of its first character and the rest of it passed. -/
def oneThen (test : Char → Bool) : List Char → List Bool → List Bool
  | c :: text, _ :: next => (test c && next.headD false) :: oneThen test text next
  | _, _ => [false]

def someShorter : List Bool → List Bool
  | [] => []
  | passed :: next =>
      let shorter := someShorter next
      (passed || shorter.headD false) :: shorter

def someAfterSlash : List Char → List Bool → List Bool
  | c :: text, _ :: next =>
      let shorter := someAfterSlash text next
      ((c == '/' && next.headD false) || shorter.headD false) :: shorter
  | _, _ => [false]

/-- Nothing, something that ends with a slash, or all that is left. -/
def directoriesThen (text : List Char) (next : List Bool) : List Bool :=
  let atEnd := next.getLastD false
  List.zipWith (fun here later => here || later || atEnd) next (someAfterSlash text next)

def step (text : List Char) (token : GlobToken) (next : List Bool) : List Bool :=
  match token with
  | .literal expected => oneThen (· == expected) text next
  | .anyOne => oneThen (fun _ => true) text next
  | .oneOf members => oneThen (fun c => members.any (GlobMember.contains c)) text next
  | .noneOf members => oneThen (fun c => !members.any (GlobMember.contains c)) text next
  | .anySequence => someShorter next
  | .anyDirectories => directoriesThen text next

def onlyEmpty (text : List Char) : List Bool :=
  text.map (fun _ => false) ++ [true]

def isMatch (tokens : List GlobToken) (text : String) : Bool :=
  (tokens.foldr (step text.toList) (onlyEmpty text.toList)).headD false

end DeclarationIndex.Glob
