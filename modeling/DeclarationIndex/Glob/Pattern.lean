/-!
Glob patterns over whole paths. A question mark stands for one character, a star for any sequence,
two stars as a whole path component for any number of directories, and brackets for a set.
-/

namespace DeclarationIndex

inductive GlobMember where
  | single (c : Char)
  | range (first last : Char)
  deriving DecidableEq, Inhabited

def GlobMember.contains (c : Char) : GlobMember → Bool
  | single member => member == c
  | range first last => first ≤ c && c ≤ last

inductive GlobToken where
  | literal (c : Char)
  | anyOne
  | anySequence
  | anyDirectories
  | oneOf (members : List GlobMember)
  | noneOf (members : List GlobMember)
  deriving DecidableEq, Inhabited

inductive GlobFault where
  | tooManyStars
  | partOfComponent
  | openSet
  deriving DecidableEq, Inhabited

structure GlobError where
  position : Nat
  fault : GlobFault
  deriving DecidableEq, Inhabited

namespace GlobError

def reason : GlobFault → String
  | .tooManyStars => "wildcards are either regular `*` or recursive `**`"
  | .partOfComponent => "recursive wildcards must form a single path component"
  | .openSet => "invalid range pattern"

def message (error : GlobError) : String :=
  "Pattern syntax error near position " ++ toString error.position ++ ": " ++ reason error.fault

end GlobError

namespace Glob

/-- The members of a set: three characters with a dash in the middle are a range. -/
def members : List Char → List GlobMember
  | first :: '-' :: last :: rest => .range first last :: members rest
  | c :: rest => .single c :: members rest
  | [] => []

inductive Place where
  | outside
  | opened (start : Nat)
  | negated (start : Nat)
  /-- In a set with at least one member, the last one read in front. -/
  | within (start : Nat) (negated : Bool) (read : List Char)

def set (negated : Bool) (read : List Char) : GlobToken :=
  if negated then .noneOf (members read.reverse) else .oneOf (members read.reverse)

def startsComponent (previous : Option Char) : Bool :=
  previous.all (· == '/')

def parseFrom (place : Place) (position : Nat) (previous : Option Char) :
    List Char → Except GlobError (List GlobToken)
  | [] =>
      match place with
      | .outside => .ok []
      | .opened start | .negated start | .within start _ _ => .error ⟨start, .openSet⟩
  | c :: rest =>
      match place with
      | .opened start =>
          if c == '!' then parseFrom (.negated start) (position + 1) (some c) rest
          else parseFrom (.within start false [c]) (position + 1) (some c) rest
      | .negated start => parseFrom (.within start true [c]) (position + 1) (some c) rest
      | .within start negated read =>
          if c == ']' then
            (parseFrom .outside (position + 1) (some c) rest).map (set negated read :: ·)
          else parseFrom (.within start negated (c :: read)) (position + 1) (some c) rest
      | .outside =>
          if c == '[' then parseFrom (.opened position) (position + 1) (some c) rest
          else if c == '?' then
            (parseFrom .outside (position + 1) (some c) rest).map (.anyOne :: ·)
          else if c == '*' then
            match rest with
            | '*' :: '*' :: _ => .error ⟨position + 2, .tooManyStars⟩
            | '*' :: rest =>
                if startsComponent previous then
                  match rest with
                  | [] => .ok [.anyDirectories]
                  | '/' :: rest =>
                      (parseFrom .outside (position + 3) (some '/') rest).map
                        (.anyDirectories :: ·)
                  | _ => .error ⟨position + 2, .partOfComponent⟩
                else .error ⟨position - 1, .partOfComponent⟩
            | rest => (parseFrom .outside (position + 1) (some c) rest).map (.anySequence :: ·)
          else (parseFrom .outside (position + 1) (some c) rest).map (.literal c :: ·)

def parse (pattern : String) : Except GlobError (List GlobToken) :=
  parseFrom .outside 0 none pattern.toList

end Glob

end DeclarationIndex
