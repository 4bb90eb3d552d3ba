import DeclarationIndex.Comment

/-!
The documentation of a declaration: the line comments on the lines just above it. One line
without a comment may stand between; magic comments are left out but do not end the block.
-/

namespace DeclarationIndex

structure Documentation where
  comments : List Comment
  isMagic : String → Bool

namespace Documentation

def commentOn (documentation : Documentation) (line : Nat) : Option Comment :=
  documentation.comments.find? fun comment =>
    comment.line == line && !comment.trailing && comment.isLineComment

def hasComment (documentation : Documentation) (line : Nat) : Bool :=
  (documentation.commentOn line).isSome

def isLineBreak (c : Char) : Bool :=
  c == '\r' || c == '\n'

def trimLineBreaks (text : String) : String :=
  String.ofList (text.toList.reverse.dropWhile isLineBreak).reverse

def content (text : String) : String :=
  let afterHash := match text.toList with
    | '#' :: rest => rest
    | chars => chars
  match afterHash with
  | ' ' :: rest => String.ofList rest
  | chars => String.ofList chars

def linesOf (documentation : Documentation) (comment : Comment) : List String :=
  let text := trimLineBreaks comment.text
  if documentation.isMagic text then [] else [content text]

def blockEndingOn (documentation : Documentation) : Nat → List String
  | 0 => []
  | line + 1 =>
      match documentation.commentOn (line + 1) with
      | none => []
      | some comment => documentation.blockEndingOn line ++ documentation.linesOf comment

/-- The documentation of a declaration that starts on a line. -/
def above (documentation : Documentation) : Nat → List String
  | 0 => []
  | previous + 1 =>
      documentation.blockEndingOn
        (if documentation.hasComment previous then previous else previous - 1)

end Documentation

end DeclarationIndex
