import DeclarationIndex.Text.Blank
import DeclarationIndex.Tree.Node

/-!
The comments of a file in source order. A comment is trailing when something other than white
space stands before it on its line.
-/

namespace DeclarationIndex

structure Comment where
  /-- The line it starts on, counted from one. -/
  line : Nat
  text : String
  trailing : Bool
  deriving DecidableEq, Inhabited

namespace Comment

/-- Block comments are not line comments. -/
def isLineComment (comment : Comment) : Bool :=
  match comment.text.toList with
  | '#' :: _ => true
  | _ => false

/-- The bytes before an offset on the same line. -/
def bytesBefore (source : SourceText) (offset : Nat) : List UInt8 :=
  ((source.bytes.extract 0 offset).data.toList.reverse.takeWhile (· != 10)).reverse

def ofNode (source : SourceText) (node : Node) : Comment where
  line := node.line
  text := node.text source
  trailing := (bytesBefore source node.span.startByte).any (fun byte => !isBlankByte byte)

mutual

def ofTree (source : SourceText) : Node → List Comment
  | ⟨kind, named, field, span, children⟩ =>
      if kind = .comment then
        ofNode source ⟨kind, named, field, span, children⟩ :: ofTrees source children
      else ofTrees source children

def ofTrees (source : SourceText) : List Node → List Comment
  | [] => []
  | node :: rest => ofTree source node ++ ofTrees source rest

end

end Comment

end DeclarationIndex
