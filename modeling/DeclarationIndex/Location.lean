import DeclarationIndex.Tree.Node

/-!
Where a declaration stands: lines counted from one, byte columns counted from zero, both as
32-bit words.
-/

namespace DeclarationIndex

structure Location where
  startLine : UInt32
  startColumn : UInt32
  endLine : UInt32
  endColumn : UInt32
  deriving DecidableEq, Inhabited

namespace Location

def ofNode (node : Node) : Location where
  startLine := UInt32.ofNat node.span.start.row + 1
  startColumn := UInt32.ofNat node.span.start.column
  endLine := UInt32.ofNat node.span.stop.row + 1
  endColumn := UInt32.ofNat node.span.stop.column

def render (location : Location) : String :=
  toString location.startLine ++ "-" ++ toString location.startColumn ++ ":" ++
    toString location.endLine ++ "-" ++ toString location.endColumn

end Location

end DeclarationIndex
