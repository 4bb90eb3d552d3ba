import DeclarationIndex.Json.Read
import DeclarationIndex.Tree.Node

/-!
Trees as JSON: whether there was an error, and the list of all nodes in preorder. Each node is an
array of the position of its parent, its kind, whether it is named, its field, its bytes, and its
start and end.
-/

namespace DeclarationIndex

structure ListedNode where
  parent : Option Nat
  kind : NodeKind
  named : Bool
  field : Option Field
  span : Span

namespace ListedNode

def ofJson? : Json → Option ListedNode
  | .array [parent, .string kind, named, field, startByte, stopByte, startRow, startColumn, endRow,
      endColumn] => do
      some
        { parent := parent.natural?
          kind := NodeKind.ofName kind
          named := (← named.natural?) != 0
          field := field.text?.map Field.ofName
          span :=
            { startByte := ← startByte.natural?
              stopByte := ← stopByte.natural?
              start := ⟨← startRow.natural?, ← startColumn.natural?⟩
              stop := ⟨← endRow.natural?, ← endColumn.natural?⟩ } }
  | _ => none

/-- Hangs a node into the list of its parent's children. In preorder the children of a node come
after it, so from the end of the list its own are complete by then. -/
def hang (listed : ListedNode × Nat) (children : Array (List Node)) : Array (List Node) :=
  let (node, position) := listed
  let whole : Node := ⟨node.kind, node.named, node.field, node.span, children.getD position []⟩
  -- the slot after the last node holds the root
  children.modify (node.parent.getD (children.size - 1)) (whole :: ·)

def root? (nodes : List ListedNode) : Option Node :=
  let slots := Array.replicate (nodes.length + 1) []
  ((nodes.zipIdx.foldr hang slots).getD nodes.length []).head?

end ListedNode

namespace Tree

def ofJson? : Json → Option Tree
  | .object fields => do
      let hasError ← match fields.lookup "has_error" with
        | some (.bool hasError) => some hasError
        | _ => none
      let nodes ← ((← fields.lookup "nodes").items?).bind (·.mapM ListedNode.ofJson?)
      let root ← ListedNode.root? nodes
      some ⟨root, hasError⟩
  | _ => none

end Tree

end DeclarationIndex
