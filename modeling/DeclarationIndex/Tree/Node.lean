import DeclarationIndex.Tree.Kind

/-!
Concrete syntax trees over a source text. A node knows its span; its text is what the source
holds there. Children are reached by position, by being named, or by the field they fill.
-/

namespace DeclarationIndex

/-- A source file as the bytes of its text; spans count bytes. -/
structure SourceText where
  bytes : ByteArray
  deriving Inhabited

namespace SourceText

def ofString (text : String) : SourceText :=
  ⟨text.toUTF8⟩

/-- The text between two byte offsets, empty where they cut a character. -/
def slice (source : SourceText) (start stop : Nat) : String :=
  (String.fromUTF8? (source.bytes.extract start stop)).getD ""

end SourceText

/-- A place in a source: row and byte column, both counted from zero. -/
structure Point where
  row : Nat
  column : Nat
  deriving DecidableEq, Inhabited

structure Span where
  startByte : Nat
  stopByte : Nat
  start : Point
  stop : Point
  deriving DecidableEq, Inhabited

/-- The span of bytes that all lie on one row, the first of them at the column. -/
def Span.onRow (startByte stopByte row column : Nat) : Span :=
  ⟨startByte, stopByte, ⟨row, column⟩, ⟨row, column + (stopByte - startByte)⟩⟩

structure Node where
  kind : NodeKind
  named : Bool
  field : Option Field
  span : Span
  children : List Node
  deriving Inhabited

structure Tree where
  root : Node
  hasError : Bool
  deriving Inhabited

namespace Node

def namedChildren (node : Node) : List Node :=
  node.children.filter (·.named)

def firstWithField (field : Field) (nodes : List Node) : Option Node :=
  nodes.find? (·.field == some field)

/-- The first child that fills the field; an error node has no fields. -/
def child? (node : Node) (field : Field) : Option Node :=
  if node.kind = .error then none else firstWithField field node.children

def text (source : SourceText) (node : Node) : String :=
  source.slice node.span.startByte node.span.stopByte

/-- The line a node starts on, counted from one. -/
def line (node : Node) : Nat :=
  node.span.start.row + 1

mutual

def preorder : Node → List Node
  | ⟨kind, named, field, span, children⟩ =>
      ⟨kind, named, field, span, children⟩ :: preorderList children

def preorderList : List Node → List Node
  | [] => []
  | node :: rest => preorder node ++ preorderList rest

end

end Node

end DeclarationIndex
