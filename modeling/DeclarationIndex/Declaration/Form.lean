import DeclarationIndex.Declaration.Scope
import DeclarationIndex.Documentation
import DeclarationIndex.Parameter.OfTree

/-!
The forms that declare something, read off single nodes: constant paths, literal names, the calls
with a meaning of their own, and for each form the changes it makes in its scope.
-/

namespace DeclarationIndex

mutual

/-- A constant, or a path of constants down from one or from the root. -/
def isStaticPath : Node → Bool
  | ⟨.constant, _, _, _, _⟩ => true
  | ⟨.scopeResolution, _, _, _, children⟩ =>
      (Node.firstWithField .name children).any (·.kind = .constant) && isStaticScope children
  | _ => false

def isStaticScope : List Node → Bool
  | [] => true
  | node :: rest => if node.field = some .scope then isStaticPath node else isStaticScope rest

end

def readsConstant (node : Node) : Bool :=
  match node.kind with
  | .constant => true
  | .scopeResolution => (node.child? .name).any (·.kind = .constant)
  | _ => false

def writesConstant (node : Node) : Bool :=
  node.kind.isAssignment && (node.child? .left).any readsConstant

/-- Whether a node with these kinds above it, nearest first, is a statement of the top level or
of a class or module body. -/
def standsInBody : List NodeKind → Bool
  | [] => false
  | .program :: _ => true
  | .bodyStatement :: owners => owners.head?.any NodeKind.opensBody
  | parent :: _ => parent.opensBody

def Node.argumentNodes (node : Node) : List Node :=
  match node.child? .arguments with
  | some arguments => arguments.namedChildren
  | none => []

def Node.constantTarget? (node : Node) : Option Node :=
  (node.child? .left).filter isStaticPath

def Node.valueIsConstant (node : Node) : Bool :=
  (node.child? .right).any readsConstant

/-- The visibility of a new method: the one its declaration was handed to, else public for a
singleton method and that of the section for any other. -/
def Node.methodVisibility (node : Node) (given : Option Visibility) (scope : Scope) : Visibility :=
  match given with
  | some visibility => visibility
  | none => if node.kind = .singletonMethod then .isPublic else scope.current

def Walk.markSection (above : List NodeKind) (visibility : Option Visibility) : Walk :=
  match visibility with
  | some visibility =>
      if standsInBody above then Walk.startSection visibility else Walk.done
  | none => Walk.done

structure FileContext where
  path : String
  source : SourceText
  documentation : Documentation

namespace FileContext

variable (file : FileContext)

def text (node : Node) : String :=
  node.text file.source

def fieldText (node : Node) (field : Field) : String :=
  match node.child? field with
  | some child => file.text child
  | none => ""

def comments (node : Node) : List String :=
  file.documentation.above node.line

def dropColons (text : String) : String :=
  String.ofList (text.toList.dropWhile (· == ':'))

def spelledName? (node : Node) : Option String :=
  match node.kind with
  | .simpleSymbol =>
      let name := dropColons (file.text node)
      if name.isEmpty then none else some name
  | .string | .delimitedSymbol =>
      match node.namedChildren with
      | [content] => if content.kind = .stringContent then some (file.text content) else none
      | _ => none
  | _ => none

end FileContext

inductive CallForm where
  | hidesConstants
  | definesAttributes (reader writer : Bool)
  | setsVisibility (visibility : Visibility)
  | plain
  deriving DecidableEq

/-- Attributes and visibility are set only by calls without a receiver. -/
def CallForm.ofNode (file : FileContext) (node : Node) : CallForm :=
  let onSelf := (node.child? .receiver).isNone
  match file.fieldText node .method with
  | "private_constant" => .hidesConstants
  | "attr_reader" => if onSelf then .definesAttributes true false else .plain
  | "attr_writer" => if onSelf then .definesAttributes false true else .plain
  | "attr_accessor" => if onSelf then .definesAttributes true true else .plain
  | message =>
      match Visibility.ofName? message with
      | some visibility => if onSelf then .setsVisibility visibility else .plain
      | none => .plain

namespace FileContext

variable (file : FileContext)

def entry (node : Node) (name : String) (kind : EntryKind) (comments : List String)
    (visibility : Visibility) : Entry :=
  { name, filePath := file.path, location := Location.ofNode node, comments, visibility, kind }

def superclassText (node : Node) : Option String :=
  match node.child? .superclass with
  | none => none
  | some superclass => superclass.namedChildren.head?.map file.text

def namespaceKind (node : Node) : EntryKind :=
  if node.kind = .classDefinition then .classEntry (file.superclassText node) else .moduleEntry

def declareNamespace (node : Node) : Walk :=
  Walk.emit fun scope =>
    [.declare (file.entry node (scope.qualify (file.fieldText node .name))
      (file.namespaceKind node) (file.comments node) .isPublic)]

def constantKind (node : Node) (nesting : List String) : EntryKind :=
  match node.child? .right with
  | none => .constant
  | some value =>
      if readsConstant value then .unresolvedAlias (file.text value) nesting
      else if writesConstant value then .unresolvedAlias (file.fieldText value .left) nesting
      else .constant

def declareConstant (node target : Node) : Walk :=
  Walk.emit fun scope =>
    [.declare (file.entry node (scope.qualify (file.text target))
      (file.constantKind node scope.nesting) (file.comments node) .isPublic)]

/-- What a private-constant call puts before the names it hides: nothing on the namespace itself,
a static path on that path; on any other receiver it hides nothing. -/
def hidingPath? (node : Node) : Option String :=
  match node.child? .receiver with
  | none => some ""
  | some receiver =>
      if receiver.kind = .self then some ""
      else if isStaticPath receiver then some (file.text receiver ++ Naming.separator)
      else none

def hideConstants (node : Node) : Walk :=
  Walk.emit fun scope =>
    match file.hidingPath? node with
    | none => []
    | some path =>
        (node.argumentNodes.filterMap file.spelledName?).map fun name =>
          .hide (scope.qualify (path ++ name))

def attributeEntries (call argument : Node) (reader writer : Bool) (scope : Scope)
    (name : String) : List Entry :=
  let method (name : String) (parameters : List Parameter) :=
    file.entry argument name (.method scope.owner parameters) (file.comments call) scope.current
  (if reader then [method name []] else []) ++
    (if writer then [method (name ++ "=") [⟨name, .required⟩]] else [])

def declareAttributes (node : Node) (reader writer : Bool) : Walk :=
  Walk.emit fun scope =>
    node.argumentNodes.flatMap fun argument =>
      match file.spelledName? argument with
      | none => []
      | some name => (file.attributeEntries node argument reader writer scope name).map .declare

def parameters (node : Node) : List Parameter :=
  match node.child? .parameters with
  | some list => Parameter.ofList file.source list
  | none => []

def declareMethod (node : Node) (given : Option Visibility) : Walk :=
  Walk.emit fun scope =>
    let name := file.fieldText node .name
    if name.isEmpty then []
    else
      [.declare (file.entry node name (.method scope.owner (file.parameters node))
        (file.comments node) (node.methodVisibility given scope))]

end FileContext

end DeclarationIndex
