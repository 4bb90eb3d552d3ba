import DeclarationIndex.Declaration.Form

/-!
The walk over a syntax tree. It keeps the namespaces and sections of the scope, reaches what may
hold declarations, and passes through every kind of node it has no rule for.
-/

namespace DeclarationIndex

variable (file : FileContext)

mutual

/-- Walks a node; the kinds of the nodes above it are given, nearest first. -/
def walk (above : List NodeKind) : Node → Walk
  | ⟨kind, named, field, span, children⟩ =>
      let node : Node := ⟨kind, named, field, span, children⟩
      let inside := kind :: above
      match kind with
      | .classDefinition | .moduleDefinition =>
          let body := walkExcept inside [.name, .superclass] children
          let name := file.fieldText node .name
          (walkInField inside .superclass children).andThen
            (if Naming.isConstantPath name then
              (file.declareNamespace node).andThen (Walk.inNamespace name body)
            else Walk.inBody body)
      | .singletonClass => Walk.inBody (walkNamed inside children)
      | .assignment | .operatorAssignment =>
          match node.constantTarget? with
          | none => walkNamed inside children
          | some target =>
              (if node.valueIsConstant then Walk.done
                else walkField inside .right children).andThen
                (file.declareConstant node target)
      | .method | .singletonMethod =>
          (file.declareMethod node none).andThen (walkExcept inside [.name, .object] children)
      | .call =>
          match CallForm.ofNode file node with
          | .hidesConstants => (file.hideConstants node).andThen (walkNamed inside children)
          | .definesAttributes reader writer =>
              (file.declareAttributes node reader writer).andThen (walkNamed inside children)
          | .setsVisibility visibility =>
              (if node.argumentNodes.isEmpty then
                Walk.markSection above (some visibility) else Walk.done).andThen
                ((walkArgumentsOf inside visibility children).andThen
                  (walkField inside .block children))
          | .plain => walkNamed inside children
      | .identifier => Walk.markSection above (Visibility.ofName? (file.text node))
      | _ => walkNamed inside children

def walkNamed (above : List NodeKind) : List Node → Walk
  | [] => Walk.done
  | node :: rest =>
      (if node.named then walk above node else Walk.done).andThen (walkNamed above rest)

def walkExcept (above : List NodeKind) (fields : List Field) : List Node → Walk
  | [] => Walk.done
  | node :: rest =>
      (if node.named && !node.field.any fields.contains then walk above node
        else Walk.done).andThen (walkExcept above fields rest)

def walkField (above : List NodeKind) (field : Field) : List Node → Walk
  | [] => Walk.done
  | node :: rest =>
      if node.field = some field then walk above node else walkField above field rest

def walkInField (above : List NodeKind) (field : Field) : List Node → Walk
  | [] => Walk.done
  | ⟨kind, _, own, _, children⟩ :: rest =>
      if own = some field then walkNamed (kind :: above) children
      else walkInField above field rest

def walkArgumentsOf (above : List NodeKind) (visibility : Visibility) : List Node → Walk
  | [] => Walk.done
  | ⟨kind, _, own, _, children⟩ :: rest =>
      if own = some .arguments then walkArguments (kind :: above) visibility children
      else walkArgumentsOf above visibility rest

/-- Walks the arguments of a visibility call: methods are declared with the visibility, the
methods that literals name get it, and anything else is walked. -/
def walkArguments (above : List NodeKind) (visibility : Visibility) : List Node → Walk
  | [] => Walk.done
  | ⟨kind, named, field, span, children⟩ :: rest =>
      let node : Node := ⟨kind, named, field, span, children⟩
      let this :=
        if !named then Walk.done
        else if kind.isMethod then
          (file.declareMethod node (some visibility)).andThen
            (walkExcept (kind :: above) [.name, .object] children)
        else
          match file.spelledName? node with
          | some name =>
              Walk.emit fun scope => [.setMethodVisibility name scope.owner visibility]
          | none => walk above node
      this.andThen (walkArguments above visibility rest)

end

def changesOf (root : Node) : List Change :=
  (walk file [] root Scope.topLevel).1

end DeclarationIndex
