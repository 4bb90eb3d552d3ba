import DeclarationIndex.Parameter
import DeclarationIndex.Tree.Node

/-!
Parameters read off a parameter list of the tree. A positional parameter after an optional one or
a splat is post-required; whatever is no parameter is passed over.
-/

namespace DeclarationIndex.Parameter

def nameOr (source : SourceText) (sign : String) (node : Node) : String :=
  match node.child? .name with
  | none => sign
  | some name =>
      let text := name.text source
      if text.isEmpty then sign else text

def opensOptionalGroup (kind : NodeKind) : Bool :=
  kind = .optionalParameter || kind = .splatParameter

def ofNode? (source : SourceText) (afterOptional : Bool) (node : Node) : Option Parameter :=
  match node.kind with
  | .identifier | .destructuredParameter =>
      some ⟨node.text source, if afterOptional then .postRequired else .required⟩
  | .optionalParameter => some ⟨nameOr source "?" node, .optional⟩
  | .splatParameter => some ⟨nameOr source "*" node, .rest⟩
  | .keywordParameter => some ⟨nameOr source "?" node, .keyword⟩
  | .hashSplatParameter => some ⟨nameOr source "**" node, .keywordRest⟩
  | .blockParameter => some ⟨nameOr source "&" node, .block⟩
  | .forwardParameter => some ⟨"...", .forward⟩
  | _ => none

def ofNodes (source : SourceText) (afterOptional : Bool) : List Node → List Parameter
  | [] => []
  | node :: rest =>
      (ofNode? source afterOptional node).toList ++
        ofNodes source (afterOptional || opensOptionalGroup node.kind) rest

def ofList (source : SourceText) (list : Node) : List Parameter :=
  ofNodes source false list.namedChildren

end DeclarationIndex.Parameter
