/-!
The vocabulary of the syntax trees: the kinds of node that a declaration can hang on, and the
fields by which a node names its children. Every other kind is kept under its own name.
-/

namespace DeclarationIndex

inductive NodeKind where
  | program
  | classDefinition
  | moduleDefinition
  | singletonClass
  | bodyStatement
  | method
  | singletonMethod
  | assignment
  | operatorAssignment
  | call
  | identifier
  | constant
  | scopeResolution
  | self
  | simpleSymbol
  | delimitedSymbol
  | string
  | stringContent
  | comment
  | error
  | methodParameters
  | blockParameters
  | lambdaParameters
  | destructuredParameter
  | optionalParameter
  | splatParameter
  | keywordParameter
  | hashSplatParameter
  | blockParameter
  | forwardParameter
  | other (name : String)
  deriving DecidableEq, Inhabited

namespace NodeKind

def ofName : String → NodeKind
  | "program" => program
  | "class" => classDefinition
  | "module" => moduleDefinition
  | "singleton_class" => singletonClass
  | "body_statement" => bodyStatement
  | "method" => method
  | "singleton_method" => singletonMethod
  | "assignment" => assignment
  | "operator_assignment" => operatorAssignment
  | "call" => call
  | "identifier" => identifier
  | "constant" => constant
  | "scope_resolution" => scopeResolution
  | "self" => self
  | "simple_symbol" => simpleSymbol
  | "delimited_symbol" => delimitedSymbol
  | "string" => string
  | "string_content" => stringContent
  | "comment" => comment
  | "ERROR" => error
  | "method_parameters" => methodParameters
  | "block_parameters" => blockParameters
  | "lambda_parameters" => lambdaParameters
  | "destructured_parameter" => destructuredParameter
  | "optional_parameter" => optionalParameter
  | "splat_parameter" => splatParameter
  | "keyword_parameter" => keywordParameter
  | "hash_splat_parameter" => hashSplatParameter
  | "block_parameter" => blockParameter
  | "forward_parameter" => forwardParameter
  | text => other text

def isParameterList : NodeKind → Bool
  | methodParameters | blockParameters | lambdaParameters | destructuredParameter => true
  | _ => false

def opensBody : NodeKind → Bool
  | classDefinition | moduleDefinition | singletonClass => true
  | _ => false

def isAssignment : NodeKind → Bool
  | assignment | operatorAssignment => true
  | _ => false

def isMethod : NodeKind → Bool
  | method | singletonMethod => true
  | _ => false

end NodeKind

inductive Field where
  | name
  | superclass
  | left
  | right
  | scope
  | method
  | receiver
  | arguments
  | block
  | parameters
  | object
  | other (name : String)
  deriving DecidableEq, Inhabited

def Field.ofName : String → Field
  | "name" => .name
  | "superclass" => .superclass
  | "left" => .left
  | "right" => .right
  | "scope" => .scope
  | "method" => .method
  | "receiver" => .receiver
  | "arguments" => .arguments
  | "block" => .block
  | "parameters" => .parameters
  | "object" => .object
  | text => .other text

end DeclarationIndex
