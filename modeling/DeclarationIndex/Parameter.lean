/-! Parameters of a method, in declaration order. -/

namespace DeclarationIndex

inductive ParameterKind where
  /-- A positional parameter before any optional or rest parameter. -/
  | required
  | optional
  | rest
  | keyword
  | keywordRest
  | block
  /-- A positional parameter after an optional or rest parameter. -/
  | postRequired
  | forward
  deriving DecidableEq, Inhabited

namespace ParameterKind

def name : ParameterKind → String
  | required => "required"
  | optional => "optional"
  | rest => "rest"
  | keyword => "keyword"
  | keywordRest => "keyword_rest"
  | block => "block"
  | postRequired => "post_required"
  | forward => "forward"

def ofName? : String → Option ParameterKind
  | "required" => some required
  | "optional" => some optional
  | "rest" => some rest
  | "keyword" => some keyword
  | "keyword_rest" => some keywordRest
  | "block" => some block
  | "post_required" => some postRequired
  | "forward" => some forward
  | _ => none

theorem ofName?_name (kind : ParameterKind) : ofName? kind.name = some kind := by
  cases kind <;> rfl

end ParameterKind

structure Parameter where
  name : String
  kind : ParameterKind
  deriving DecidableEq, Inhabited

def Parameter.render (parameter : Parameter) : String :=
  parameter.name ++ " (" ++ parameter.kind.name ++ ")"

end DeclarationIndex
