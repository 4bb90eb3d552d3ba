/-! Who may use a declaration. -/

namespace DeclarationIndex

inductive Visibility where
  | isPublic
  | isPrivate
  | isProtected
  deriving DecidableEq, Inhabited

namespace Visibility

def name : Visibility → String
  | isPublic => "public"
  | isPrivate => "private"
  | isProtected => "protected"

def ofName? : String → Option Visibility
  | "public" => some isPublic
  | "private" => some isPrivate
  | "protected" => some isProtected
  | _ => none

theorem ofName?_name (visibility : Visibility) : ofName? visibility.name = some visibility := by
  cases visibility <;> rfl

end Visibility

end DeclarationIndex
