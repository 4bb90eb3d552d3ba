/-!
The text of a YAML stream laid out in lines and columns. Every line break is one cell, whatever
characters it is written with, and characters that no stream may hold are refused.
-/

namespace DeclarationIndex.Yaml

structure Cell where
  char : Char
  line : Nat
  column : Nat
  index : Nat
  deriving DecidableEq, Inhabited

def isBreak (c : Char) : Bool :=
  c == '\n' || c == '\r' || c == '\u0085' || c == '\u2028' || c == '\u2029'

def isSpace (c : Char) : Bool :=
  c == ' ' || c == '\t'

def isWhite (c : Char) : Bool :=
  isSpace c || isBreak c

def byteOrderMark : Char := '\ufeff'

def isWord (c : Char) : Bool :=
  c.isAlphanum || c == '_' || c == '-'

def isAllowed (c : Char) : Bool :=
  let code := c.toNat
  code == 0x09 || code == 0x0a || code == 0x0d || (0x20 ≤ code && code ≤ 0x7e) || code == 0x85 ||
    (0xa0 ≤ code && code ≤ 0xfffd) || 0x10000 ≤ code

def breakChar (c : Char) : Char :=
  if c == '\r' || c == '\u0085' then '\n' else c

def layFrom (line column index : Nat) : List Char → List Cell
  | [] => []
  | '\r' :: '\n' :: rest => ⟨'\n', line, column, index⟩ :: layFrom (line + 1) 0 (index + 2) rest
  | c :: rest =>
      if isBreak c then ⟨breakChar c, line, column, index⟩ :: layFrom (line + 1) 0 (index + 1) rest
      else ⟨c, line, column, index⟩ :: layFrom line (column + 1) (index + 1) rest

def lay? (text : String) : Option (List Cell) :=
  let chars := text.toList
  if chars.all isAllowed then some (layFrom 0 0 0 chars) else none

def atWhiteOrEnd : List Cell → Bool
  | [] => true
  | cell :: _ => isWhite cell.char

/-- Three of the character at the start of a line, with nothing else in their word. -/
def atMark (mark : Char) : List Cell → Bool
  | first :: second :: third :: rest =>
      first.column == 0 && first.char == mark && second.char == mark && third.char == mark &&
        atWhiteOrEnd rest
  | _ => false

def atDocumentMark (cells : List Cell) : Bool :=
  atMark '-' cells || atMark '.' cells

def skipSpaces (cells : List Cell) : List Cell :=
  cells.dropWhile fun cell => isSpace cell.char

def skipLine (cells : List Cell) : List Cell :=
  cells.dropWhile fun cell => !isBreak cell.char

def endLine? (cells : List Cell) : Option (List Cell) :=
  let cells := skipSpaces cells
  let cells := match cells with
    | cell :: _ => if cell.char == '#' then skipLine cells else cells
    | [] => []
  match cells with
  | [] => some []
  | cell :: rest => if isBreak cell.char then some rest else none

end DeclarationIndex.Yaml
