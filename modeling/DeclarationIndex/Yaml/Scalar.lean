import DeclarationIndex.Yaml.Cell

/-!
The texts of scalars: in quotes, plain, or as a block. Line breaks inside the first three are
folded: a single one becomes a space, and of several the first is lost.
-/

namespace DeclarationIndex.Yaml

/-- White space between two words of a scalar; lists hold the last character first. -/
structure Gap where
  spaces : List Char
  /-- Whether a line ended in the gap; spaces no longer count then. -/
  folded : Bool
  firstBreak : Option Char
  laterBreaks : List Char

namespace Gap

def empty : Gap :=
  ⟨[], false, none, []⟩

def escapedBreak : Gap :=
  ⟨[], true, none, []⟩

def isEmpty (gap : Gap) : Bool :=
  gap.spaces.isEmpty && !gap.folded

def space (gap : Gap) (c : Char) : Gap :=
  if gap.folded then gap else { gap with spaces := c :: gap.spaces }

def lineBreak (gap : Gap) (c : Char) : Gap :=
  if gap.folded then { gap with laterBreaks := c :: gap.laterBreaks }
  else ⟨[], true, some c, []⟩

def reversedText (gap : Gap) : List Char :=
  if !gap.folded then gap.spaces
  else
    match gap.firstBreak with
    | some '\n' => if gap.laterBreaks.isEmpty then [' '] else gap.laterBreaks
    | some c => gap.laterBreaks ++ [c]
    | none => gap.laterBreaks

end Gap

def singleQuoted (read : List Char) (gap : Gap) : List Cell → Option (List Char × List Cell)
  | [] => none
  | cell :: rest =>
      let c := cell.char
      if isSpace c then singleQuoted read (gap.space c) rest
      else if isBreak c then singleQuoted read (gap.lineBreak c) rest
      else if atDocumentMark (cell :: rest) then none
      else
        let read := gap.reversedText ++ read
        if c == '\x27' then
          match rest with
          | next :: after =>
              if next.char == '\x27' then singleQuoted ('\x27' :: read) Gap.empty after
              else some (read.reverse, next :: after)
          | [] => some (read.reverse, [])
        else singleQuoted (c :: read) Gap.empty rest

inductive Escape where
  | outside
  | started
  | hexadecimal (left value : Nat)

def hexDigit? (c : Char) : Option Nat :=
  if '0' ≤ c && c ≤ '9' then some (c.toNat - '0'.toNat)
  else if 'a' ≤ c && c ≤ 'f' then some (c.toNat - 'a'.toNat + 10)
  else if 'A' ≤ c && c ≤ 'F' then some (c.toNat - 'A'.toNat + 10)
  else none

def charOfCode? (code : Nat) : Option Char :=
  if code.isValidChar then some (Char.ofNat code) else none

def unescape? : Char → Option Char
  | '0' => some '\x00'
  | 'a' => some '\x07'
  | 'b' => some '\x08'
  | 't' => some '\t'
  | '\t' => some '\t'
  | 'n' => some '\n'
  | 'v' => some '\x0b'
  | 'f' => some '\x0c'
  | 'r' => some '\r'
  | 'e' => some '\x1b'
  | ' ' => some ' '
  | '\x22' => some '\x22'
  | '/' => some '/'
  | '\\' => some '\\'
  | 'N' => some '\u0085'
  | '_' => some '\u00a0'
  | 'L' => some '\u2028'
  | 'P' => some '\u2029'
  | _ => none

def hexLength? : Char → Option Nat
  | 'x' => some 2
  | 'u' => some 4
  | 'U' => some 8
  | _ => none

def doubleQuoted (escape : Escape) (read : List Char) (gap : Gap) :
    List Cell → Option (List Char × List Cell)
  | [] => none
  | cell :: rest =>
      let c := cell.char
      match escape with
      | .hexadecimal left value =>
          match hexDigit? c with
          | none => none
          | some digit =>
              let value := value * 16 + digit
              if left ≤ 1 then
                match charOfCode? value with
                | none => none
                | some written => doubleQuoted .outside (written :: read) Gap.empty rest
              else doubleQuoted (.hexadecimal (left - 1) value) read gap rest
      | .started =>
          if isBreak c then doubleQuoted .outside read Gap.escapedBreak rest
          else
            match hexLength? c with
            | some length => doubleQuoted (.hexadecimal length 0) read Gap.empty rest
            | none =>
                match unescape? c with
                | some plain => doubleQuoted .outside (plain :: read) Gap.empty rest
                | none => none
      | .outside =>
          if isSpace c then doubleQuoted .outside read (gap.space c) rest
          else if isBreak c then doubleQuoted .outside read (gap.lineBreak c) rest
          else if atDocumentMark (cell :: rest) then none
          else
            let read := gap.reversedText ++ read
            if c == '\x22' then some (read.reverse, rest)
            else if c == '\\' then doubleQuoted .started read Gap.empty rest
            else doubleQuoted .outside (c :: read) Gap.empty rest

def isFlowIndicator (c : Char) : Bool :=
  c == ',' || c == '[' || c == ']' || c == '\x7b' || c == '\x7d'

structure PlainText where
  text : List Char
  rest : List Cell
  leftLine : Bool

/-- Whether a plain scalar ends before a cell: at a line that is indented less, a document mark, a
comment, a colon before white space, and in a flow collection at an indicator. -/
def endsPlain (inFlow : Bool) (indent : Int) (gap : Gap) (cell : Cell) (rest : List Cell) : Bool :=
  let c := cell.char
  (!gap.isEmpty && !inFlow && (cell.column : Int) < indent) || atDocumentMark (cell :: rest) ||
    (c == '#' && !gap.isEmpty) || (c == ':' && atWhiteOrEnd rest) || (inFlow && isFlowIndicator c)

/-- A plain scalar, which goes on over lines that are indented at least so far. In a flow
collection it cannot hold a colon before an indicator. -/
def plain (inFlow : Bool) (indent : Int) (read : List Char) (gap : Gap) :
    List Cell → Option PlainText
  | [] => some ⟨read.reverse, [], gap.folded⟩
  | cell :: rest =>
      let c := cell.char
      if isSpace c then
        if gap.folded && (cell.column : Int) < indent && c == '\t' then none
        else plain inFlow indent read (gap.space c) rest
      else if isBreak c then plain inFlow indent read (gap.lineBreak c) rest
      else if endsPlain inFlow indent gap cell rest then
        some ⟨read.reverse, cell :: rest, gap.folded⟩
      else if inFlow && c == ':' &&
          rest.head?.any (fun next => isFlowIndicator next.char || next.char == '?') then none
      else plain inFlow indent (c :: (gap.reversedText ++ read)) Gap.empty rest

inductive Chomping where
  | strip
  | clip
  | keep
  deriving DecidableEq

structure BlockHeader where
  chomping : Chomping
  /-- The indentation, if it is told, relative to the enclosing one. -/
  indentation : Option Nat

def chomping? : Char → Option Chomping
  | '+' => some .keep
  | '-' => some .strip
  | _ => none

def blockHeader? : List Cell → Option (BlockHeader × List Cell)
  | [] => some (⟨.clip, none⟩, [])
  | cell :: rest =>
      match chomping? cell.char with
      | some chomping =>
          match rest with
          | next :: after =>
              if next.char == '0' then none
              else if next.char.isDigit then
                some (⟨chomping, hexDigit? next.char⟩, after)
              else some (⟨chomping, none⟩, rest)
          | [] => some (⟨chomping, none⟩, [])
      | none =>
          if cell.char == '0' then none
          else if cell.char.isDigit then
            match rest with
            | next :: after =>
                match chomping? next.char with
                | some chomping => some (⟨chomping, hexDigit? cell.char⟩, after)
                | none => some (⟨.clip, hexDigit? cell.char⟩, rest)
            | [] => some (⟨.clip, hexDigit? cell.char⟩, [])
          else some (⟨.clip, none⟩, cell :: rest)

/-- The widest indentation among the blank lines in front and the first line with a text, or the
end; a tab there is refused. -/
def widestIndent? (widest column : Nat) : List Cell → Option Nat
  | [] => some (max widest column)
  | cell :: rest =>
      if cell.char == ' ' then widestIndent? widest (column + 1) rest
      else if cell.char == '\t' then none
      else if isBreak cell.char then widestIndent? (max widest column) 0 rest
      else some (max widest column)

/-- The lines of a block scalar while they are read; lists hold the last character first. -/
structure BlockText where
  read : List Char
  inLine : Bool
  /-- The break after the last line, and those of the blank lines after it. -/
  firstBreak : Option Char
  laterBreaks : List Char
  /-- Whether the last line started with white space; such lines are not folded. -/
  spaced : Bool

namespace BlockText

def start : BlockText :=
  ⟨[], false, none, [], false⟩

def join (block : BlockText) (isLiteral : Bool) (c : Char) : BlockText :=
  let folds := !isLiteral && block.firstBreak == some '\n' && !block.spaced && !isSpace c
  let between :=
    if folds then (if block.laterBreaks.isEmpty then [' '] else block.laterBreaks)
    else block.laterBreaks ++ block.firstBreak.toList
  ⟨c :: (between ++ block.read), true, none, [], isSpace c⟩

def finish (block : BlockText) (chomping : Chomping) : List Char :=
  let last := match chomping with
    | .strip => []
    | .clip => block.firstBreak.toList
    | .keep => block.laterBreaks ++ block.firstBreak.toList
  (last ++ block.read).reverse

end BlockText

def blockLines (isLiteral : Bool) (chomping : Chomping) (indent : Nat) (block : BlockText) :
    List Cell → Option (List Char × List Cell)
  | [] => some (block.finish chomping, [])
  | cell :: rest =>
      let c := cell.char
      if block.inLine then
        if isBreak c then
          blockLines isLiteral chomping indent
            { block with inLine := false, firstBreak := some c } rest
        else
          blockLines isLiteral chomping indent { block with read := c :: block.read } rest
      else if cell.column < indent && c == ' ' then
        blockLines isLiteral chomping indent block rest
      else if cell.column < indent && c == '\t' then none
      else if isBreak c then
        blockLines isLiteral chomping indent
          { block with laterBreaks := c :: block.laterBreaks } rest
      else if cell.column == indent then
        blockLines isLiteral chomping indent (block.join isLiteral c) rest
      else some (block.finish chomping, cell :: rest)

def blockScalar (isLiteral : Bool) (outer : Int) (cells : List Cell) :
    Option (List Char × List Cell) := do
  let (header, cells) ← blockHeader? cells
  let cells ← endLine? cells
  let indent ← match header.indentation with
    | some indentation => some ((max outer 0).toNat + indentation)
    | none => (widestIndent? 0 0 cells).map fun widest => max widest (max (outer + 1).toNat 1)
  blockLines isLiteral header.chomping indent BlockText.start cells

end DeclarationIndex.Yaml
