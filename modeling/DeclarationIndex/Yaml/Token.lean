import DeclarationIndex.Yaml.Scalar

/-!
The tokens of a YAML stream. Indentation opens and closes block collections, so a token is found
by its first characters, its column, and the collections that are open. A key is known only at the
colon after it; the place where it may have started is remembered until then.
-/

namespace DeclarationIndex.Yaml

inductive Token where
  | versionDirective (major minor : Nat)
  | tagDirective (handle : String)
  | documentStart
  | documentEnd
  | blockSequenceStart
  | blockMappingStart
  | blockEnd
  | flowSequenceStart
  | flowSequenceEnd
  | flowMappingStart
  | flowMappingEnd
  | blockEntry
  | flowEntry
  | key
  | value
  | alias (name : String)
  | anchor (name : String)
  /-- A tag under a handle; the empty handle needs no declaration. -/
  | tag (handle : String)
  | scalar (text : String) (isPlain : Bool)
  deriving DecidableEq, Inhabited

/-- A place where a key may have started. -/
structure KeySpot where
  position : Nat
  cell : Cell
  /-- Whether the block mapping it stands in cannot go on without a key there. -/
  needed : Bool

structure Scan where
  cells : List Cell
  tokens : List Token
  /-- Columns of the open block collections, innermost first. -/
  indents : List Int
  /-- For each open flow collection and the stream itself, innermost first. -/
  spots : List (Option KeySpot)
  keyAllowed : Bool

namespace Scan

def start (cells : List Cell) : Scan :=
  ⟨cells, [], [], [none], true⟩

def indent (scan : Scan) : Int :=
  scan.indents.headD (-1)

def inFlow (scan : Scan) : Bool :=
  2 ≤ scan.spots.length

def emit (scan : Scan) (token : Token) : Scan :=
  { scan with tokens := scan.tokens ++ [token] }

def insertAt (scan : Scan) (position : Nat) (token : Token) : Scan :=
  { scan with tokens := scan.tokens.insertIdx position token }

def allowKey (scan : Scan) (allowed : Bool) : Scan :=
  { scan with keyAllowed := allowed }

def moveTo (scan : Scan) (cells : List Cell) : Scan :=
  { scan with cells }

def forgetSpot? (scan : Scan) : Option Scan :=
  match scan.spots with
  | some spot :: outer => if spot.needed then none else some { scan with spots := none :: outer }
  | _ => some scan

def markSpot? (scan : Scan) (cell : Cell) : Option Scan :=
  if scan.keyAllowed then do
    let scan ← scan.forgetSpot?
    let needed := !scan.inFlow && scan.indent == (cell.column : Int)
    some { scan with spots := some ⟨scan.tokens.length, cell, needed⟩ :: scan.spots.tail }
  else some scan

def longestKey : Nat := 1024

def dropStale? (cell : Cell) : List (Option KeySpot) → Option (List (Option KeySpot))
  | [] => some []
  | none :: rest => (dropStale? cell rest).map (none :: ·)
  | some spot :: rest =>
      if spot.cell.line < cell.line || spot.cell.index + longestKey < cell.index then
        if spot.needed then none else (dropStale? cell rest).map (none :: ·)
      else (dropStale? cell rest).map (some spot :: ·)

def openBlock (scan : Scan) (column : Int) (position : Nat) (token : Token) : Scan :=
  if !scan.inFlow && scan.indent < column then
    { scan.insertAt position token with indents := column :: scan.indents }
  else scan

def closeBlocks (column : Int) : List Int → List Int × List Token
  | [] => ([], [])
  | indent :: outer =>
      if column < indent then
        let closed := closeBlocks column outer
        (closed.1, .blockEnd :: closed.2)
      else (indent :: outer, [])

def closeTo (scan : Scan) (column : Int) : Scan :=
  if scan.inFlow then scan
  else
    let closed := closeBlocks column scan.indents
    { scan with indents := closed.1, tokens := scan.tokens ++ closed.2 }

/-- Passes over white space and comments to the next token. A new line outside of flow
collections allows a key; tabs are white space only where no key may start. A byte order mark may
start a line. -/
def skipToToken (inFlow : Bool) (inComment keyAllowed : Bool) : List Cell → List Cell × Bool
  | [] => ([], keyAllowed)
  | cell :: rest =>
      let c := cell.char
      if isBreak c then skipToToken inFlow false (keyAllowed || !inFlow) rest
      else if inComment then skipToToken inFlow true keyAllowed rest
      else if c == ' ' || (c == '\t' && (inFlow || !keyAllowed)) ||
          (c == byteOrderMark && cell.column == 0) then
        skipToToken inFlow false keyAllowed rest
      else if c == '#' then skipToToken inFlow true keyAllowed rest
      else (cell :: rest, keyAllowed)

def textOf (cells : List Cell) : String :=
  String.ofList (cells.map Cell.char)

def spanWord (cells : List Cell) : String × List Cell :=
  (textOf (cells.takeWhile fun cell => isWord cell.char),
    cells.dropWhile fun cell => isWord cell.char)

def anchorName? (cells : List Cell) : Option (String × List Cell) :=
  let (name, rest) := spanWord cells
  let ends := atWhiteOrEnd rest ||
    rest.head?.any fun cell => "?:,]\x7d%@\x60".toList.contains cell.char
  if name.isEmpty || !ends then none else some (name, rest)

def isTagChar (inUri : Bool) (c : Char) : Bool :=
  isWord c || ";/?:@&=+$.!~*\x27()".toList.contains c ||
    (inUri && (c == ',' || c == '[' || c == ']'))

def followers? (byte : Nat) : Option Nat :=
  if byte < 0x80 then some 0
  else if 0xc0 ≤ byte && byte < 0xe0 then some 1
  else if 0xe0 ≤ byte && byte < 0xf0 then some 2
  else if 0xf0 ≤ byte && byte < 0xf8 then some 3
  else none

def expected? (before byte : Nat) : Option Nat :=
  match before with
  | 0 => followers? byte
  | before + 1 => if 0x80 ≤ byte && byte < 0xc0 then some before else none

/-- Passes over the characters of a tag and counts what it passes. Bytes are written as percent
signs with two hexadecimal digits; so many are still expected of the same character. -/
def skipTagText? (inUri : Bool) (expected : Nat) : List Cell → Option (Nat × List Cell)
  | [] => if expected == 0 then some (0, []) else none
  | cell :: rest =>
      if cell.char == '%' then
        match rest with
        | high :: low :: rest => do
            let byte := 16 * (← hexDigit? high.char) + (← hexDigit? low.char)
            let found ← skipTagText? inUri (← expected? expected byte) rest
            some (found.1 + 1, found.2)
        | _ => none
      else if expected != 0 then none
      else if isTagChar inUri cell.char then
        (skipTagText? inUri 0 rest).map fun found => (found.1 + 1, found.2)
      else some (0, cell :: rest)

def tagHandle? (cells : List Cell) : Option (String × List Cell) :=
  let (word, rest) := spanWord cells
  match rest with
  | cell :: rest => if cell.char == '!' then some ("!" ++ word ++ "!", rest) else none
  | [] => none

def tag? (inFlow : Bool) (cells : List Cell) : Option (String × List Cell) := do
  let (handle, rest) ← match cells with
    | cell :: inside =>
        if cell.char == '<' then
          match ← skipTagText? true 0 inside with
          | (length, closing :: rest) =>
              if 0 < length && closing.char == '>' then some ("", rest) else none
          | _ => none
        else
          match tagHandle? cells with
          | some (handle, rest) =>
              let (length, rest) ← skipTagText? false 0 rest
              if 0 < length then some (handle, rest) else none
          | none => (skipTagText? false 0 cells).map fun found => ("", found.2)
    | [] => some ("", [])
  if atWhiteOrEnd rest || (inFlow && rest.head?.any (·.char == ',')) then some (handle, rest)
  else none

def versionNumber? (cells : List Cell) : Option (Nat × List Cell) :=
  let digits := cells.takeWhile fun cell => cell.char.isDigit
  if digits.isEmpty || 9 < digits.length then none
  else
    some (digits.foldl (fun number cell => 10 * number + (cell.char.toNat - '0'.toNat)) 0,
      cells.dropWhile fun cell => cell.char.isDigit)

def directive? (cells : List Cell) : Option (Token × List Cell) := do
  let (name, rest) := spanWord cells
  if !atWhiteOrEnd rest then none
  else
    let rest := skipSpaces rest
    match name with
    | "YAML" =>
        let (major, rest) ← versionNumber? rest
        match rest with
        | dot :: rest =>
            if dot.char == '.' then
              let (minor, rest) ← versionNumber? rest
              let rest ← endLine? rest
              some (.versionDirective major minor, rest)
            else none
        | [] => none
    | "TAG" =>
        match rest with
        | mark :: rest =>
            if mark.char == '!' then
              let (handle, rest) := (tagHandle? rest).getD ("!", rest)
              match rest with
              | space :: _ =>
                  if isSpace space.char then
                    let (length, rest) ← skipTagText? true 0 (skipSpaces rest)
                    if 0 < length && atWhiteOrEnd rest then
                      let rest ← endLine? rest
                      some (.tagDirective handle, rest)
                    else none
                  else none
              | [] => none
            else none
        | [] => none
    | _ => none

def blockEntry? (scan : Scan) (cell : Cell) (rest : List Cell) : Option Scan := do
  let scan ←
    if scan.inFlow then some scan
    else if scan.keyAllowed then
      some (scan.openBlock cell.column scan.tokens.length .blockSequenceStart)
    else none
  let scan ← scan.forgetSpot?
  some (((scan.allowKey true).moveTo rest).emit .blockEntry)

def key? (scan : Scan) (cell : Cell) (rest : List Cell) : Option Scan := do
  let scan ←
    if scan.inFlow then some scan
    else if scan.keyAllowed then
      some (scan.openBlock cell.column scan.tokens.length .blockMappingStart)
    else none
  let scan ← scan.forgetSpot?
  some (((scan.allowKey !scan.inFlow).moveTo rest).emit .key)

/-- The colon before a value. If a key may have started before it, that was one. -/
def value? (scan : Scan) (cell : Cell) (rest : List Cell) : Option Scan :=
  match scan.spots with
  | some spot :: outer =>
      let scan := { scan with spots := none :: outer }
      let scan := scan.insertAt spot.position .key
      let scan := scan.openBlock spot.cell.column spot.position .blockMappingStart
      some (((scan.allowKey false).moveTo rest).emit .value)
  | _ =>
      if scan.inFlow then some (((scan.allowKey false).moveTo rest).emit .value)
      else if scan.keyAllowed then
        let scan := scan.openBlock cell.column scan.tokens.length .blockMappingStart
        some (((scan.allowKey true).moveTo rest).emit .value)
      else none

def openFlow? (scan : Scan) (cell : Cell) (rest : List Cell) (token : Token) : Option Scan := do
  let scan ← scan.markSpot? cell
  some ((({ scan with spots := none :: scan.spots }.allowKey true).moveTo rest).emit token)

def closeFlow? (scan : Scan) (rest : List Cell) (token : Token) : Option Scan := do
  let scan ← scan.forgetSpot?
  let scan := if scan.inFlow then { scan with spots := scan.spots.tail } else scan
  some (((scan.allowKey false).moveTo rest).emit token)

def outside? (scan : Scan) (rest : List Cell) (token : Token) : Option Scan := do
  let scan ← (scan.closeTo (-1)).forgetSpot?
  some (((scan.allowKey false).moveTo rest).emit token)

def leaf? (scan : Scan) (cell : Cell) (read : Option (Token × List Cell)) : Option Scan := do
  let scan ← scan.markSpot? cell
  let (token, rest) ← read
  some (((scan.allowKey false).moveTo rest).emit token)

def scalarToken (isPlain : Bool) (text : List Char) : Token :=
  .scalar (String.ofList text) isPlain

def plain? (scan : Scan) (cell : Cell) (rest : List Cell) : Option Scan := do
  let scan ← scan.markSpot? cell
  let found ← plain scan.inFlow (scan.indent + 1) [] Gap.empty (cell :: rest)
  some (((scan.allowKey found.leftLine).moveTo found.rest).emit (scalarToken true found.text))

def block? (scan : Scan) (isLiteral : Bool) (rest : List Cell) : Option Scan := do
  let scan ← scan.forgetSpot?
  let (text, rest) ← blockScalar isLiteral scan.indent rest
  some (((scan.allowKey true).moveTo rest).emit (scalarToken false text))

/-- Characters that cannot start a plain scalar where white space or the end follows, or at all. -/
def isIndicator (c : Char) : Bool :=
  "-?:,[]\x7b\x7d#&*!|>\x27\x22%@\x60".toList.contains c

def startsPlain (inFlow : Bool) (c : Char) (rest : List Cell) : Bool :=
  (!isIndicator c && !isWhite c) ||
    (c == '-' && !rest.head?.any (fun cell => isSpace cell.char)) ||
    (!inFlow && (c == '?' || c == ':') && !atWhiteOrEnd rest)

def token? (scan : Scan) (cell : Cell) (rest : List Cell) : Option Scan :=
  let c := cell.char
  let cells := cell :: rest
  if cell.column == 0 && c == '%' then
    match directive? rest with
    | some (token, rest) => scan.outside? rest token
    | none => none
  else if atMark '-' cells then scan.outside? (cells.drop 3) .documentStart
  else if atMark '.' cells then scan.outside? (cells.drop 3) .documentEnd
  else if c == '[' then scan.openFlow? cell rest .flowSequenceStart
  else if c == '\x7b' then scan.openFlow? cell rest .flowMappingStart
  else if c == ']' then scan.closeFlow? rest .flowSequenceEnd
  else if c == '\x7d' then scan.closeFlow? rest .flowMappingEnd
  else if c == ',' then do
    let scan ← scan.forgetSpot?
    some (((scan.allowKey true).moveTo rest).emit .flowEntry)
  else if c == '-' && atWhiteOrEnd rest then scan.blockEntry? cell rest
  else if c == '?' && (scan.inFlow || atWhiteOrEnd rest) then scan.key? cell rest
  else if c == ':' && (scan.inFlow || atWhiteOrEnd rest) then scan.value? cell rest
  else if c == '*' then
    scan.leaf? cell ((anchorName? rest).map fun found => (.alias found.1, found.2))
  else if c == '&' then
    scan.leaf? cell ((anchorName? rest).map fun found => (.anchor found.1, found.2))
  else if c == '!' then
    scan.leaf? cell ((tag? scan.inFlow rest).map fun found => (.tag found.1, found.2))
  else if c == '|' && !scan.inFlow then scan.block? true rest
  else if c == '>' && !scan.inFlow then scan.block? false rest
  else if c == '\x27' then
    scan.leaf? cell ((singleQuoted [] Gap.empty rest).map fun found =>
      (scalarToken false found.1, found.2))
  else if c == '\x22' then
    scan.leaf? cell ((doubleQuoted .outside [] Gap.empty rest).map fun found =>
      (scalarToken false found.1, found.2))
  else if startsPlain scan.inFlow c rest then scan.plain? cell rest
  else none

/-- Reads to the end of the stream; each token takes at least one cell. -/
def run? : Nat → Scan → Option (List Token)
  | 0, _ => none
  | fuel + 1, scan =>
      let (cells, keyAllowed) := skipToToken scan.inFlow false scan.keyAllowed scan.cells
      let scan := { scan with cells, keyAllowed }
      match cells with
      | [] => (scan.closeTo (-1)).forgetSpot?.map Scan.tokens
      | cell :: rest => do
          let spots ← dropStale? cell scan.spots
          let scan ← ({ scan with spots }.closeTo cell.column).token? cell rest
          run? fuel scan

end Scan

def tokens? (text : String) : Option (List Token) := do
  let cells ← lay? text
  Scan.run? (cells.length + 1) (Scan.start cells)

end DeclarationIndex.Yaml
