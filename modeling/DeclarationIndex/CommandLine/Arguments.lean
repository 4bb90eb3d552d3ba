import DeclarationIndex.Decimal.Read

/-!
The arguments of the command line. Options may stand anywhere before a double dash, each at most
once at its level; the two general ones also after the command, where they win.
-/

namespace DeclarationIndex

inductive OutputFormat where
  | text
  | json
  deriving DecidableEq, Inhabited

inductive Command where
  | statistics
  | lookup (name : String)
  | search (query : String) (fuzzy : Bool) (threshold : Float) (limit : Nat)
  | arity (method : String) (count : Nat)

structure Request where
  configuration : Option String
  format : OutputFormat
  command : Command
  files : List String

inductive Invocation where
  | version
  | request (request : Request)
  | misuse

namespace Arguments

structure Options where
  configuration : Option String
  format : Option OutputFormat
  fuzzy : Bool
  threshold : Option Float
  limit : Option Nat

def Options.empty : Options :=
  ⟨none, none, false, none, none⟩

def countBound : Nat := UInt64.size

def count? (text : String) : Option Nat :=
  let digits := match text.toList with
    | '+' :: rest => rest
    | chars => chars
  if digits.isEmpty || !digits.all Char.isDigit then none
  else
    let number := Decimal.ofDigits digits
    if number < countBound then some number else none

def format? : String → Option OutputFormat
  | "text" => some .text
  | "json" => some .json
  | _ => none

def once {α : Type} (old : Option α) (new : Option α) : Option (Option α) :=
  match old, new with
  | none, some value => some (some value)
  | _, _ => none

/-- Sets an option that takes a value; `searching` admits those of a search. -/
def Options.set? (options : Options) (searching : Bool) (name value : String) : Option Options :=
  match name with
  | "config" => do
      let path := if value.isEmpty then none else some value
      some { options with configuration := ← once options.configuration path }
  | "format" => do some { options with format := ← once options.format (format? value) }
  | "threshold" =>
      if searching then do
        some { options with threshold := ← once options.threshold (Decimal.read? value) }
      else none
  | "limit" =>
      if searching then do some { options with limit := ← once options.limit (count? value) }
      else none
  | _ => none

/-- An argument by its form. A single dash is a plain word. -/
inductive Form where
  | endOfOptions
  | long (name : String) (value : Option String)
  | short (letter : Char)
  | word

def Form.of (argument : String) : Form :=
  match argument.toList with
  | ['-', '-'] => .endOfOptions
  | '-' :: '-' :: rest =>
      let name := String.ofList (rest.takeWhile (· != '='))
      match rest.dropWhile (· != '=') with
      | _ :: value => .long name (some (String.ofList value))
      | [] => .long name none
  | '-' :: letter :: _ => .short letter
  | _ => .word

def isWord (argument : String) : Bool :=
  match Form.of argument with
  | .word => true
  | _ => false

def readCommand (searching : Bool) (options : Options) :
    List String → Option (Options × List String)
  | [] => some (options, [])
  | argument :: rest =>
      match Form.of argument with
      | .endOfOptions => some (options, rest)
      | .short _ => none
      | .word =>
          (readCommand searching options rest).map fun found => (found.1, argument :: found.2)
      | .long "fuzzy" none =>
          if searching && !options.fuzzy then
            readCommand searching { options with fuzzy := true } rest
          else none
      | .long name (some value) =>
          match options.set? searching name value with
          | some options => readCommand searching options rest
          | none => none
      | .long name none =>
          match rest with
          | [] => none
          | value :: rest =>
              if isWord value then
                match options.set? searching name value with
                | some options => readCommand searching options rest
                | none => none
              else none

def files? (words : List String) : Option (List String) :=
  if words.isEmpty || words.any String.isEmpty then none else some words

def defaultThreshold : Float := 0.7

def defaultLimit : Nat := 20

def command? (name : String) (options : Options) (words : List String) :
    Option (Command × List String) :=
  match name, words with
  | "stats", files => do some (.statistics, ← files? files)
  | "lookup", name :: files => do some (.lookup name, ← files? files)
  | "search", query :: files => do
      some (.search query options.fuzzy (options.threshold.getD defaultThreshold)
        (options.limit.getD defaultLimit), ← files? files)
  | "arity", method :: count :: files => do
      some (.arity method (← count? count), ← files? files)
  | _, _ => none

def request? (general : Options) (name : String) (rest : List String) : Option Request := do
  let (options, words) ← readCommand (name == "search") Options.empty rest
  let (command, files) ← command? name options words
  some
    { configuration := options.configuration <|> general.configuration
      format := (options.format <|> general.format).getD .text
      command
      files }

def readGeneral (options : Options) : List String → Invocation
  | [] => .misuse
  | argument :: rest =>
      match Form.of argument with
      | .endOfOptions => .misuse
      | .short letter => if letter == 'V' then .version else .misuse
      | .word =>
          match request? options argument rest with
          | some request => .request request
          | none => .misuse
      | .long "version" none => .version
      | .long name (some value) =>
          match options.set? false name value with
          | some options => readGeneral options rest
          | none => .misuse
      | .long name none =>
          match rest with
          | [] => .misuse
          | value :: rest =>
              if isWord value then
                match options.set? false name value with
                | some options => readGeneral options rest
                | none => .misuse
              else .misuse

def parse (arguments : List String) : Invocation :=
  readGeneral Options.empty arguments

end Arguments

end DeclarationIndex
