import DeclarationIndex.Yaml.Token

/-!
YAML documents as trees, made from their tokens. An anchor is kept as a number with its node, and
an alias as the number of its anchor. Tags are checked for a known handle and otherwise play no
part.
-/

namespace DeclarationIndex.Yaml

abbrev Anchor := Option Nat

inductive Node where
  | scalar (anchor : Anchor) (text : String) (isPlain : Bool)
  | sequence (anchor : Anchor) (items : List Node)
  | mapping (anchor : Anchor) (pairs : List (Node × Node))
  | alias (number : Nat)
  deriving Inhabited

namespace Node

def empty (anchor : Anchor) : Node :=
  .scalar anchor "" true

def anchor : Node → Anchor
  | .scalar anchor _ _ => anchor
  | .sequence anchor _ => anchor
  | .mapping anchor _ => anchor
  | .alias _ => none

mutual

def preorder : Node → List Node
  | .sequence anchor items => .sequence anchor items :: preorderItems items
  | .mapping anchor pairs => .mapping anchor pairs :: preorderPairs pairs
  | node => [node]

def preorderItems : List Node → List Node
  | [] => []
  | item :: items => preorder item ++ preorderItems items

def preorderPairs : List (Node × Node) → List Node
  | [] => []
  | (key, value) :: pairs => preorder key ++ preorder value ++ preorderPairs pairs

end

/-- What a node in a document stands for: an alias for the last node whose anchor has its number,
any other node for itself. -/
def resolve (document : Node) : Node → Node
  | .alias number =>
      (document.preorder.reverse.find? fun node => node.anchor == some number).getD (.alias number)
  | node => node

end Node

structure Reading where
  tokens : List Token
  /-- The names of anchors, each once and with its latest number. -/
  anchors : List (String × Nat)
  handles : List String

namespace Reading

def next? (reading : Reading) : Option Token :=
  reading.tokens.head?

def skip (reading : Reading) : Reading :=
  { reading with tokens := reading.tokens.tail }

def nextIs (reading : Reading) (tokens : List Token) : Bool :=
  reading.next?.any tokens.contains

def knowsHandle (reading : Reading) (handle : String) : Bool :=
  handle == "" || handle == "!" || handle == "!!" || reading.handles.contains handle

/-- Numbers the anchor of a name by how many names there are. A name that comes again gets a new
number, and the next new name gets the same one, so that its node takes the place. -/
def numberAnchor (reading : Reading) : Option String → Anchor × Reading
  | none => (none, reading)
  | some name =>
      let number := reading.anchors.length
      let others := reading.anchors.filter (·.1 != name)
      (some number, { reading with anchors := (name, number) :: others })

structure Properties where
  anchor : Option String
  tagged : Bool

def tag? (reading : Reading) (handle : String) : Option Reading :=
  if reading.knowsHandle handle then some reading.skip else none

def properties? (reading : Reading) : Option (Properties × Reading) :=
  match reading.next? with
  | some (.anchor name) =>
      match reading.skip.next? with
      | some (.tag handle) =>
          (reading.skip.tag? handle).map fun reading => (⟨some name, true⟩, reading)
      | _ => some (⟨some name, false⟩, reading.skip)
  | some (.tag handle) => do
      let reading ← reading.tag? handle
      match reading.next? with
      | some (.anchor name) => some (⟨some name, true⟩, reading.skip)
      | _ => some (⟨none, true⟩, reading)
  | _ => some (⟨none, false⟩, reading)

end Reading

def mappingEnds : List Token := [.key, .value, .blockEnd]

/-- Whether a token starts a node. Block collections start one where `block` is set, and an entry
of a block sequence that is not indented where `unindented` is. -/
def startsNode (block unindented : Bool) : Option Token → Bool
  | some (.scalar _ _) | some .flowSequenceStart | some .flowMappingStart => true
  | some .blockSequenceStart | some .blockMappingStart => block
  | some .blockEntry => unindented
  | _ => false

def prepend {α : Type} (first : α) (read : Option (List α × Reading)) :
    Option (List α × Reading) :=
  read.map fun found => (first :: found.1, found.2)

mutual

def readNode : Nat → (block unindented : Bool) → Reading → Option (Node × Reading)
  | 0, _, _, _ => none
  | fuel + 1, block, unindented, reading =>
      match reading.next? with
      | some (.alias name) =>
          (reading.anchors.lookup name).map fun number => (.alias number, reading.skip)
      | _ =>
          match reading.properties? with
          | none => none
          | some (properties, reading) =>
              let (anchor, reading) := reading.numberAnchor properties.anchor
              if startsNode block unindented reading.next? then readContent fuel anchor reading
              else if properties.tagged || anchor.isSome then some (Node.empty anchor, reading)
              else none

def readContent : Nat → Anchor → Reading → Option (Node × Reading)
  | 0, _, _ => none
  | fuel + 1, anchor, reading =>
      let sequence (found : List Node × Reading) := (Node.sequence anchor found.1, found.2)
      let mapping (found : List (Node × Node) × Reading) := (Node.mapping anchor found.1, found.2)
      match reading.next? with
      | some (.scalar text isPlain) => some (.scalar anchor text isPlain, reading.skip)
      | some .blockEntry => (readUnindented fuel reading).map sequence
      | some .flowSequenceStart => (readFlowSequence fuel true reading.skip).map sequence
      | some .flowMappingStart => (readFlowMapping fuel true reading.skip).map mapping
      | some .blockSequenceStart => (readBlockSequence fuel reading.skip).map sequence
      | some .blockMappingStart => (readBlockMapping fuel reading.skip).map mapping
      | _ => none

def readOrEmpty : Nat → (block unindented : Bool) → List Token → Reading → Option (Node × Reading)
  | 0, _, _, _, _ => none
  | fuel + 1, block, unindented, ends, reading =>
      if reading.nextIs ends then some (Node.empty none, reading)
      else readNode fuel block unindented reading

def readBlockSequence : Nat → Reading → Option (List Node × Reading)
  | 0, _ => none
  | fuel + 1, reading =>
      match reading.next? with
      | some .blockEntry =>
          match readOrEmpty fuel true false [.blockEntry, .blockEnd] reading.skip with
          | none => none
          | some (item, reading) =>
              prepend item (readBlockSequence fuel reading)
      | some .blockEnd => some ([], reading.skip)
      | _ => none

/-- A sequence as deep as the mapping it is a value of; no token ends it. -/
def readUnindented : Nat → Reading → Option (List Node × Reading)
  | 0, _ => none
  | fuel + 1, reading =>
      match reading.next? with
      | some .blockEntry =>
          match readOrEmpty fuel true false (.blockEntry :: mappingEnds) reading.skip with
          | none => none
          | some (item, reading) =>
              prepend item (readUnindented fuel reading)
      | _ => some ([], reading)

def readBlockMapping : Nat → Reading → Option (List (Node × Node) × Reading)
  | 0, _ => none
  | fuel + 1, reading =>
      match reading.next? with
      | some .key =>
          match readOrEmpty fuel true true mappingEnds reading.skip with
          | none => none
          | some (key, reading) =>
              match readValue fuel true mappingEnds reading with
              | none => none
              | some (value, reading) =>
                  prepend (key, value) (readBlockMapping fuel reading)
      | some .blockEnd => some ([], reading.skip)
      | _ => none

def readValue : Nat → (block : Bool) → List Token → Reading → Option (Node × Reading)
  | 0, _, _, _ => none
  | fuel + 1, block, ends, reading =>
      match reading.next? with
      | some .value => readOrEmpty fuel block block ends reading.skip
      | _ => some (Node.empty none, reading)

def readFlowSequence : Nat → (first : Bool) → Reading → Option (List Node × Reading)
  | 0, _, _ => none
  | fuel + 1, first, reading =>
      match reading.next? with
      | some .flowSequenceEnd => some ([], reading.skip)
      | next =>
          if !first && next != some .flowEntry then none
          else
            let reading := if first then reading else reading.skip
            match reading.next? with
            | some .flowSequenceEnd => some ([], reading.skip)
            | some .key =>
                match readOrEmpty fuel false false [.value, .flowEntry, .flowSequenceEnd]
                    reading.skip with
                | none => none
                | some (key, reading) =>
                    match readValue fuel false [.flowEntry, .flowSequenceEnd] reading with
                    | none => none
                    | some (value, reading) =>
                        prepend (.mapping none [(key, value)]) (readFlowSequence fuel false reading)
            | _ =>
                match readNode fuel false false reading with
                | none => none
                | some (item, reading) =>
                    prepend item (readFlowSequence fuel false reading)

def readFlowMapping : Nat → (first : Bool) → Reading → Option (List (Node × Node) × Reading)
  | 0, _, _ => none
  | fuel + 1, first, reading =>
      match reading.next? with
      | some .flowMappingEnd => some ([], reading.skip)
      | next =>
          if !first && next != some .flowEntry then none
          else
            let reading := if first then reading else reading.skip
            match reading.next? with
            | some .flowMappingEnd => some ([], reading.skip)
            | some .key =>
                match readOrEmpty fuel false false [.value, .flowEntry, .flowMappingEnd]
                    reading.skip with
                | none => none
                | some (key, reading) =>
                    match readValue fuel false [.flowEntry, .flowMappingEnd] reading with
                    | none => none
                    | some (value, reading) =>
                        prepend (key, value) (readFlowMapping fuel false reading)
            | _ =>
                match readNode fuel false false reading with
                | none => none
                | some (key, reading) =>
                    prepend (key, Node.empty none) (readFlowMapping fuel false reading)

end

def directives? (versioned : Bool) (handles : List String) :
    List Token → Option (List String × List Token)
  | .versionDirective major minor :: rest =>
      if versioned || major != 1 || (minor != 1 && minor != 2) then none
      else directives? true handles rest
  | .tagDirective handle :: rest =>
      if handles.contains handle then none else directives? versioned (handle :: handles) rest
  | rest => some (handles, rest)

def isDirective : Token → Bool
  | .versionDirective _ _ => true
  | .tagDirective _ => true
  | _ => false

def document? (tokens : List Token) : Option (Node × List Token) := do
  let (handles, rest) ← directives? false [] tokens
  let explicit := rest.head? == some .documentStart
  if !explicit && tokens.head?.any isDirective then none
  else
    let content := if explicit then rest.tail else rest
    let isEmpty := explicit && match content with
      | [] => true
      | token :: _ => isDirective token || token == .documentStart || token == .documentEnd
    if isEmpty then some (Node.empty none, content)
    else
      let (node, reading) ← readNode (4 * content.length + 4) true false ⟨content, [], handles⟩
      some (node, reading.tokens)

/-- The single document of a text, which may be missing; none if the text is malformed or holds
more than one. -/
def read? (text : String) : Option (Option Node) := do
  let tokens ← tokens? text
  match tokens with
  | [] => some none
  | tokens =>
      let (node, rest) ← document? tokens
      if rest.all (· == .documentEnd) then some (some node) else none

end DeclarationIndex.Yaml
