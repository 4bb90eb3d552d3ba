import DeclarationIndex.MagicComment
import Mathlib.Computability.RegularExpressions

/-!
Regular expressions as text, as far as markers need them. A caret ties an expression to the
beginning of the text that it is held against. Behind it a character stands for itself, unless it
is an operator. A backslash takes an operator for a character, and before an `s` it stands for a
white space; a bar parts the alternatives of a group, and a star repeats the part before it. What is
read is an expression with a language of its own, whichever way a matcher looks for it.
-/

namespace DeclarationIndex.Expression

def whiteSpace : List Char :=
  ['\t', '\n', '\x0b', '\x0c', '\r', ' ', '\u0085', '\u00a0', '\u1680', '\u2000', '\u2001',
    '\u2002', '\u2003', '\u2004', '\u2005', '\u2006', '\u2007', '\u2008', '\u2009', '\u200a',
    '\u2028', '\u2029', '\u202f', '\u205f', '\u3000']

def anyOf (chars : List Char) : RegularExpression Char :=
  (chars.map .char).sum

def literal (chars : List Char) : RegularExpression Char :=
  (chars.map .char).prod

structure Group where
  /-- The alternatives before the one that is being read. -/
  earlier : RegularExpression Char
  /-- The parts of the alternative that is being read, the last one first. -/
  parts : List (RegularExpression Char)

namespace Group

def empty : Group :=
  ⟨0, []⟩

def push (group : Group) (part : RegularExpression Char) : Group :=
  { group with parts := part :: group.parts }

def pushAll (group : Group) (chars : List Char) : Group :=
  { group with parts := (chars.map .char).reverse ++ group.parts }

def whole (group : Group) : RegularExpression Char :=
  group.earlier + group.parts.reverse.prod

def next (group : Group) : Group :=
  ⟨group.whole, []⟩

/-- Repeats the last part; without one there is nothing to repeat. -/
def repeatLast? (group : Group) : Option Group :=
  match group.parts with
  | [] => none
  | last :: before => some { group with parts := last.star :: before }

end Group

structure Reading where
  group : Group
  /-- The groups around it that are open, the innermost first. -/
  around : List Group
  escaped : Bool

namespace Reading

def start : Reading :=
  ⟨.empty, [], false⟩

def escapedPart? (c : Char) : Option (RegularExpression Char) :=
  if MagicComment.isRegexOperator c then some (.char c)
  else if c = 's' then some (anyOf whiteSpace)
  else none

/-- Operators that are not read here unless they are escaped. -/
def isForeign (c : Char) : Bool :=
  ".+?[]\x7b\x7d^$".toList.contains c

/-- Reads one character more. Outside a group there are no alternatives. -/
def step (reading : Reading) (c : Char) : Option Reading :=
  let ⟨group, around, escaped⟩ := reading
  if escaped then (escapedPart? c).map fun part => ⟨group.push part, around, false⟩
  else
    match c, around with
    | '\\', _ => some ⟨group, around, true⟩
    | '(', _ => some ⟨.empty, group :: around, false⟩
    | ')', outer :: further => some ⟨outer.push group.whole, further, false⟩
    | ')', [] => none
    | '|', _ :: _ => some ⟨group.next, around, false⟩
    | '|', [] => none
    | '*', _ => group.repeatLast?.map fun group => ⟨group, around, false⟩
    | c, _ => if isForeign c then none else some ⟨group.push (.char c), around, false⟩

def run (reading : Reading) (text : List Char) : Option Reading :=
  text.foldlM step reading

def finish? (reading : Reading) : Option (RegularExpression Char) :=
  if reading.around.isEmpty && !reading.escaped then some reading.group.whole else none

end Reading

/-- Reads an expression that is tied to the beginning of a text. -/
def read? (text : String) : Option (RegularExpression Char) :=
  match text.toList with
  | '^' :: rest => (Reading.start.run rest).bind Reading.finish?
  | _ => none

def MatchesBeginning (expression : RegularExpression Char) (text : String) : Prop :=
  ∃ beginning ∈ expression.matches', beginning <+: text.toList

theorem isBlank_iff (c : Char) : isBlank c = true ↔ c ∈ whiteSpace := by
  constructor
  · intro blank
    simp only [isBlank, Bool.or_eq_true, Bool.and_eq_true, decide_eq_true_eq, beq_iff_eq] at blank
    have code : c.toNat ∈ whiteSpace.map Char.toNat := by
      change c.toNat ∈ [9, 10, 11, 12, 13, 32, 133, 160, 5760, 8192, 8193, 8194, 8195, 8196, 8197,
        8198, 8199, 8200, 8201, 8202, 8232, 8233, 8239, 8287, 12288]
      simp only [List.mem_cons, List.not_mem_nil, or_false]
      omega
    obtain ⟨other, member, same⟩ := List.mem_map.mp code
    rwa [← Char.toNat_inj.mp same]
  · have blanks : whiteSpace.all isBlank = true := by decide
    exact List.all_eq_true.mp blanks c

/-! The languages of the expressions that reading builds. -/

theorem mem_matches'_sum {parts : List (RegularExpression Char)} {text : List Char} :
    text ∈ parts.sum.matches' ↔ ∃ part ∈ parts, text ∈ part.matches' := by
  induction parts with
  | nil => simp
  | cons part rest ih => simp [ih, Language.mem_add]

theorem mem_matches'_literal {chars text : List Char} :
    text ∈ (literal chars).matches' ↔ text = chars := by
  induction chars generalizing text with
  | nil => simp [literal]
  | cons c rest ih =>
    have parts : literal (c :: rest) = .char c * literal rest := rfl
    rw [parts, RegularExpression.matches'_mul, Language.mem_mul]
    constructor
    · intro ⟨first, single, others, member, whole⟩
      obtain rfl : first = [c] := single
      rw [← whole, ih.mp member]
      rfl
    · intro whole
      exact ⟨[c], rfl, rest, ih.mpr rfl, whole.symm⟩

theorem mem_matches'_anyOf {chars text : List Char} :
    text ∈ (anyOf chars).matches' ↔ ∃ c ∈ chars, text = [c] := by
  simp only [anyOf, mem_matches'_sum, List.mem_map, exists_exists_and_eq_and]
  rfl

theorem mem_matches'_star_anyOf {chars text : List Char} :
    text ∈ (anyOf chars).star.matches' ↔ ∀ c ∈ text, c ∈ chars := by
  rw [RegularExpression.matches'_star, Language.mem_kstar]
  constructor
  · intro ⟨pieces, whole, singles⟩ c member
    rw [whole, List.mem_flatten] at member
    obtain ⟨piece, inPieces, inPiece⟩ := member
    obtain ⟨other, listed, rfl⟩ := mem_matches'_anyOf.mp (singles piece inPieces)
    rwa [List.mem_singleton.mp inPiece]
  · intro listed
    refine ⟨text.map fun c => [c], ?_, ?_⟩
    · rw [← List.flatMap_def, List.flatMap_singleton']
    · intro piece member
      obtain ⟨c, inText, rfl⟩ := List.mem_map.mp member
      exact mem_matches'_anyOf.mpr ⟨c, listed c inText, rfl⟩

theorem mem_matches'_whole_pushAll {earlier : RegularExpression Char} {chars text : List Char} :
    text ∈ (Group.pushAll ⟨earlier, []⟩ chars).whole.matches' ↔
      text ∈ earlier.matches' ∨ text = chars := by
  rw [Group.whole, Group.pushAll, List.append_nil, List.reverse_reverse,
    RegularExpression.matches'_add, Language.mem_add]
  exact or_congr_right mem_matches'_literal

namespace Reading

theorem run_append (reading : Reading) (first second : List Char) :
    reading.run (first ++ second) = (reading.run first).bind (·.run second) :=
  List.foldlM_append

theorem run_cons (reading : Reading) (c : Char) (rest : List Char) :
    reading.run (c :: rest) = (reading.step c).bind (·.run rest) :=
  List.foldlM_cons

theorem step_of_not_operator (group : Group) (around : List Group) {c : Char}
    (plain : MagicComment.isRegexOperator c = false) :
    step ⟨group, around, false⟩ c = some ⟨group.push (.char c), around, false⟩ := by
  have operators : ".+?[]\x7b\x7d^$".toList.all MagicComment.isRegexOperator = true := by decide
  have familiar : ¬ isForeign c = true := by
    intro foreign
    rw [List.all_eq_true.mp operators c (List.contains_iff_mem.mp foreign)] at plain
    cases plain
  simp only [step, Bool.false_eq_true, if_false]
  -- the characters with a case of their own are operators
  split <;> first | exact absurd plain (by decide) | exact if_neg familiar

theorem step_of_escaped (group : Group) (around : List Group) {c : Char}
    (operator : MagicComment.isRegexOperator c = true) :
    step ⟨group, around, true⟩ c = some ⟨group.push (.char c), around, false⟩ := by
  simp [step, escapedPart?, operator]

theorem run_escape (marker : String) (group : Group) (around : List Group) :
    run ⟨group, around, false⟩ (MagicComment.escape marker).toList =
      some ⟨group.pushAll marker.toList, around, false⟩ := by
  rw [MagicComment.escape, String.toList_ofList]
  induction marker.toList generalizing group with
  | nil => rfl
  | cons c rest ih =>
    rw [List.flatMap_cons, run_append]
    have pushed : run ⟨group, around, false⟩
        (if MagicComment.isRegexOperator c then ['\\', c] else [c]) =
          some ⟨group.push (.char c), around, false⟩ := by
      cases kind : MagicComment.isRegexOperator c with
      | true =>
        have escape : step ⟨group, around, false⟩ '\\' = some ⟨group, around, true⟩ := rfl
        rw [if_pos rfl, run_cons, escape, Option.bind_some, run_cons, step_of_escaped _ _ kind]
        rfl
      | false =>
        rw [if_neg Bool.false_ne_true, run_cons, step_of_not_operator _ _ kind]
        rfl
    have again : (group.push (.char c)).pushAll rest = group.pushAll (c :: rest) := by
      simp only [Group.push, Group.pushAll, List.map_cons, List.reverse_cons, List.append_assoc,
        List.singleton_append]
    rw [pushed, Option.bind_some, ih, again]

theorem run_alternatives (marker : String) (markers : List String)
    (earlier : RegularExpression Char) (outer : Group) (further : List Group) :
    ∃ group, run ⟨⟨earlier, []⟩, outer :: further, false⟩
        (String.intercalate "|" ((marker :: markers).map MagicComment.escape)).toList =
          some ⟨group, outer :: further, false⟩ ∧
      ∀ text, text ∈ group.whole.matches' ↔
        text ∈ earlier.matches' ∨ ∃ other ∈ marker :: markers, text = other.toList := by
  induction markers generalizing marker earlier with
  | nil =>
    refine ⟨_, run_escape marker ⟨earlier, []⟩ (outer :: further), ?_⟩
    intro text
    rw [mem_matches'_whole_pushAll]
    simp
  | cons second rest ih =>
    obtain ⟨group, later, mem_later⟩ :=
      ih second (Group.pushAll ⟨earlier, []⟩ marker.toList).whole
    refine ⟨group, ?_, ?_⟩
    · rw [List.map_cons, List.map_cons, String.intercalate_cons_cons, String.toList_append,
        String.toList_append, List.append_assoc, run_append, run_escape, Option.bind_some]
      exact later
    · intro text
      rw [mem_later, mem_matches'_whole_pushAll, or_assoc]
      simp

end Reading

theorem read?_pattern (marker : String) (markers : List String) :
    ∃ alternatives : RegularExpression Char,
      (∀ text, text ∈ alternatives.matches' ↔ ∃ other ∈ marker :: markers, text = other.toList) ∧
      read? (MagicComment.pattern (marker :: markers)) =
        some (0 + (.char '#' * ((anyOf whiteSpace).star * (alternatives * (.char ':' * 1))))) := by
  let outer : Group := ⟨0, [(anyOf whiteSpace).star, .char '#']⟩
  obtain ⟨group, inside, mem_group⟩ := Reading.run_alternatives marker markers 0 outer []
  refine ⟨group.whole, ?_, ?_⟩
  · intro text
    rw [mem_group]
    simp
  · have opened : Reading.start.run ['#', '\\', 's', '*', '('] =
        some ⟨⟨0, []⟩, [outer], false⟩ := rfl
    have closed : Reading.run ⟨group, [outer], false⟩ [')', ':'] =
        some ⟨(outer.push group.whole).push (.char ':'), [], false⟩ := rfl
    have whole : (MagicComment.pattern (marker :: markers)).toList =
        '^' :: (['#', '\\', 's', '*', '('] ++
          ((String.intercalate "|" ((marker :: markers).map MagicComment.escape)).toList ++
            [')', ':'])) := by
      rw [MagicComment.pattern, String.toList_append, String.toList_append]
      rfl
    rw [read?, whole]
    simp only [Reading.run_append, opened, Option.bind_some, inside, closed]
    rfl

end DeclarationIndex.Expression
