import DeclarationIndex.Proofs.Documentation
import Mathlib.Data.List.Forall2

/-!
The documentation above a line, told without a scan: the longest run of lines with comments that
ends on the line above, or one further up where that one has none. Each line of the run gives the
first of its comments, unless that is magic. A scan that counts lines in words comes to the same
and never counts below zero.
-/

namespace DeclarationIndex

def Comment.StandsOn (comment : Comment) (line : Nat) : Prop :=
  comment.line = line ∧ comment.trailing = false ∧ comment.text.toList.head? = some '#'

def Comment.IsFirstOn (comment : Comment) (line : Nat) (comments : List Comment) : Prop :=
  comment.StandsOn line ∧ ∃ before after, comments = before ++ comment :: after ∧
    ∀ other ∈ before, ¬ other.StandsOn line

namespace Documentation

def IsTrimmed (text trimmed : String) : Prop :=
  ∃ breaks, text.toList = trimmed.toList ++ breaks ∧ (∀ c ∈ breaks, c = '\r' ∨ c = '\n') ∧
    ∀ c, trimmed.toList.getLast? = some c → c ≠ '\r' ∧ c ≠ '\n'

/-- That a text is a hash sign, at most one space, and a line after that. -/
def HasContent (text line : String) : Prop :=
  text.toList = '#' :: ' ' :: line.toList ∨
    text.toList = '#' :: line.toList ∧ line.toList.head? ≠ some ' '

variable (documentation : Documentation)

inductive Contributes (line : Nat) : List String → Prop where
  | magic {comment : Comment} {trimmed : String}
      (first : comment.IsFirstOn line documentation.comments)
      (trim : IsTrimmed comment.text trimmed) (magic : documentation.isMagic trimmed = true) :
      Contributes line []
  | content {comment : Comment} {trimmed content : String}
      (first : comment.IsFirstOn line documentation.comments)
      (trim : IsTrimmed comment.text trimmed) (plain : documentation.isMagic trimmed = false)
      (holds : HasContent trimmed content) : Contributes line [content]

def lastAbove (line : Nat) : Nat :=
  if documentation.hasComment (line - 1) then line - 1 else line - 2

/-- That the lines from one to another are the longest run that ends there and has a comment on
every line; it is empty if it starts after its end. -/
structure IsLongestRun (first last : Nat) : Prop where
  positive : 1 ≤ first
  ends : first ≤ last + 1
  comments : ∀ line, first ≤ line → line ≤ last → documentation.hasComment line = true
  longest : first = 1 ∨ documentation.hasComment (first - 1) = false

def withoutAsides : Documentation :=
  { documentation with
    comments := documentation.comments.filter fun comment =>
      !comment.trailing && comment.isLineComment }

def previousLine? (line : UInt64) : Option UInt64 :=
  if line = 0 then none else some (line - 1)

theorem toNat_of_previousLine? {line previous : UInt64}
    (above : previousLine? line = some previous) : line.toNat = previous.toNat + 1 := by
  simp only [previousLine?, Option.ite_none_left_eq_some, Option.some.injEq] at above
  obtain ⟨positive, rfl⟩ := above
  have apart : line.toNat ≠ 0 := fun zero => positive (UInt64.toNat_inj.mp zero)
  have low : (1 : UInt64) ≤ line := by
    rw [UInt64.le_iff_toNat_le, UInt64.toNat_one]
    omega
  rw [UInt64.toNat_sub_of_le _ _ low, UInt64.toNat_one]
  omega

def climb (line : UInt64) (collected : List String) : Option (List String) :=
  if line = 0 then some collected
  else
    match documentation.commentOn line.toNat with
    | none => some collected
    | some comment =>
        match _above : previousLine? line with
        | none => none
        | some previous => climb previous (collected ++ documentation.linesOf comment)
termination_by line.toNat
decreasing_by
  have counted := toNat_of_previousLine? ‹_›
  omega

/-- The documentation of a declaration that starts on a line, with lines counted in words. -/
def scan (line : UInt64) : Option (List String) :=
  match previousLine? line with
  | none => some []
  | some previous =>
      let last :=
        if documentation.hasComment previous.toNat then previous
        else (previousLine? previous).getD 0
      (documentation.climb last []).map List.reverse

variable {documentation}

theorem stands_iff {comment : Comment} {line : Nat} :
    (comment.line == line && !comment.trailing && comment.isLineComment) = true ↔
      comment.StandsOn line := by
  rw [Bool.and_eq_true, Bool.and_eq_true, beq_iff_eq, Bool.not_eq_true', Comment.isLineComment_iff,
    and_assoc]
  rfl

theorem hasComment_iff_stands {line : Nat} :
    documentation.hasComment line = true ↔
      ∃ comment ∈ documentation.comments, comment.StandsOn line := by
  simp only [hasComment, commentOn, List.find?_isSome, stands_iff]

theorem isFirstOn_of_commentOn {line : Nat} {comment : Comment}
    (found : documentation.commentOn line = some comment) :
    comment.IsFirstOn line documentation.comments := by
  obtain ⟨stands, before, after, listed, passed⟩ := List.find?_eq_some_iff_append.mp found
  refine ⟨stands_iff.mp stands, before, after, listed, fun other member standsToo => ?_⟩
  have refused := passed other member
  rw [stands_iff.mpr standsToo] at refused
  cases refused

theorem isLineBreak_iff {c : Char} : isLineBreak c = true ↔ c = '\r' ∨ c = '\n' := by
  simp [isLineBreak]

theorem isTrimmed_trimLineBreaks (text : String) : IsTrimmed text (trimLineBreaks text) := by
  refine ⟨(text.toList.reverse.takeWhile isLineBreak).reverse, ?_, ?_, ?_⟩
  · rw [trimLineBreaks, String.toList_ofList, ← List.reverse_append,
      List.takeWhile_append_dropWhile, List.reverse_reverse]
  · intro c member
    exact isLineBreak_iff.mp (List.mem_takeWhile_imp (List.mem_reverse.mp member))
  · intro c last
    rw [trimLineBreaks, String.toList_ofList, List.getLast?_reverse] at last
    have kept := List.head?_dropWhile_not isLineBreak text.toList.reverse
    rw [last] at kept
    exact not_or.mp (mt isLineBreak_iff.mpr (by simpa using kept))

theorem head?_of_isTrimmed {text trimmed : String} (trim : IsTrimmed text trimmed)
    (hash : text.toList.head? = some '#') : trimmed.toList.head? = some '#' := by
  obtain ⟨breaks, parts, areBreaks, _⟩ := trim
  cases whole : trimmed.toList with
  | nil =>
    rw [parts, whole, List.nil_append] at hash
    rcases areBreaks '#' (List.mem_of_mem_head? hash) with same | same <;> cases same
  | cons first rest =>
    rw [parts, whole, List.cons_append] at hash
    exact hash

theorem hasContent_content {text : String} (hash : text.toList.head? = some '#') :
    HasContent text (content text) := by
  obtain ⟨rest, whole⟩ : ∃ rest, text.toList = '#' :: rest := by
    cases chars : text.toList with
    | nil => rw [chars] at hash; cases hash
    | cons first rest =>
      rw [chars] at hash
      exact ⟨rest, by rw [Option.some.inj hash]⟩
  unfold HasContent content
  simp only [whole]
  split
  · left
    rw [String.toList_ofList]
  · rename_i apart
    right
    refine ⟨by rw [String.toList_ofList], fun space => ?_⟩
    rw [String.toList_ofList] at space
    obtain ⟨others, rfl⟩ := List.head?_eq_some_iff.mp space
    exact apart others rfl

theorem contributes_linesOn {line : Nat} (here : documentation.hasComment line = true) :
    documentation.Contributes line (documentation.linesOn line) := by
  obtain ⟨comment, found⟩ := Option.isSome_iff_exists.mp here
  have first := isFirstOn_of_commentOn found
  have trim := isTrimmed_trimLineBreaks comment.text
  have hash := head?_of_isTrimmed trim first.1.2.2
  simp only [linesOn, found, linesOf]
  cases magic : documentation.isMagic (trimLineBreaks comment.text) with
  | true => exact .magic first trim magic
  | false => exact .content first trim magic (hasContent_content hash)

theorem exists_longestRun (last : Nat) :
    ∃ first, documentation.IsLongestRun first last ∧
      documentation.blockLines last = List.range' first (last + 1 - first) := by
  induction last with
  | zero => exact ⟨1, ⟨Nat.le_refl 1, Nat.le_refl 1, by omega, Or.inl rfl⟩, rfl⟩
  | succ last ih =>
    by_cases here : documentation.hasComment (last + 1) = true
    · obtain ⟨first, run, lines⟩ := ih
      refine ⟨first, ⟨run.positive, Nat.le_succ_of_le run.ends, fun line low high => ?_,
        run.longest⟩, ?_⟩
      · rcases Nat.lt_or_eq_of_le high with less | rfl
        · exact run.comments line low (Nat.le_of_lt_succ less)
        · exact here
      · have ends := run.ends
        rw [blockLines, if_pos here, lines, Nat.succ_sub ends, List.range'_concat, Nat.one_mul,
          Nat.add_sub_cancel' ends]
    · refine ⟨last + 2, ⟨by omega, Nat.le_refl _, by omega, Or.inr (by simpa using here)⟩, ?_⟩
      rw [blockLines, if_neg here, Nat.sub_self]
      rfl

theorem above_eq_contributions (line : Nat) :
    ∃ first contributions, documentation.IsLongestRun first (documentation.lastAbove line) ∧
      List.Forall₂ documentation.Contributes
        (List.range' first (documentation.lastAbove line + 1 - first)) contributions ∧
      documentation.above line = contributions.flatten := by
  obtain ⟨first, run, lines⟩ := @exists_longestRun documentation (documentation.lastAbove line)
  refine ⟨first, (documentation.blockLines (documentation.lastAbove line)).map
    documentation.linesOn, run, ?_, ?_⟩
  · rw [← lines, List.forall₂_map_right_iff, List.forall₂_same]
    exact fun line member => contributes_linesOn (mem_blockLines.mp member).2.2.1
  · rw [above_eq, ← List.flatMap_def]
    rfl

theorem above_eq_nil {line : Nat}
    (noRun : line ≤ 1 ∨ documentation.lastAbove line < 1 ∨
      documentation.hasComment (documentation.lastAbove line) = false) :
    documentation.above line = [] := by
  have nothing : documentation.blockLines (documentation.lastAbove line) = [] := by
    rcases noRun with low | low | absent
    · have last : documentation.lastAbove line = 0 := by
        unfold lastAbove
        split <;> omega
      rw [last]
      rfl
    · rw [Nat.lt_one_iff.mp low]
      rfl
    · cases last : documentation.lastAbove line with
      | zero => rfl
      | succ last => rw [blockLines, ← last, absent]; rfl
  rw [above_eq, linesAbove, ← lastAbove, nothing]
  rfl

theorem reverse_linesOf (comment : Comment) :
    (documentation.linesOf comment).reverse = documentation.linesOf comment := by
  simp only [linesOf]
  split <;> rfl

theorem blockEndingOn_of_commentOn {line : Nat} {comment : Comment}
    (found : documentation.commentOn (line + 1) = some comment) :
    documentation.blockEndingOn (line + 1) =
      documentation.blockEndingOn line ++ documentation.linesOf comment := by
  rw [blockEndingOn, found]

theorem blockEndingOn_of_not_hasComment {line : Nat}
    (absent : documentation.hasComment line = false) : documentation.blockEndingOn line = [] := by
  cases line with
  | zero => rfl
  | succ line =>
    have missing : documentation.commentOn (line + 1) = none := by simpa [hasComment] using absent
    rw [blockEndingOn, missing]

theorem climb_eq (line : UInt64) (collected : List String) :
    documentation.climb line collected =
      some (collected ++ (documentation.blockEndingOn line.toNat).reverse) := by
  fun_induction documentation.climb line collected with
  | case1 collected => simp [blockEndingOn]
  | case2 line collected positive missing =>
    have absent : documentation.hasComment line.toNat = false := by simp [hasComment, missing]
    rw [blockEndingOn_of_not_hasComment absent, List.reverse_nil, List.append_nil]
  | case3 line collected positive comment found above => simp [previousLine?, positive] at above
  | case4 line collected positive comment found previous above ih =>
    rw [toNat_of_previousLine? above] at found ⊢
    rw [ih, blockEndingOn_of_commentOn found, List.reverse_append, reverse_linesOf,
      List.append_assoc]

theorem scan_eq (line : UInt64) :
    documentation.scan line = some (documentation.above line.toNat) := by
  unfold scan
  split
  · rename_i zero
    have same : line = 0 := by simpa [previousLine?] using zero
    rw [same]
    rfl
  · rename_i previous counted
    have last : (if documentation.hasComment previous.toNat then previous
        else (previousLine? previous).getD 0).toNat =
        if documentation.hasComment previous.toNat then previous.toNat else previous.toNat - 1 := by
      split
      · rfl
      · cases further : previousLine? previous with
        | none =>
          have same : previous = 0 := by simpa [previousLine?] using further
          rw [same]
          rfl
        | some other =>
          rw [toNat_of_previousLine? further]
          rfl
    dsimp only
    rw [toNat_of_previousLine? counted, climb_eq, last, Option.map_some, List.nil_append,
      List.reverse_reverse]
    rfl

theorem commentOn_withoutAsides (line : Nat) :
    documentation.withoutAsides.commentOn line = documentation.commentOn line := by
  simp only [commentOn, withoutAsides, List.find?_filter]
  congr 1
  funext comment
  cases comment.line == line <;> cases comment.trailing <;> cases comment.isLineComment <;> rfl

theorem above_withoutAsides (line : Nat) :
    documentation.withoutAsides.above line = documentation.above line := by
  have block (last : Nat) : documentation.withoutAsides.blockEndingOn last =
      documentation.blockEndingOn last := by
    induction last with
    | zero => rfl
    | succ last ih =>
      rw [blockEndingOn, commentOn_withoutAsides, ih]
      rfl
  cases line with
  | zero => rfl
  | succ previous =>
    rw [above, hasComment, commentOn_withoutAsides, block]
    rfl

/-- What documents a line is what the longest run of comments above it contributes, and nothing if
there is no such run; and a scan over words finds it without ever counting below zero. -/
theorem longest_run_documents (documentation : Documentation) :
    (∀ line, documentation.hasComment line = true ↔
      ∃ comment ∈ documentation.comments, comment.StandsOn line) ∧
    (∀ line, ∃ first contributions,
      documentation.IsLongestRun first (documentation.lastAbove line) ∧
      List.Forall₂ documentation.Contributes
        (List.range' first (documentation.lastAbove line + 1 - first)) contributions ∧
      documentation.above line = contributions.flatten) ∧
    (∀ line, line ≤ 1 ∨ documentation.lastAbove line < 1 ∨
      documentation.hasComment (documentation.lastAbove line) = false →
      documentation.above line = []) ∧
    (∀ line : UInt64, documentation.scan line = some (documentation.above line.toNat)) ∧
    ∀ line, documentation.withoutAsides.above line = documentation.above line :=
  ⟨fun _ => hasComment_iff_stands, above_eq_contributions, fun _ => above_eq_nil, scan_eq,
    above_withoutAsides⟩

end Documentation

end DeclarationIndex
