import DeclarationIndex.Indexer
import DeclarationIndex.Proofs.Declaration.Examined

/-!
Which comments document a declaration. They stand in a block of comment lines that ends directly
above it or one line further up. What that one line holds is not looked at: where it is blank,
nothing but comments and the blank line comes between, but where it holds code the comments above
the code are taken as well.
-/

namespace DeclarationIndex

namespace Documentation

variable (documentation : Documentation)

def linesOn (line : Nat) : List String :=
  match documentation.commentOn line with
  | none => []
  | some comment => documentation.linesOf comment

def blockLines : Nat → List Nat
  | 0 => []
  | line + 1 =>
      if documentation.hasComment (line + 1) then blockLines line ++ [line + 1] else []

def linesAbove (line : Nat) : List Nat :=
  documentation.blockLines
    (if documentation.hasComment (line - 1) then line - 1 else line - 2)

variable {documentation}

theorem blockEndingOn_eq (line : Nat) :
    documentation.blockEndingOn line =
      (documentation.blockLines line).flatMap documentation.linesOn := by
  induction line with
  | zero => rfl
  | succ line ih =>
    cases found : documentation.commentOn (line + 1) with
    | none => simp [blockEndingOn, blockLines, hasComment, found]
    | some comment => simp [blockEndingOn, blockLines, hasComment, linesOn, found, ih]

theorem above_eq (line : Nat) :
    documentation.above line = (documentation.linesAbove line).flatMap documentation.linesOn := by
  cases line with
  | zero => simp [above, linesAbove, blockLines]
  | succ previous => exact blockEndingOn_eq _

theorem mem_blockLines {last line : Nat} :
    line ∈ documentation.blockLines last ↔
      0 < line ∧ line ≤ last ∧ documentation.hasComment line = true ∧
        ∀ between, line < between → between ≤ last →
          documentation.hasComment between = true := by
  induction last with
  | zero => simp only [blockLines, List.not_mem_nil, false_iff]; omega
  | succ last ih =>
    by_cases here : documentation.hasComment (last + 1) = true
    · simp only [blockLines, if_pos here, List.mem_append, List.mem_singleton, ih]
      constructor
      · rintro (⟨positive, low, comment, comments⟩ | rfl)
        · refine ⟨positive, by omega, comment, fun between above below => ?_⟩
          rcases Nat.lt_or_eq_of_le below with less | rfl
          · exact comments between above (by omega)
          · exact here
        · exact ⟨by omega, Nat.le_refl _, here, by omega⟩
      · rintro ⟨positive, low, comment, comments⟩
        rcases Nat.lt_or_eq_of_le low with less | rfl
        · exact Or.inl ⟨positive, by omega, comment, fun between above below =>
            comments between above (by omega)⟩
        · exact Or.inr rfl
    · simp only [blockLines, if_neg here, List.not_mem_nil, false_iff]
      rintro ⟨_, low, comment, comments⟩
      rcases Nat.lt_or_eq_of_le low with less | rfl
      · exact here (comments (last + 1) less (Nat.le_refl _))
      · exact here comment

theorem ascending_blockLines (last : Nat) : (documentation.blockLines last).Pairwise (· < ·) := by
  induction last with
  | zero => exact .nil
  | succ last ih =>
    rw [blockLines]
    split
    · refine List.pairwise_append.mpr ⟨ih, List.pairwise_singleton _ _, ?_⟩
      intro first inBlock second isLast
      rw [List.mem_singleton.mp isLast]
      exact Nat.lt_succ_of_le (mem_blockLines.mp inBlock).2.1
    · exact .nil

/-- A comment documents a declaration below it, if from its line on down to the declaration there
are comments on all lines but perhaps the last. -/
theorem mem_linesAbove (noComment : documentation.hasComment 0 = false) {line number : Nat} :
    number ∈ documentation.linesAbove line ↔
      number < line ∧ documentation.hasComment number = true ∧
        ∀ between, number < between → between + 1 < line →
          documentation.hasComment between = true := by
  have positive {number : Nat} (comment : documentation.hasComment number = true) :
      0 < number := by
    cases number with
    | zero => rw [noComment] at comment; cases comment
    | succ number => omega
  rw [linesAbove, mem_blockLines]
  by_cases directly : documentation.hasComment (line - 1) = true
  · rw [if_pos directly]
    have below := positive directly
    constructor
    · rintro ⟨_, low, comment, comments⟩
      exact ⟨by omega, comment, fun between above inside => comments between above (by omega)⟩
    · rintro ⟨low, comment, comments⟩
      refine ⟨positive comment, by omega, comment, fun between above inside => ?_⟩
      rcases Nat.lt_or_eq_of_le inside with less | rfl
      · exact comments between above (by omega)
      · exact directly
  · rw [if_neg directly]
    constructor
    · rintro ⟨_, low, comment, comments⟩
      exact ⟨by omega, comment, fun between above inside => comments between above (by omega)⟩
    · rintro ⟨low, comment, comments⟩
      have apart : number ≠ line - 1 := by
        rintro rfl
        exact directly comment
      have first := positive comment
      exact ⟨first, by omega, comment, fun between above inside =>
        comments between above (by omega)⟩

end Documentation

theorem Comment.ofTree_eq (source : SourceText) (root : Node) :
    ofTree source root = (root.preorder.filter (·.kind = .comment)).map (ofNode source) := by
  have trees (nodes : List Node) : ofTrees source nodes = nodes.flatMap (ofTree source) := by
    induction nodes with
    | nil => rfl
    | cons node rest ih => rw [ofTrees, ih, List.flatMap_cons]
  induction root using Node.ofChildren with
  | step root ih =>
    have below : ofTrees source root.children =
        ((root.children.flatMap Node.preorder).filter (·.kind = .comment)).map
          (ofNode source) := by
      rw [trees, List.filter_flatMap, List.map_flatMap]
      exact List.flatMap_congr ih
    rw [Node.preorder_eq]
    cases root
    rw [ofTree, below]
    split
    · rename_i isComment
      rw [List.filter_cons_of_pos (by simpa using isComment)]
      rfl
    · rename_i isOther
      rw [List.filter_cons_of_neg (by simpa using isOther)]

namespace SourceFile

variable (file : SourceFile)

def HasOwnLineComment (line : Nat) : Prop :=
  ∃ node ∈ file.tree.root.preorder, node.kind = .comment ∧ node.line = line ∧
    (node.text file.source).toList.head? = some '#' ∧
    ∀ byte ∈ Comment.bytesBefore file.source node.span.startByte, isBlankByte byte = true

instance (line : Nat) : Decidable (file.HasOwnLineComment line) :=
  inferInstanceAs (Decidable (∃ node ∈ file.tree.root.preorder, _))

def lineBytes (line : Nat) : List UInt8 :=
  (file.source.bytes.data.toList.splitOn 10).getD (line - 1) []

def IsClear (line : Nat) : Prop :=
  file.HasOwnLineComment line ∨ ∀ byte ∈ file.lineBytes line, isBlankByte byte = true

instance (line : Nat) : Decidable (file.IsClear line) :=
  inferInstanceAs (Decidable (_ ∨ ∀ byte ∈ file.lineBytes line, _))

end SourceFile

theorem Comment.isLineComment_iff {comment : Comment} :
    comment.isLineComment = true ↔ comment.text.toList.head? = some '#' := by
  unfold isLineComment
  cases comment.text.toList with
  | nil => simp
  | cons first rest => by_cases hash : first = '#' <;> simp [hash]

theorem Comment.stands_iff {source : SourceText} {node : Node} {line : Nat} :
    ((ofNode source node).line == line && !(ofNode source node).trailing &&
        (ofNode source node).isLineComment) = true ↔
      node.line = line ∧ (node.text source).toList.head? = some '#' ∧
        ∀ byte ∈ bytesBefore source node.span.startByte, isBlankByte byte = true := by
  have alone : (!(ofNode source node).trailing) = true ↔
      ∀ byte ∈ bytesBefore source node.span.startByte, isBlankByte byte = true := by
    simp [ofNode]
  rw [Bool.and_eq_true, Bool.and_eq_true, beq_iff_eq, alone, isLineComment_iff, and_assoc,
    and_comm (b := _ = some _)]
  rfl

theorem Indexer.hasComment_iff {indexer : Indexer} {file : SourceFile} {line : Nat} :
    (indexer.context file).documentation.hasComment line = true ↔
      file.HasOwnLineComment line := by
  simp only [Documentation.hasComment, Documentation.commentOn, context, Comment.ofTree_eq,
    List.find?_isSome, List.mem_map, List.mem_filter, decide_eq_true_eq,
    SourceFile.HasOwnLineComment]
  constructor
  · rintro ⟨_, ⟨node, ⟨member, isComment⟩, rfl⟩, stands⟩
    exact ⟨node, member, isComment, Comment.stands_iff.mp stands⟩
  · rintro ⟨node, member, isComment, stands⟩
    exact ⟨_, ⟨node, ⟨member, isComment⟩, rfl⟩, Comment.stands_iff.mpr stands⟩

theorem comments_of_mem_entries {file : FileContext} {visit : Visit} {scope : Scope} {entry : Entry}
    (member : entry ∈ visit.entries file scope) :
    entry.comments = file.documentation.above visit.node.line := by
  cases inserts_of_mem_entries file member <;> rfl

theorem comments_of_mem_insertionsOf {file : FileContext} {root : Node} {insertion : Insertion}
    (member : insertion ∈ insertionsOf file root) :
    insertion.entry.comments = file.documentation.above insertion.visit.node.line := by
  obtain ⟨moment, _, _, visit, inserted⟩ := mem_insertionsOf file member
  rw [visit]
  exact comments_of_mem_entries inserted

/-- That the comments of a declaration on a line are those of some lines: of all that hold a
comment and nothing else, with only such lines down to the declaration but perhaps the last. -/
structure SourceFile.Documents (file : SourceFile) (documentation : Documentation) (line : Nat)
    (comments : List String) (lines : List Nat) : Prop where
  comments_eq : comments = lines.flatMap documentation.linesOn
  ascending : lines.Pairwise (· < ·)
  mem_iff (number : Nat) : number ∈ lines ↔
    number < line ∧ file.HasOwnLineComment number ∧
      ∀ between, number < between → between + 1 < line → file.HasOwnLineComment between
  clear (last : file.IsClear (line - 1)) : ∀ number ∈ lines, ∀ between, number < between →
    between < line → file.IsClear between

theorem Indexer.documents_linesAbove (indexer : Indexer) (file : SourceFile) (line : Nat) :
    file.Documents (indexer.context file).documentation line
      ((indexer.context file).documentation.above line)
      ((indexer.context file).documentation.linesAbove line) := by
  have noComment : (indexer.context file).documentation.hasComment 0 = false := by
    rw [← Bool.not_eq_true, hasComment_iff]
    rintro ⟨node, _, _, onLine, _⟩
    cases onLine
  have mem_iff (number : Nat) : number ∈ (indexer.context file).documentation.linesAbove line ↔
      number < line ∧ file.HasOwnLineComment number ∧
        ∀ between, number < between → between + 1 < line → file.HasOwnLineComment between := by
    simp only [Documentation.mem_linesAbove noComment, hasComment_iff]
  refine ⟨Documentation.above_eq line, Documentation.ascending_blockLines _, mem_iff, ?_⟩
  intro last number member between above below
  rcases Nat.lt_or_eq_of_le (Nat.le_sub_one_of_lt below) with further | rfl
  · exact Or.inl (((mem_iff number).mp member).2.2 between above (by omega))
  · exact last

/-- Whatever is declared, its documentation is the block of comments above it. -/
theorem Indexer.comments_in_block_above (indexer : Indexer) (file : SourceFile) :
    indexer.declared file =
      (insertionsOf (indexer.context file) file.tree.root).map Insertion.entry ∧
    ∀ insertion ∈ insertionsOf (indexer.context file) file.tree.root,
      ∃ lines, file.Documents (indexer.context file).documentation insertion.visit.node.line
        insertion.entry.comments lines := by
  refine ⟨declared_eq_insertions _ _, fun insertion member => ?_⟩
  rw [comments_of_mem_insertionsOf member]
  exact ⟨_, indexer.documents_linesAbove file insertion.visit.node.line⟩

/-- A class below a constant below a comment, over the lines
`# Docs`, `A = 1`, `class Foo`, `end`. -/
def codeBetween : SourceFile :=
  let comment : Node := ⟨.comment, true, none, .onRow 0 6 0 0, []⟩
  let target : Node := ⟨.constant, true, some .left, .onRow 7 8 1 0, []⟩
  let value : Node := ⟨.other "integer", true, some .right, .onRow 11 12 1 4, []⟩
  let write : Node := ⟨.assignment, true, none, .onRow 7 12 1 0, [target, value]⟩
  let name : Node := ⟨.constant, true, some .name, .onRow 19 22 2 6, []⟩
  let definition : Node := ⟨.classDefinition, true, none, ⟨13, 26, ⟨2, 0⟩, ⟨3, 3⟩⟩, [name]⟩
  { path := "a.rb"
    source := SourceText.ofString "# Docs\nA = 1\nclass Foo\nend\n"
    tree := ⟨⟨.program, true, none, ⟨0, 27, ⟨0, 0⟩, ⟨4, 0⟩⟩, [comment, write, definition]⟩, false⟩ }

theorem Indexer.comment_above_code_taken :
    let indexer : Indexer := ⟨MagicComment.builtInMarkers, []⟩
    ∃ insertion ∈ insertionsOf (indexer.context codeBetween) codeBetween.tree.root,
      insertion.entry.name = "Foo" ∧ insertion.visit.node.line = 3 ∧
      insertion.entry.comments = ["Docs"] ∧
      (indexer.context codeBetween).documentation.linesAbove 3 = [1] ∧
      codeBetween.HasOwnLineComment 1 ∧ ¬ codeBetween.IsClear 2 := by
  intro indexer
  let insertion := (insertionsOf (indexer.context codeBetween) codeBetween.tree.root).get
    ⟨1, by decide +kernel⟩
  exact ⟨insertion, List.get_mem .., by decide +kernel⟩

end DeclarationIndex
