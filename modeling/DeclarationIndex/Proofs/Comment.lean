import DeclarationIndex.Proofs.Documentation
import DeclarationIndex.Proofs.Tree.Cursor

/-!
The comments of a file are collected by a cursor that is moved over the whole tree: one for each
node of the kind, from top to bottom. What stands before a comment on its line is found by going
back from it to the last line feed.
-/

namespace DeclarationIndex

/-- That the nodes of a tree stand in the rows of the nodes above them, and siblings one after the
other. -/
structure Node.IsInOrder (root : Node) : Prop where
  spans : ∀ node ∈ root.preorder, node.span.start.row ≤ node.span.stop.row
  inside : ∀ node ∈ root.preorder, ∀ child ∈ node.children,
    node.span.start.row ≤ child.span.start.row ∧ child.span.stop.row ≤ node.span.stop.row
  siblings : ∀ node ∈ root.preorder, node.children.Pairwise
    fun earlier later => earlier.span.stop.row ≤ later.span.start.row

/-- That the line on which an offset stands starts at another: at the start of the text or after a
line feed, with none in between. -/
structure SourceText.LineStarts (source : SourceText) (offset start : Nat) : Prop where
  before : start ≤ offset
  boundary : start = 0 ∨ source.bytes.data[start - 1]? = some 10
  unbroken : ∀ index, start ≤ index → index < offset → source.bytes.data[index]? ≠ some 10

def SourceText.HasSolidBefore (source : SourceText) (offset : Nat) : Prop :=
  ∃ start, source.LineStarts offset start ∧ ∃ index byte, start ≤ index ∧ index < offset ∧
    source.bytes.data[index]? = some byte ∧ isBlankByte byte = false

theorem SourceText.LineStarts.le {source : SourceText} {offset start other : Nat}
    (starts : source.LineStarts offset start) (startsOther : source.LineStarts offset other) :
    other ≤ start := by
  have before := startsOther.before
  by_contra later
  rcases startsOther.boundary with first | feed
  · omega
  · exact starts.unbroken (other - 1) (by omega) (by omega) feed

namespace Node

theorem preorder_subset {node child : Node} (member : child ∈ node.children) :
    child.preorder ⊆ node.preorder := by
  intro inner below
  rw [preorder_eq]
  exact List.mem_cons_of_mem _ (List.mem_flatMap.mpr ⟨child, member, below⟩)

theorem IsInOrder.child {node child : Node} (ordered : node.IsInOrder)
    (member : child ∈ node.children) : child.IsInOrder where
  spans inner below := ordered.spans inner (preorder_subset member below)
  inside inner below := ordered.inside inner (preorder_subset member below)
  siblings inner below := ordered.siblings inner (preorder_subset member below)

theorem IsInOrder.rows_within {node inner : Node} (ordered : node.IsInOrder)
    (below : inner ∈ node.preorder) :
    node.span.start.row ≤ inner.span.start.row ∧ inner.span.start.row ≤ node.span.stop.row := by
  induction node using Node.ofChildren with
  | step node ih =>
    rw [preorder_eq, List.mem_cons, List.mem_flatMap] at below
    rcases below with rfl | ⟨child, member, below⟩
    · exact ⟨Nat.le_refl _, ordered.spans _ (self_mem_preorder _)⟩
    · have within := ih child member (ordered.child member) below
      have inside := ordered.inside node (self_mem_preorder _) child member
      omega

theorem IsInOrder.rows_ascending {node : Node} (ordered : node.IsInOrder) :
    node.preorder.Pairwise fun first second => first.span.start.row ≤ second.span.start.row := by
  induction node using Node.ofChildren with
  | step node ih =>
    have below : ∀ inner ∈ node.children.flatMap preorder,
        node.span.start.row ≤ inner.span.start.row := by
      intro inner member
      refine (ordered.rows_within ?_).1
      rw [preorder_eq]
      exact List.mem_cons_of_mem _ member
    rw [preorder_eq, List.pairwise_cons, List.pairwise_flatMap]
    refine ⟨below, fun child member => ih child member (ordered.child member), ?_⟩
    refine (ordered.siblings node (self_mem_preorder _)).imp_of_mem ?_
    intro earlier later member memberLater apart first inEarlier second inLater
    have firstWithin := (ordered.child member).rows_within inEarlier
    have secondWithin := (ordered.child memberLater).rows_within inLater
    omega

end Node

namespace Comment

variable (source : SourceText)

def collect (cursor : Cursor) (found : List Comment) : List Comment :=
  let found :=
    if cursor.node.kind = .comment then found ++ [ofNode source cursor.node] else found
  match _moves : cursor.next? with
  | some next => collect next found
  | none => found
termination_by cursor.pending.length
decreasing_by rw [cursor.pending_eq, _moves]; exact Nat.lt_succ_self _

variable {source}

theorem collect_eq (cursor : Cursor) (found : List Comment) :
    collect source cursor found =
      found ++ (cursor.pending.filter (·.kind = .comment)).map (ofNode source) := by
  have here (cursor : Cursor) (found : List Comment) (rest : List Node) :
      (if cursor.node.kind = .comment then found ++ [ofNode source cursor.node] else found) ++
          (rest.filter (·.kind = .comment)).map (ofNode source) =
        found ++ ((cursor.node :: rest).filter (·.kind = .comment)).map (ofNode source) := by
    by_cases isComment : cursor.node.kind = .comment <;> simp [isComment]
  fun_induction collect source cursor found with
  | case1 cursor found added next moves ih =>
    rw [ih, cursor.pending_eq, moves]
    exact here cursor found next.pending
  | case2 cursor found added stops =>
    rw [cursor.pending_eq, stops]
    have last := here cursor found []
    rw [List.filter_nil, List.map_nil, List.append_nil] at last
    exact last

theorem exists_append_bytesBefore (source : SourceText) (offset : Nat) :
    ∃ earlier, earlier ++ bytesBefore source offset = source.bytes.data.toList.take offset ∧
      (earlier = [] ∨ earlier.getLast? = some 10) ∧ 10 ∉ bytesBefore source offset := by
  let bytes := source.bytes.data.toList.take offset
  have before : bytesBefore source offset = bytes.rtakeWhile (· != 10) := by
    simp [bytesBefore, bytes, List.rtakeWhile, ByteArray.data_extract]
  rw [before]
  refine ⟨bytes.rdropWhile (· != 10), List.rdropWhile_append_rtakeWhile, ?_, fun feed => ?_⟩
  · by_cases first : bytes.rdropWhile (· != 10) = []
    · exact Or.inl first
    · have feed : (bytes.rdropWhile (· != 10)).getLast first = 10 := by
        simpa using List.rdropWhile_last_not (· != 10) bytes first
      rw [List.getLast?_eq_getLast_of_ne_nil first, feed]
      exact Or.inr rfl
  · have other := List.mem_rtakeWhile_imp feed
    cases other

theorem exists_lineStarts (source : SourceText) (offset : Nat) :
    ∃ start, source.LineStarts offset start ∧ ∀ byte, byte ∈ bytesBefore source offset ↔
      ∃ index, start ≤ index ∧ index < offset ∧ source.bytes.data[index]? = some byte := by
  obtain ⟨earlier, whole, boundary, unbroken⟩ := exists_append_bytesBefore source offset
  have short : earlier.length + (bytesBefore source offset).length ≤ offset := by
    rw [← List.length_append, whole]
    exact List.length_take_le ..
  have byteAt {index : Nat} (inside : index < offset) :
      source.bytes.data[index]? = (earlier ++ bytesBefore source offset)[index]? := by
    rw [whole, List.getElem?_take_of_lt inside, Array.getElem?_toList]
  have onLine {index : Nat} (low : earlier.length ≤ index) (inside : index < offset) :
      source.bytes.data[index]? = (bytesBefore source offset)[index - earlier.length]? := by
    rw [byteAt inside, List.getElem?_append_right low]
  refine ⟨earlier.length, ⟨by omega, ?_, ?_⟩, fun byte => ?_⟩
  · rcases boundary with rfl | feed
    · exact Or.inl rfl
    · have filled := List.length_pos_of_mem (List.mem_of_getLast? feed)
      rw [byteAt (by omega), List.getElem?_append_left (by omega), ← List.getLast?_eq_getElem?]
      exact Or.inr feed
  · intro index low inside feed
    rw [onLine low inside] at feed
    exact unbroken (List.mem_of_getElem? feed)
  · rw [List.mem_iff_getElem?]
    constructor
    · rintro ⟨place, found⟩
      have inside := (List.getElem?_eq_some_iff.mp found).1
      refine ⟨earlier.length + place, by omega, by omega, ?_⟩
      rw [onLine (by omega) (by omega), Nat.add_sub_cancel_left]
      exact found
    · rintro ⟨index, low, inside, found⟩
      exact ⟨_, (onLine low inside).symm.trans found⟩

variable (source) in
theorem trailing_iff (node : Node) :
    (ofNode source node).trailing = true ↔ source.HasSolidBefore node.span.startByte := by
  obtain ⟨start, starts, mem_iff⟩ := exists_lineStarts source node.span.startByte
  simp only [ofNode, List.any_eq_true, Bool.not_eq_true', mem_iff]
  constructor
  · rintro ⟨byte, ⟨index, low, inside, found⟩, solid⟩
    exact ⟨start, starts, index, byte, low, inside, found, solid⟩
  · rintro ⟨other, startsOther, index, byte, low, inside, found, solid⟩
    obtain rfl : other = start := Nat.le_antisymm (starts.le startsOther) (startsOther.le starts)
    exact ⟨byte, ⟨index, low, inside, found⟩, solid⟩

variable (source) in
/-- The cursor comes to every node of a tree once, in preorder, and stops. What it collects is one
comment for each node of the kind, and from line to line where the nodes are in order. -/
theorem collected_in_preorder (root : Node) :
    (∀ count, ((Cursor.ofRoot root).after count).map Cursor.node = root.preorder[count]?) ∧
    ofTree source root = collect source (Cursor.ofRoot root) [] ∧
    ofTree source root = (root.preorder.filter (·.kind = .comment)).map (ofNode source) ∧
    (root.IsInOrder → (ofTree source root).Pairwise fun first second => first.line ≤ second.line) ∧
    ∀ node, (ofNode source node).line = node.span.start.row + 1 ∧
      (ofNode source node).text = node.text source ∧
      ((ofNode source node).trailing = true ↔
        source.HasSolidBefore node.span.startByte) := by
  refine ⟨fun count => ?_, ?_, ofTree_eq source root, fun ordered => ?_, fun node => ?_⟩
  · rw [Cursor.node_after, Cursor.pending_ofRoot]
  · rw [collect_eq, Cursor.pending_ofRoot, ofTree_eq, List.nil_append]
  · rw [ofTree_eq, List.pairwise_map]
    refine (ordered.rows_ascending.filter _).imp fun {first second} ascending => ?_
    exact Nat.succ_le_succ ascending
  · exact ⟨rfl, rfl, trailing_iff source node⟩

/-- A constant with a comment behind it, and a comment of its own, on the lines
`FOO = 1 # the answer` and `# next`. -/
def answerTree : Node :=
  let target : Node := ⟨.constant, true, some .left, .onRow 0 3 0 0, []⟩
  let value : Node := ⟨.other "integer", true, some .right, .onRow 6 7 0 6, []⟩
  let write : Node := ⟨.assignment, true, none, .onRow 0 7 0 0, [target, value]⟩
  let trailing : Node := ⟨.comment, true, none, .onRow 8 20 0 8, []⟩
  let own : Node := ⟨.comment, true, none, .onRow 21 27 1 0, []⟩
  ⟨.program, true, none, ⟨0, 28, ⟨0, 0⟩, ⟨2, 0⟩⟩, [write, trailing, own]⟩

def answerSource : SourceText :=
  SourceText.ofString "FOO = 1 # the answer\n# next\n"

theorem answer_comments :
    answerTree.IsInOrder ∧
    collect answerSource (Cursor.ofRoot answerTree) [] =
      [⟨1, "# the answer", true⟩, ⟨2, "# next", false⟩] ∧
    (ofTree answerSource answerTree).Pairwise fun first second => first.line ≤ second.line := by
  have ordered : answerTree.IsInOrder :=
    ⟨by decide +kernel, by decide +kernel, by decide +kernel⟩
  have comments : ofTree answerSource answerTree =
      [⟨1, "# the answer", true⟩, ⟨2, "# next", false⟩] := by decide +kernel
  obtain ⟨_, collected, _, ascending, _⟩ := collected_in_preorder answerSource answerTree
  exact ⟨ordered, collected.symm.trans comments, ascending ordered⟩

end Comment

end DeclarationIndex
