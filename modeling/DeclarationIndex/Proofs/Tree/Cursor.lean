import DeclarationIndex.Tree.Node

/-!
A cursor that is moved over a syntax tree: down if it can, else to the right, else up until it can
go to the right. From the root it comes to every node once, to each before those below it, and
then it stops.
-/

namespace DeclarationIndex

/-- A place in a tree: a node with its later siblings, and the nodes above it, nearest first, each
with its later siblings. -/
structure Cursor where
  node : Node
  later : List Node
  above : List (Node × List Node)

namespace Cursor

def ofRoot (root : Node) : Cursor :=
  ⟨root, [], []⟩

def firstChild? (cursor : Cursor) : Option Cursor :=
  match cursor.node.children with
  | [] => none
  | child :: rest => some ⟨child, rest, (cursor.node, cursor.later) :: cursor.above⟩

def nextSibling? (cursor : Cursor) : Option Cursor :=
  match cursor.later with
  | [] => none
  | next :: rest => some ⟨next, rest, cursor.above⟩

def parent? (cursor : Cursor) : Option Cursor :=
  match cursor.above with
  | [] => none
  | (parent, later) :: outer => some ⟨parent, later, outer⟩

theorem length_above_of_parent? {cursor parent : Cursor} (moves : cursor.parent? = some parent) :
    cursor.above.length = parent.above.length + 1 := by
  obtain ⟨node, later, above⟩ := cursor
  cases above with
  | nil => cases moves
  | cons frame outer => cases moves; rfl

/-- To the next sibling, after going up as far as there is none. -/
def climb? (cursor : Cursor) : Option Cursor :=
  match cursor.nextSibling? with
  | some next => some next
  | none =>
      match _moves : cursor.parent? with
      | some parent => parent.climb?
      | none => none
termination_by cursor.above.length
decreasing_by rw [length_above_of_parent? _moves]; exact Nat.lt_succ_self _

def next? (cursor : Cursor) : Option Cursor :=
  match cursor.firstChild? with
  | some child => some child
  | none => cursor.climb?

def after : Nat → Cursor → Option Cursor
  | 0, cursor => some cursor
  | count + 1, cursor => cursor.next?.bind (after count)

def following (cursor : Cursor) : List Node :=
  Node.preorderList cursor.later ++
    cursor.above.flatMap fun (_, later) => Node.preorderList later

/-- The nodes that the cursor is still to come to, its own first. -/
def pending (cursor : Cursor) : List Node :=
  cursor.node.preorder ++ cursor.following

variable {cursor next parent : Cursor}

theorem pending_of_firstChild? (moves : cursor.firstChild? = some next) :
    cursor.pending = cursor.node :: next.pending := by
  obtain ⟨⟨kind, named, field, span, children⟩, later, above⟩ := cursor
  cases children with
  | nil => cases moves
  | cons child rest =>
    cases moves
    simp [pending, following, Node.preorder, Node.preorderList]

theorem pending_of_leaf (leaf : cursor.firstChild? = none) :
    cursor.pending = cursor.node :: cursor.following := by
  obtain ⟨⟨kind, named, field, span, children⟩, later, above⟩ := cursor
  cases children with
  | nil => simp [pending, Node.preorder, Node.preorderList]
  | cons child rest => cases leaf

theorem following_of_nextSibling? (moves : cursor.nextSibling? = some next) :
    cursor.following = next.pending := by
  obtain ⟨node, later, above⟩ := cursor
  cases later with
  | nil => cases moves
  | cons sibling rest =>
    cases moves
    simp [pending, following, Node.preorderList]

theorem following_of_parent? (last : cursor.nextSibling? = none)
    (moves : cursor.parent? = some parent) : cursor.following = parent.following := by
  obtain ⟨node, later, above⟩ := cursor
  cases later with
  | cons sibling rest => cases last
  | nil =>
    cases above with
    | nil => cases moves
    | cons frame outer =>
      cases moves
      simp [following, Node.preorderList]

theorem following_eq_nil (last : cursor.nextSibling? = none) (top : cursor.parent? = none) :
    cursor.following = [] := by
  obtain ⟨node, later, above⟩ := cursor
  cases later with
  | cons sibling rest => cases last
  | nil =>
    cases above with
    | cons frame outer => cases top
    | nil => rfl

theorem following_eq (cursor : Cursor) :
    cursor.following = (cursor.climb?.map pending).getD [] := by
  fun_induction climb? cursor with
  | case1 cursor next moves => exact following_of_nextSibling? moves
  | case2 cursor last parent moves ih => rw [following_of_parent? last moves, ih]
  | case3 cursor last top => exact following_eq_nil last top

/-- With each move one node less is still to come: the one that the cursor leaves. -/
theorem pending_eq (cursor : Cursor) :
    cursor.pending = cursor.node :: (cursor.next?.map pending).getD [] := by
  cases moves : cursor.firstChild? with
  | some child => simp [next?, moves, pending_of_firstChild? moves]
  | none => simp [next?, moves, pending_of_leaf moves, following_eq]

theorem node_after (count : Nat) (cursor : Cursor) :
    (cursor.after count).map node = cursor.pending[count]? := by
  induction count generalizing cursor with
  | zero => rw [pending_eq]; rfl
  | succ count ih =>
    rw [pending_eq, after, List.getElem?_cons_succ]
    cases cursor.next? with
    | none => rfl
    | some next => exact ih next

theorem pending_ofRoot (root : Node) : (ofRoot root).pending = root.preorder :=
  List.append_nil _

end Cursor

end DeclarationIndex
