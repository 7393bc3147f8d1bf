import Mathlib.Data.List.Basic
import TraceWeave.Syntax.Cursor

/-!
What a visitor can do to its cursor.

A cursor stands for a list with an index (`Cursor.indexed`), and every move does to the list
what it does to the cursor (`Cursor.indexed_moves`).
-/

namespace TraceWeave.Syntax

/-! ## Moves -/

/-- What a visitor does to its cursor. -/
inductive Move where
  | insertBefore (stmt : Stmt)
  | insertAfter (stmt : Stmt)
  | insertLater (offset : Nat) (stmt : Stmt)
  | replace (stmt : Stmt)
  /-- Changes the current statement in place. -/
  | edit (f : Stmt → Stmt)
  /-- Changes the statements of the rest in place, each by its position. -/
  | editRest (f : Nat → Stmt → Stmt)

namespace Move

/-- The statement that a move puts in front of the current one. -/
def before? : Move → Option Stmt
  | .insertBefore stmt => some stmt
  | _ => none

/-- The statement that a move puts behind the current one. -/
def after? : Move → Option Stmt
  | .insertAfter stmt => some stmt
  | _ => none

/-- The statement that a move puts into the rest. -/
def later? : Move → Option Stmt
  | .insertLater _ stmt => some stmt
  | _ => none

/-- What becomes of the current statement. -/
def change (current : Stmt) : Move → Stmt
  | .replace stmt => stmt
  | .edit f => f current
  | _ => current

def editsRest : Move → Bool
  | .editRest _ => true
  | _ => false

end Move

/-- The statements that moves insert later on, in the order of the moves. -/
def laterOf (moves : List Move) : List Stmt := moves.flatMap (·.later?.toList)

namespace Cursor

def move (cursor : Cursor) : Move → Cursor
  | .insertBefore stmt => cursor.insertBefore stmt
  | .insertAfter stmt => cursor.insertAfter stmt
  | .insertLater offset stmt => cursor.insertLater offset stmt
  | .replace stmt => cursor.replace stmt
  | .edit f => cursor.modify f
  | .editRest f => { cursor with rest := cursor.rest.mapIdx f }

variable (cursor : Cursor) (moves : List Move)

theorem before_moves :
    (moves.foldl move cursor).before =
      (moves.flatMap (·.before?.toList)).reverse ++ cursor.before := by
  induction moves generalizing cursor with
  | nil => rfl
  | cons head moves ih =>
      have hhead : (cursor.move head).before = head.before?.toList ++ cursor.before := by
        cases head <;> rfl
      rw [List.foldl_cons, ih, hhead, List.flatMap_cons, List.reverse_append, List.append_assoc]
      cases head <;> rfl

theorem after_moves :
    (moves.foldl move cursor).after = cursor.after ++ moves.flatMap (·.after?.toList) := by
  induction moves generalizing cursor with
  | nil => exact (List.append_nil _).symm
  | cons head moves ih =>
      have hhead : (cursor.move head).after = cursor.after ++ head.after?.toList := by
        cases head <;> simp [move, insertBefore, insertAfter, insertLater, replace, modify,
          Move.after?]
      rw [List.foldl_cons, ih, hhead, List.flatMap_cons, List.append_assoc]

theorem current_moves :
    (moves.foldl move cursor).current = moves.foldl Move.change cursor.current := by
  induction moves generalizing cursor with
  | nil => rfl
  | cons head moves ih =>
      have hhead : (cursor.move head).current = head.change cursor.current := by
        cases head <;> rfl
      rw [List.foldl_cons, ih, hhead, List.foldl_cons]

end Cursor

/-! ## A list with an index -/

/-- A list of statements with the position of the current one. -/
structure Indexed where
  stmts : List Stmt
  index : Nat

/-- The move on a list with an index; what stands behind the current statement comes in later. -/
def Indexed.move (indexed : Indexed) : Move → Indexed
  | .insertBefore stmt => ⟨indexed.stmts.insertIdx indexed.index stmt, indexed.index + 1⟩
  | .insertAfter _ => indexed
  | .insertLater offset stmt =>
      let position := min (indexed.index + 2 + offset) indexed.stmts.length
      { indexed with stmts := indexed.stmts.insertIdx position stmt }
  | .replace stmt => { indexed with stmts := indexed.stmts.set indexed.index stmt }
  | .edit f => { indexed with stmts := indexed.stmts.modify indexed.index f }
  | .editRest f =>
      { indexed with
        stmts := indexed.stmts.take (indexed.index + 1) ++
          (indexed.stmts.drop (indexed.index + 1)).mapIdx f }

theorem insertIdx_min {α : Type} (row : List α) (position : Nat) (a : α) :
    row.insertIdx (min position row.length) a = row.take position ++ a :: row.drop position := by
  induction row generalizing position with
  | nil => simp
  | cons b row ih =>
      cases position with
      | zero => simp
      | succ position => simp [Nat.succ_min_succ, ih]

namespace Cursor

/-- The list during a visit. -/
def indexed (cursor : Cursor) : Indexed :=
  ⟨cursor.before.reverse ++ cursor.current :: cursor.rest, cursor.index⟩

/-- The index is the position of the current statement. -/
theorem getElem?_indexed (cursor : Cursor) :
    cursor.indexed.stmts[cursor.indexed.index]? = some cursor.current := by
  simp [indexed, index]

/-- The rest stands behind the index. -/
theorem drop_indexed (cursor : Cursor) :
    cursor.indexed.stmts.drop (cursor.indexed.index + 1) = cursor.rest := by
  have h : (cursor.before.reverse ++ cursor.current :: cursor.rest).drop
      (cursor.before.reverse.length + 1) = cursor.rest := List.drop_length_add_append 1
  rwa [List.length_reverse] at h

theorem indexed_move (cursor : Cursor) (head : Move) :
    (cursor.move head).indexed = cursor.indexed.move head := by
  obtain ⟨before, current, rest, after⟩ := cursor
  obtain ⟨front, rfl⟩ : ∃ front : List Stmt, before = front.reverse := ⟨before.reverse, by simp⟩
  cases head with
  | insertBefore stmt =>
      have h := List.modifyTailIdx_add (stmt :: ·) 0 front (current :: rest)
      simpa [move, insertBefore, indexed, Indexed.move, index, List.insertIdx] using h.symm
  | insertAfter stmt => rfl
  | insertLater offset stmt =>
      have hposition : min (front.length + 2 + offset) (front.length + (rest.length + 1)) =
          front.length + (min (offset + 1) rest.length + 1) := by
        omega
      have h := List.modifyTailIdx_add (stmt :: ·) (min (offset + 1) rest.length + 1) front
        (current :: rest)
      have hlater := insertIdx_min rest (offset + 1) stmt
      rw [List.modifyTailIdx_succ_cons] at h
      simpa [move, insertLater, indexed, Indexed.move, index, List.insertIdx, ← hlater, hposition]
        using h.symm
  | replace stmt => simp [move, replace, indexed, Indexed.move, index]
  | edit f =>
      have h := List.modifyTailIdx_add (List.modifyHead f) 0 front (current :: rest)
      simpa [move, modify, indexed, Indexed.move, index, List.modify] using h.symm
  | editRest f =>
      have htake : (front ++ current :: rest).take (front.length + 1) = front ++ [current] :=
        List.take_length_add_append 1
      have hdrop : (front ++ current :: rest).drop (front.length + 1) = rest :=
        List.drop_length_add_append 1
      simp [move, indexed, Indexed.move, index, htake, hdrop]

theorem indexed_moves (cursor : Cursor) (moves : List Move) :
    (moves.foldl move cursor).indexed = moves.foldl Indexed.move cursor.indexed := by
  induction moves generalizing cursor with
  | nil => rfl
  | cons head moves ih => rw [List.foldl_cons, ih, indexed_move, List.foldl_cons]

end Cursor

end TraceWeave.Syntax
