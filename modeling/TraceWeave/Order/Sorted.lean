/-!
Lists without repetition, kept in ascending order.
-/

namespace TraceWeave.Order

variable {α : Type} [Ord α]

/-- Inserts at the place of the order; an element that is there already stays. -/
def insertSorted (a : α) : List α → List α
  | [] => [a]
  | b :: rest =>
      match compare a b with
      | .lt => a :: b :: rest
      | .eq => b :: rest
      | .gt => b :: insertSorted a rest

theorem mem_insertSorted [Std.LawfulEqOrd α] (a b : α) (list : List α) :
    b ∈ insertSorted a list ↔ b = a ∨ b ∈ list := by
  induction list with
  | nil => simp [insertSorted]
  | cons c list ih =>
      unfold insertSorted
      split
      · simp
      · next heq =>
        obtain rfl : a = c := Std.LawfulEqOrd.eq_of_compare heq
        simp
      · simp only [List.mem_cons, ih]
        exact or_left_comm

/-- The elements of a list in ascending order, each of them once. -/
def sortedDistinct (list : List α) : List α := list.foldl (fun sorted a => insertSorted a sorted) []

theorem mem_sortedDistinct [Std.LawfulEqOrd α] (a : α) (list : List α) :
    a ∈ sortedDistinct list ↔ a ∈ list := by
  have hfold : ∀ sorted : List α,
      a ∈ list.foldl (fun sorted a => insertSorted a sorted) sorted ↔ a ∈ sorted ∨ a ∈ list := by
    induction list with
    | nil => simp
    | cons b list ih =>
        intro sorted
        rw [List.foldl_cons, ih, mem_insertSorted, List.mem_cons, or_assoc]
        exact or_left_comm
  simpa [sortedDistinct] using hfold []

/-! ## Order -/

theorem pairwise_insertSorted [Std.TransOrd α] [Std.LawfulEqOrd α] (a : α) {list : List α}
    (h : list.Pairwise fun a b => compare a b = .lt) :
    (insertSorted a list).Pairwise fun a b => compare a b = .lt := by
  induction list with
  | nil => simp [insertSorted]
  | cons b list ih =>
      unfold insertSorted
      split
      · next hlt =>
        refine List.pairwise_cons.2 ⟨fun c hmem => ?_, h⟩
        obtain rfl | hmem := List.mem_cons.1 hmem
        · exact hlt
        · exact Std.TransCmp.lt_trans hlt (List.rel_of_pairwise_cons h hmem)
      · exact h
      · next hgt =>
        refine List.pairwise_cons.2 ⟨fun c hmem => ?_, ih h.of_cons⟩
        obtain rfl | hmem := (mem_insertSorted a c list).1 hmem
        · exact Std.OrientedCmp.lt_of_gt hgt
        · exact List.rel_of_pairwise_cons h hmem

theorem pairwise_sortedDistinct [Std.TransOrd α] [Std.LawfulEqOrd α] (list : List α) :
    (sortedDistinct list).Pairwise fun a b => compare a b = .lt := by
  have hfold : ∀ sorted : List α, (sorted.Pairwise fun a b => compare a b = .lt) →
      (list.foldl (fun sorted a => insertSorted a sorted) sorted).Pairwise
        fun a b => compare a b = .lt := by
    induction list with
    | nil => exact fun _ h => h
    | cons a list ih => exact fun sorted h => ih _ (pairwise_insertSorted a h)
  exact hfold [] .nil

end TraceWeave.Order
