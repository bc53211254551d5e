import Mathlib.Data.List.Basic

/-!
# Indices into a list and into what a filter leaves of it

The list is cut at the element that has a given index among the elements that pass the filter. An
edit at the cut is then an edit at that index of the filtered list.
-/

namespace Infra

universe u

variable {α : Type u} {p : α → Bool}

/-- The element that the filtered list has at the index, with what stands before and after it. -/
theorem exists_cut : ∀ {l : List α} {n : Nat}, n < (l.filter p).length →
    ∃ pre x post, l = pre ++ x :: post ∧ p x = true ∧ (pre.filter p).length = n
  | [], _, h => absurd h (Nat.not_lt_zero _)
  | x :: l, n, h => by
    by_cases hx : p x = true
    · cases n with
      | zero => exact ⟨[], x, l, rfl, hx, rfl⟩
      | succ n =>
        rw [List.filter_cons_of_pos hx, List.length_cons] at h
        obtain ⟨pre, y, post, rfl, hy, hlen⟩ := exists_cut (Nat.lt_of_succ_lt_succ h)
        refine ⟨x :: pre, y, post, rfl, hy, ?_⟩
        rw [List.filter_cons_of_pos hx, List.length_cons, hlen]
    · rw [List.filter_cons_of_neg hx] at h
      obtain ⟨pre, y, post, rfl, hy, hlen⟩ := exists_cut h
      refine ⟨x :: pre, y, post, rfl, hy, ?_⟩
      rw [List.filter_cons_of_neg hx, hlen]

/-! ## Edits at a cut -/

theorem insertIdx_length_append (l r : List α) (x : α) :
    (l ++ r).insertIdx l.length x = l ++ x :: r := by
  induction l with
  | nil => rfl
  | cons a l ih => rw [List.cons_append, List.length_cons, List.insertIdx_succ_cons, ih]; rfl

theorem eraseIdx_length_append (l r : List α) (x : α) :
    (l ++ x :: r).eraseIdx l.length = l ++ r := by
  rw [List.eraseIdx_append_of_length_le (Nat.le_refl _), Nat.sub_self, List.eraseIdx_cons_zero]

theorem set_length_append (l r : List α) (x y : α) : (l ++ x :: r).set l.length y = l ++ y :: r := by
  rw [List.set_append_right _ _ (Nat.le_refl _), Nat.sub_self, List.set_cons_zero]

theorem getElem?_length_append (l r : List α) (x : α) : (l ++ x :: r)[l.length]? = some x := by
  rw [List.getElem?_append_right (Nat.le_refl _), Nat.sub_self, List.getElem?_cons_zero]

theorem filter_cut {pre post : List α} {x : α} (hx : p x = true) :
    (pre ++ x :: post).filter p = pre.filter p ++ x :: post.filter p := by
  rw [List.filter_append, List.filter_cons_of_pos hx]

end Infra
