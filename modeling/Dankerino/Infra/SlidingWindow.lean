import Mathlib.Algebra.Order.Group.Int
import Mathlib.Data.List.Basic

/-!
# Bounds over a sliding window

A log of points in time, and a queue that holds its end. `AtMost n w log` says that no closed
interval of length `w` holds more than `n` points of the log. If what the queue has dropped is older
than `w`, then a bound on the queue's length is enough to add a point (`AtMost.concat`).
-/

namespace Infra

variable {α : Type*} [AddCommGroup α] [LinearOrder α] [IsOrderedAddMonoid α]

/-- The points from `a` to `a + w`. -/
def inWindow (w a : α) (log : List α) : List α :=
  log.filter fun t => a ≤ t ∧ t ≤ a + w

/-- Every interval of length `w` holds at most `n` points. -/
def AtMost (n : Nat) (w : α) (log : List α) : Prop :=
  ∀ a, (inWindow w a log).length ≤ n

omit [IsOrderedAddMonoid α] in
theorem atMost_nil (n : Nat) (w : α) : AtMost n w ([] : List α) :=
  fun _ => Nat.zero_le n

omit [IsOrderedAddMonoid α] in
theorem inWindow_append (w a : α) (xs ys : List α) :
    inWindow w a (xs ++ ys) = inWindow w a xs ++ inWindow w a ys :=
  List.filter_append xs ys

/-- A window that holds `now` holds nothing that is older than its length. -/
theorem inWindow_eq_nil_of_old {w a now : α} {old : List α} (hnow : now ≤ a + w)
    (hold : ∀ t ∈ old, t + w < now) : inWindow w a old = [] := by
  refine List.filter_eq_nil_iff.mpr fun t ht => ?_
  have hlt : t < a := lt_of_add_lt_add_right ((hold t ht).trans_le hnow)
  simp [hlt]

/-- One more point keeps the bound when the points that are not yet too old are fewer than it. -/
theorem AtMost.concat {n : Nat} {w now : α} {old recent : List α}
    (h : AtMost n w (old ++ recent)) (hold : ∀ t ∈ old, t + w < now) (hrecent : recent.length < n) :
    AtMost n w (old ++ recent ++ [now]) := by
  intro a
  rw [inWindow_append]
  by_cases hin : a ≤ now ∧ now ≤ a + w
  · -- only the queue and the new point can lie in the window
    have hlast : inWindow w a [now] = [now] := by simp [inWindow, hin]
    rw [inWindow_append, inWindow_eq_nil_of_old hin.2 hold, hlast, List.nil_append,
      List.length_append, List.length_singleton]
    have hle : (inWindow w a recent).length ≤ recent.length := List.length_filter_le _ _
    omega
  · have hlast : inWindow w a [now] = [] := by simp [inWindow, hin]
    rw [hlast, List.append_nil]
    exact h a

/-- A shorter window has the bound of a longer one. -/
theorem AtMost.mono {n : Nat} {v w : α} {log : List α} (hvw : v ≤ w) (h : AtMost n w log) :
    AtMost n v log := by
  intro a
  refine le_trans ?_ (h a)
  refine (List.monotone_filter_right log fun t ht => ?_).length_le
  simp only [decide_eq_true_eq] at ht ⊢
  exact ⟨ht.1, ht.2.trans (add_le_add_right hvw a)⟩

end Infra
