import Mathlib.Data.List.Infix
import Mathlib.Order.Bounds.Basic

/-!
# The longest common substring

How long the longest list is that is a contiguous part of two lists. Such a part ends somewhere in both, so that
its length is the greatest of the lengths that end at two positions (`isGreatest_of_ends`), and these follow one
from the other along the diagonals (`commonEnd_succ`).
-/

namespace Infra

namespace CommonSubstring

universe u

variable {α : Type u}

/-- The lengths of the lists that are contiguous parts of both. -/
def lengths (l m : List α) : Set Nat := {n | ∃ s, s <:+: l ∧ s <:+: m ∧ s.length = n}

theorem lengths_comm (l m : List α) : lengths l m = lengths m l := by
  ext n
  constructor
  · rintro ⟨s, hl, hm, rfl⟩
    exact ⟨s, hm, hl, rfl⟩
  · rintro ⟨s, hm, hl, rfl⟩
    exact ⟨s, hl, hm, rfl⟩

theorem zero_mem_lengths (l m : List α) : 0 ∈ lengths l m := ⟨[], List.nil_infix, List.nil_infix, rfl⟩

variable {l m : List α} {z : Nat}

theorem le_of_mem_lengths (h : z ∈ lengths l m) : z ≤ l.length ∧ z ≤ m.length := by
  obtain ⟨s, hl, hm, rfl⟩ := h
  exact ⟨hl.length_le, hm.length_le⟩

/-- Only a list and itself have all in common. -/
theorem isGreatest_eq_max_iff (h : IsGreatest (lengths l m) z) : z = max l.length m.length ↔ l = m := by
  obtain ⟨⟨s, hl, hm, hs⟩, hgreatest⟩ := h
  constructor
  · intro hz
    have hlength_l : s.length = l.length := by
      have hle := hl.length_le
      omega
    have hlength_m : s.length = m.length := by
      have hle := hm.length_le
      omega
    exact (hl.eq_of_length hlength_l).symm.trans (hm.eq_of_length hlength_m)
  · rintro rfl
    have hself : l.length ≤ z := hgreatest ⟨l, List.infix_rfl, List.infix_rfl, rfl⟩
    have hle := hl.length_le
    omega

/-! ## Common ends -/

variable [DecidableEq α]

/-- How much of the starts of two lists is the same. -/
def commonPrefix : List α → List α → Nat
  | a :: as, b :: bs => if a = b then commonPrefix as bs + 1 else 0
  | _, _ => 0

theorem exists_commonPrefix (l m : List α) :
    ∃ s, s <+: l ∧ s <+: m ∧ s.length = commonPrefix l m := by
  induction l, m using commonPrefix.induct with
  | case1 as b bs ih =>
    obtain ⟨s, hl, hm, hs⟩ := ih
    refine ⟨b :: s, List.cons_prefix_cons.mpr ⟨rfl, hl⟩, List.cons_prefix_cons.mpr ⟨rfl, hm⟩, ?_⟩
    rw [commonPrefix, if_pos rfl, List.length_cons, hs]
  | case2 a as b bs hne =>
    refine ⟨[], List.nil_prefix, List.nil_prefix, ?_⟩
    rw [commonPrefix, if_neg hne, List.length_nil]
  | case3 l m h =>
    refine ⟨[], List.nil_prefix, List.nil_prefix, ?_⟩
    rw [commonPrefix, List.length_nil]
    exact h

theorem le_commonPrefix {s : List α} (hl : s <+: l) (hm : s <+: m) : s.length ≤ commonPrefix l m := by
  induction s generalizing l m with
  | nil => exact Nat.zero_le _
  | cons c s ih =>
    obtain ⟨l, rfl⟩ := hl
    obtain ⟨m, rfl⟩ := hm
    rw [List.cons_append, List.cons_append, commonPrefix, if_pos rfl, List.length_cons]
    exact Nat.succ_le_succ (ih (List.prefix_append _ _) (List.prefix_append _ _))

/-- How much of what is before two positions is the same. -/
def commonEnd (l m : List α) (i j : Nat) : Nat := commonPrefix (l.take i).reverse (m.take j).reverse

theorem commonEnd_zero_left (l m : List α) (j : Nat) : commonEnd l m 0 j = 0 := by
  rw [commonEnd, List.take_zero, List.reverse_nil, commonPrefix]
  simp

theorem commonEnd_zero_right (l m : List α) (i : Nat) : commonEnd l m i 0 = 0 := by
  rw [commonEnd, List.take_zero, List.reverse_nil, commonPrefix]
  simp

/-- A common end is one longer behind the same item, and empty behind different ones. -/
theorem commonEnd_succ {i j : Nat} (hi : i < l.length) (hj : j < m.length) :
    commonEnd l m (i + 1) (j + 1) = if l[i]? = m[j]? then commonEnd l m i j + 1 else 0 := by
  rw [commonEnd, List.take_succ_eq_append_getElem hi, List.take_succ_eq_append_getElem hj, List.reverse_append,
    List.reverse_append, List.getElem?_eq_getElem hi, List.getElem?_eq_getElem hj]
  simp only [List.reverse_singleton, List.singleton_append, commonPrefix, Option.some.injEq]
  rfl

theorem commonEnd_mem_lengths (l m : List α) (i j : Nat) : commonEnd l m i j ∈ lengths l m := by
  obtain ⟨s, hl, hm, hs⟩ := exists_commonPrefix (l.take i).reverse (m.take j).reverse
  have hpart {l : List α} {i : Nat} (h : s <+: (l.take i).reverse) : s.reverse <:+: l := by
    rw [← List.reverse_suffix, List.reverse_reverse] at h
    exact h.isInfix.trans (List.take_prefix i l).isInfix
  exact ⟨s.reverse, hpart hl, hpart hm, by rw [List.length_reverse, hs, commonEnd]⟩

/-- A common part ends at a position of each list. -/
theorem exists_commonEnd (h : z ∈ lengths l m) (hz : z ≠ 0) :
    ∃ i j, i < l.length ∧ j < m.length ∧ z ≤ commonEnd l m (i + 1) (j + 1) := by
  obtain ⟨s, ⟨x, y, rfl⟩, ⟨x', y', rfl⟩, rfl⟩ := h
  have hpos := Nat.pos_of_ne_zero hz
  have hend (x y : List α) : s.reverse <+: ((x ++ s ++ y).take (x.length + s.length - 1 + 1)).reverse := by
    have htake : (x ++ s ++ y).take (x.length + s.length - 1 + 1) = x ++ s :=
      List.take_left' (by rw [List.length_append]; omega)
    rw [htake, List.reverse_append]
    exact List.prefix_append _ _
  refine ⟨x.length + s.length - 1, x'.length + s.length - 1, ?_, ?_, ?_⟩
  · simp only [List.length_append]
    omega
  · simp only [List.length_append]
    omega
  · have hle := le_commonPrefix (hend x y) (hend x' y')
    rwa [List.length_reverse] at hle

/-- The greatest common end is the longest common part. -/
theorem isGreatest_of_ends
    (hle : ∀ i j, i < l.length → j < m.length → commonEnd l m (i + 1) (j + 1) ≤ z)
    (hz : z = 0 ∨ ∃ i j, z = commonEnd l m i j) : IsGreatest (lengths l m) z := by
  constructor
  · rcases hz with rfl | ⟨i, j, rfl⟩
    · exact zero_mem_lengths l m
    · exact commonEnd_mem_lengths l m i j
  · intro n hn
    by_cases hzero : n = 0
    · omega
    · obtain ⟨i, j, hi, hj, hend⟩ := exists_commonEnd hn hzero
      exact Nat.le_trans hend (hle i j hi hj)

end CommonSubstring

end Infra
