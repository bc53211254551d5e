import Mathlib.Data.List.Basic
import Mathlib.Algebra.Ring.Nat

/-!
# Items laid end to end

A list of items, each as long as its size, takes up positions from 0 on. A range of positions reaches
a part of each item. Items can be left out before the range is laid over the others, or after:
`spans_filter_iff` says when this makes no difference.
-/

namespace Infra

universe u v

/--
The part of an item of `n` positions, from `index` on, that the range reaches. The item in which the
range ends is reached even where the range takes nothing of it.
-/
def span (a b index n : Nat) : Option (Nat × Nat) :=
  if 0 < n ∧ a < index + n ∧ index ≤ b then some (a - index, min (b - index) n) else none

theorem span_eq_none {a b index n : Nat} (h : b < index) : span a b index n = none :=
  if_neg fun hspan => Nat.not_lt.mpr hspan.2.2 h

/-- An item that stands behind others in one order and not in the other. -/
theorem span_eq_span_iff {a b o O n : Nat} (hab : a ≤ b) (hn : 0 < n) (ho : o < O) :
    span a b o n = span a b O n ↔
      a ≤ o ∧ O + n ≤ b ∨ (O + n ≤ a ∨ b < O) ∧ (o + n ≤ a ∨ b < o) := by
  unfold span
  split
  · split
    · simp only [Option.some.injEq, Prod.mk.injEq]
      omega
    · simp only [reduceCtorEq, false_iff]
      omega
  · split
    · simp only [reduceCtorEq, false_iff]
      omega
    · simp only [true_iff]
      omega

/-- No position of an item is at or behind the end of the range. -/
theorem forall_lt_end_iff {b index n : Nat} :
    (∀ i < n, ¬ b ≤ index + i) ↔ n = 0 ∨ index + n ≤ b := by
  constructor
  · intro h
    by_contra hnot
    exact h (n - 1) (by omega) (by omega)
  · intro h i hi
    omega

/-- No position of an item is in the range. -/
theorem forall_not_range_iff {a b index n : Nat} (hab : a ≤ b) :
    (∀ i < n, ¬ (a ≤ index + i ∧ index + i ≤ b)) ↔ n = 0 ∨ index + n ≤ a ∨ b < index := by
  constructor
  · intro h
    by_contra hnot
    exact h (a - index) (by omega) (by omega)
  · intro h i hi
    omega

/-- A range over two lists that stand end to end. -/
theorem drop_take_append {β : Type v} (l l' : List β) (a b : Nat) :
    ((l ++ l').take b).drop a
      = (l.take b).drop a ++ (l'.take (b - l.length)).drop (a - l.length) := by
  rw [List.take_append, List.drop_append]
  rcases Nat.lt_or_ge b l.length with hb | hb
  · simp [Nat.sub_eq_zero_of_le (Nat.le_of_lt hb)]
  · rw [List.take_of_length_le hb]

section Items

variable {α : Type u} (size : α → Nat)

def spans (a b : Nat) : Nat → List α → List (α × Option (Nat × Nat))
  | _, [] => []
  | index, x :: xs => (x, span a b index (size x)) :: spans a b (index + size x) xs

/-- The positions that the items take up. -/
def extent (xs : List α) : Nat := (xs.map size).sum

/-- The item at a position. -/
def itemAt : List α → Nat → Option α
  | [], _ => none
  | x :: xs, i => if i < size x then some x else itemAt xs (i - size x)

theorem itemAt_add (x : α) (xs : List α) (i : Nat) :
    itemAt size (x :: xs) (size x + i) = itemAt size xs i := by
  rw [itemAt, if_neg (Nat.not_lt.mpr (Nat.le_add_right _ _)), Nat.add_sub_cancel_left]

theorem extent_cons (x : α) (xs : List α) : extent size (x :: xs) = size x + extent size xs :=
  List.sum_cons

theorem itemAt_eq_none {xs : List α} : ∀ {i : Nat}, extent size xs ≤ i → itemAt size xs i = none := by
  induction xs with
  | nil => exact fun _ => rfl
  | cons x xs ih =>
    intro i h
    rw [extent_cons] at h
    rw [itemAt, if_neg (by omega)]
    exact ih (by omega)

/-! ## Leaving items out -/

section Kept

variable (kept : α → Bool)

/-- An item that is kept stands at the position. -/
def KeptAt (xs : List α) (i : Nat) : Prop := (itemAt size xs i).any kept = true

/-- The ranges for which it makes no difference whether the items are left out before or after. -/
inductive Aligned (a b : Nat) (xs : List α) : Prop
  /-- nothing is left out before the range or in it -/
  | before : (∀ i, i ≤ b → KeptAt size kept xs i) → Aligned a b xs
  /-- nothing is left out before the range, and it takes all that is kept behind its start -/
  | whole : (∀ i, i < a → KeptAt size kept xs i) → (∀ i, b ≤ i → ¬ KeptAt size kept xs i) → Aligned a b xs
  /-- the range takes nothing that is kept -/
  | apart : extent size (xs.filter kept) ≤ a → (∀ i, a ≤ i → i ≤ b → ¬ KeptAt size kept xs i) →
      Aligned a b xs

variable {size kept} {x : α} {xs : List α}

theorem not_keptAt_nil (i : Nat) : ¬ KeptAt size kept [] i := by simp [KeptAt, itemAt]

theorem keptAt_of_lt {i : Nat} (h : i < size x) : KeptAt size kept (x :: xs) i ↔ kept x = true := by
  rw [KeptAt, itemAt, if_pos h, Option.any_some]

theorem keptAt_add (i : Nat) : KeptAt size kept (x :: xs) (size x + i) ↔ KeptAt size kept xs i := by
  rw [KeptAt, itemAt_add, KeptAt]

/-- A property of the positions, first in the item and then behind it. -/
theorem forall_position (n : Nat) (P : Nat → Prop) : (∀ i, P i) ↔ (∀ i < n, P i) ∧ ∀ i, P (n + i) := by
  constructor
  · exact fun h => ⟨fun i _ => h i, fun i => h (n + i)⟩
  · rintro ⟨hlt, hge⟩ i
    rcases Nat.lt_or_ge i n with hi | hi
    · exact hlt i hi
    · have hrest := hge (i - n)
      rwa [Nat.add_sub_cancel' hi] at hrest

/-- Only items that are kept stand at the positions. -/
theorem forall_keptAt_cons {P : Nat → Prop} : (∀ i, P i → KeptAt size kept (x :: xs) i) ↔
    (kept x = false → ∀ i < size x, ¬ P i) ∧ ∀ i, P (size x + i) → KeptAt size kept xs i := by
  rw [forall_position (size x)]
  refine and_congr ⟨fun h hx i hi hp => ?_, fun h i hi hp => ?_⟩ (by simp [keptAt_add])
  · have hkept := (keptAt_of_lt hi).mp (h i hi hp)
    simp [hx] at hkept
  · refine (keptAt_of_lt hi).mpr ?_
    cases hx : kept x with
    | true => rfl
    | false => exact absurd hp (h hx i hi)

/-- No item that is kept stands at the positions. -/
theorem forall_not_keptAt_cons {P : Nat → Prop} : (∀ i, P i → ¬ KeptAt size kept (x :: xs) i) ↔
    (kept x = true → ∀ i < size x, ¬ P i) ∧ ∀ i, P (size x + i) → ¬ KeptAt size kept xs i := by
  rw [forall_position (size x)]
  refine and_congr ⟨fun h hx i hi hp => ?_, fun h i hi hp hkept => ?_⟩ (by simp [keptAt_add])
  · exact h i hi hp ((keptAt_of_lt hi).mpr hx)
  · exact h ((keptAt_of_lt hi).mp hkept) i hi hp

theorem extent_filter_eq_zero (h : ∀ i, ¬ KeptAt size kept xs i) : extent size (xs.filter kept) = 0 := by
  induction xs with
  | nil => rfl
  | cons x xs ih =>
    have hcons := (forall_not_keptAt_cons (P := fun _ => True)).mp fun i _ => h i
    have hrest := ih fun i => hcons.2 i trivial
    cases hx : kept x with
    | false => rwa [List.filter_cons_of_neg (by simp [hx])]
    | true =>
      have hzero : size x = 0 := Nat.eq_zero_of_not_pos fun hpos => hcons.1 hx 0 hpos trivial
      rw [List.filter_cons_of_pos hx, extent_cons, hzero, hrest]

/-- The range over the kept items from `o` on and over all items from `O` on, with `o` before `O`. -/
def Shifted (size : α → Nat) (kept : α → Bool) (a b o O : Nat) (xs : List α) : Prop :=
  b < o ∨ (a ≤ o ∧ ∀ i, b ≤ O + i → ¬ KeptAt size kept xs i) ∨
    (o + extent size (xs.filter kept) ≤ a ∧ ∀ i, a ≤ O + i ∧ O + i ≤ b → ¬ KeptAt size kept xs i)

/-- One more item that is kept: the range takes all of it, or nothing. -/
theorem shifted_cons_iff {a b o O : Nat} (hab : a ≤ b) (ho : o < O) (hx : kept x = true) :
    Shifted size kept a b o O (x :: xs) ↔
      span a b o (size x) = span a b O (size x) ∧ Shifted size kept a b (o + size x) (O + size x) xs := by
  have hnone : (∀ i, b ≤ O + size x + i → ¬ KeptAt size kept xs i) → b ≤ O + size x →
      extent size (xs.filter kept) = 0 ∧
        ∀ i, a ≤ O + size x + i ∧ O + size x + i ≤ b → ¬ KeptAt size kept xs i := by
    intro h hb
    have hall : ∀ i, ¬ KeptAt size kept xs i := fun i => h i (by omega)
    exact ⟨extent_filter_eq_zero hall, fun i _ => hall i⟩
  unfold Shifted
  simp only [forall_not_keptAt_cons, hx, true_implies, List.filter_cons_of_pos hx, extent_cons,
    forall_lt_end_iff, forall_not_range_iff hab, ← Nat.add_assoc]
  -- what is asked of the items behind `x` is the same on both sides
  generalize (∀ i, b ≤ O + size x + i → ¬ KeptAt size kept xs i) = E at hnone ⊢
  generalize (∀ i, a ≤ O + size x + i ∧ O + size x + i ≤ b → ¬ KeptAt size kept xs i) = N at hnone ⊢
  -- an item without positions is in no range
  rcases Nat.eq_zero_or_pos (size x) with hzero | hpos
  · simp [hzero, span]
  · rw [span_eq_span_iff hab hpos ho]
    by_cases hE : E
    · rcases Nat.lt_or_ge (O + size x) b with hb | hb
      · simp only [hE, and_true]
        by_cases hN : N
        · simp only [hN, and_true]
          omega
        · simp only [hN, and_false, or_false]
          omega
      · obtain ⟨hzero, hN⟩ := hnone hE hb
        simp only [hE, hN, hzero, and_true]
        omega
    · simp only [hE, and_false, false_or]
      by_cases hN : N
      · simp only [hN, and_true]
        omega
      · simp only [hN, and_false, or_false]
        omega

theorem spans_filter_shifted_iff {a b : Nat} (hab : a ≤ b) (xs : List α) : ∀ o O, o < O →
    (spans size a b o (xs.filter kept) = (spans size a b O xs).filter (fun p => kept p.1) ↔
      Shifted size kept a b o O xs) := by
  induction xs with
  | nil =>
    intro o O _
    simp only [spans, List.filter_nil, Shifted, extent, List.map_nil, List.sum_nil, not_keptAt_nil,
      not_false_eq_true, implies_true, and_true, Nat.add_zero, true_iff]
    omega
  | cons x xs ih =>
    intro o O ho
    cases hx : kept x with
    | false =>
      have htail := ih o (O + size x) (by omega)
      simp only [spans, List.filter_cons, hx, Bool.false_eq_true, if_false, htail, Shifted,
        forall_not_keptAt_cons, false_implies, true_and, ← Nat.add_assoc]
    | true =>
      have htail := ih (o + size x) (O + size x) (by omega)
      simp only [spans, List.filter_cons, hx, if_true, List.cons.injEq, Prod.mk.injEq, true_and, htail,
        shifted_cons_iff hab ho hx]

/-- What `Aligned` says, with the items from `index` on. -/
def AlignedFrom (size : α → Nat) (kept : α → Bool) (a b index : Nat) (xs : List α) : Prop :=
  (∀ i, index + i ≤ b → KeptAt size kept xs i) ∨
    ((∀ i, index + i < a → KeptAt size kept xs i) ∧ ∀ i, b ≤ index + i → ¬ KeptAt size kept xs i) ∨
    (index + extent size (xs.filter kept) ≤ a ∧
      ∀ i, a ≤ index + i ∧ index + i ≤ b → ¬ KeptAt size kept xs i)

theorem alignedFrom_cons_kept {a b index : Nat} (hab : a ≤ b) (hx : kept x = true) :
    AlignedFrom size kept a b index (x :: xs) ↔ AlignedFrom size kept a b (index + size x) xs := by
  unfold AlignedFrom
  simp only [forall_not_keptAt_cons, forall_keptAt_cons, hx, true_implies, List.filter_cons_of_pos hx,
    extent_cons, forall_lt_end_iff, forall_not_range_iff hab, ← Nat.add_assoc, reduceCtorEq,
    false_implies, true_and]
  constructor
  · rintro (h | ⟨h₁, -, h₂⟩ | ⟨h₁, -, h₂⟩)
    · exact .inl h
    · exact .inr (.inl ⟨h₁, h₂⟩)
    · exact .inr (.inr ⟨h₁, h₂⟩)
  · rintro (h | ⟨h₁, h₂⟩ | ⟨h₁, h₂⟩)
    · exact .inl h
    · -- the range ends in the item, so that nothing behind it matters
      rcases Nat.lt_or_ge b (index + size x) with hb | hb
      · exact .inl fun i hi => absurd hi (by omega)
      · exact .inr (.inl ⟨h₁, .inr hb, h₂⟩)
    · exact .inr (.inr ⟨h₁, by omega, h₂⟩)

/-- At the first item with positions that is left out, the ranges are shifted. -/
theorem alignedFrom_cons_left {a b index : Nat} (hx : kept x = false) (hpos : 0 < size x) :
    AlignedFrom size kept a b index (x :: xs) ↔ Shifted size kept a b index (index + size x) xs := by
  unfold AlignedFrom Shifted
  simp only [forall_not_keptAt_cons, forall_keptAt_cons, hx, true_implies, reduceCtorEq,
    List.filter_cons_of_neg (show ¬ kept x = true by simp [hx]), false_implies, true_and, ← Nat.add_assoc]
  refine or_congr ?_ (or_congr (and_congr_left fun _ => ?_) Iff.rfl)
  · constructor
    · intro h
      have h0 := h.1 0 hpos
      omega
    · intro h
      exact ⟨fun i _ => by omega, fun i hi => absurd hi (by omega)⟩
  · constructor
    · intro h
      have h0 := h.1 0 hpos
      omega
    · intro h
      exact ⟨fun i _ => by omega, fun i hi => absurd hi (by omega)⟩

theorem spans_filter_alignedFrom_iff {a b : Nat} (hab : a ≤ b) (xs : List α) : ∀ index,
    spans size a b index (xs.filter kept) = (spans size a b index xs).filter (fun p => kept p.1) ↔
      AlignedFrom size kept a b index xs := by
  induction xs with
  | nil =>
    intro index
    simp only [spans, List.filter_nil, AlignedFrom, extent, List.map_nil, List.sum_nil, not_keptAt_nil,
      not_false_eq_true, implies_true, and_true, Nat.add_zero, true_iff]
    rcases Nat.lt_or_ge index a with ha | ha
    · exact .inr (.inr (Nat.le_of_lt ha))
    · exact .inr (.inl fun i hi => by omega)
  | cons x xs ih =>
    intro index
    cases hx : kept x with
    | true =>
      rw [alignedFrom_cons_kept hab hx, ← ih]
      simp [spans, hx]
    | false =>
      rcases Nat.eq_zero_or_pos (size x) with hzero | hpos
      · rw [AlignedFrom]
        simp only [forall_not_keptAt_cons, forall_keptAt_cons, hzero, Nat.not_lt_zero, false_implies,
          implies_true, true_and, Nat.zero_add, List.filter_cons_of_neg (show ¬ kept x = true by simp [hx])]
        -- an item without positions shifts nothing
        rw [← AlignedFrom, ← ih]
        simp [spans, hx, hzero]
      · rw [alignedFrom_cons_left hx hpos, ← spans_filter_shifted_iff hab xs _ _ (by omega)]
        simp [spans, hx]

/-- A range over all items is aligned. -/
theorem aligned_of_extent_le {b : Nat} (h : extent size xs ≤ b) : Aligned size kept 0 b xs := by
  refine .whole (fun i hi => absurd hi (Nat.not_lt_zero i)) fun i hi => ?_
  rw [KeptAt, itemAt_eq_none size (Nat.le_trans h hi)]
  simp

/-- **Leaving items out** before the range is laid over the others or after is the same for the ranges
that are aligned, and for no others. -/
theorem spans_filter_iff {a b : Nat} (hab : a ≤ b) (xs : List α) :
    spans size a b 0 (xs.filter kept) = (spans size a b 0 xs).filter (fun p => kept p.1) ↔
      Aligned size kept a b xs := by
  rw [spans_filter_alignedFrom_iff hab, AlignedFrom]
  simp only [Nat.zero_add]
  constructor
  · rintro (h | ⟨h₁, h₂⟩ | ⟨h₁, h₂⟩)
    · exact .before h
    · exact .whole h₁ h₂
    · exact .apart h₁ fun i hai hib => h₂ i ⟨hai, hib⟩
  · rintro (h | ⟨h₁, h₂⟩ | ⟨h₁, h₂⟩)
    · exact .inl h
    · exact .inr (.inl ⟨h₁, h₂⟩)
    · exact .inr (.inr ⟨h₁, fun i hi => h₂ i hi.1 hi.2⟩)

end Kept

end Items

end Infra
