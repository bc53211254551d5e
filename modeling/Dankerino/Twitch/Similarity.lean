import Dankerino.Infra.CommonSubstring
import Dankerino.Qt.Utf16
import Mathlib.Data.Rat.Defs
import Mathlib.Algebra.Order.Field.Rat

/-!
# The similarity of two messages

`relativeSimilarity` of `IrcMessageHandler`: a table of the lengths of the common substrings that end at two
positions, filled row by row, with the greatest entry so far. The quotient is exact here.
-/

namespace Dankerino

open Infra CommonSubstring

namespace Similarity

/-- The variables of the loops. -/
structure Search where
  tree : List (List Nat)
  z : Nat

namespace Search

/-- `tree[i][j]` -/
def get (s : Search) (i j : Nat) : Nat := ((s.tree[i]?).bind fun row => row[j]?).getD 0

def set (s : Search) (i j value : Nat) : Search :=
  { s with tree := s.tree.modify i fun row => row.set j value }

@[simp] theorem z_set (s : Search) (i j value : Nat) : (s.set i j value).z = s.z := rfl

end Search

section Loops

variable (str1 str2 : Units)

def initial : Search where
  tree := List.replicate str1.length (List.replicate str2.length 0)
  z := 0

/-- The body of the loops. -/
def cell (i j : Nat) (s : Search) : Search :=
  if str1[i]? = str2[j]? then
    let s := if i = 0 ∨ j = 0 then s.set i j 1 else s.set i j (s.get (i - 1) (j - 1) + 1)
    if s.get i j > s.z then { s with z := s.get i j } else s
  else s.set i j 0

/-- The first columns of a row. -/
def columns (i : Nat) : Nat → Search → Search
  | 0, s => s
  | j + 1, s => cell str1 str2 i j (columns i j s)

/-- The first rows. -/
def rows : Nat → Search
  | 0 => initial str1 str2
  | i + 1 => columns str1 str2 i str2.length (rows i)

def relativeSimilarity : ℚ :=
  let z := (rows str1 str2 str1.length).z
  if z = 0 then 0 else z / (max 1 (max str1.length str2.length) : Nat)

end Loops

/-! ## The table -/

section Table

variable {str1 str2 : Units} {i j : Nat} {s : Search}

/-- The rows before a position are filled, and the columns before it in its row. -/
structure Filled (str1 str2 : Units) (i j : Nat) (s : Search) : Prop where
  length_tree : s.tree.length = str1.length
  length_row : ∀ row ∈ s.tree, row.length = str2.length
  get_eq : ∀ i' j', i' < i ∨ i' = i ∧ j' < j → i' < str1.length → j' < str2.length →
    s.get i' j' = commonEnd str1 str2 (i' + 1) (j' + 1)
  le_z : ∀ i' j', i' < i ∨ i' = i ∧ j' < j → i' < str1.length → j' < str2.length →
    commonEnd str1 str2 (i' + 1) (j' + 1) ≤ s.z
  z_eq : s.z = 0 ∨ ∃ i' j', s.z = commonEnd str1 str2 i' j'

theorem get_set_self (h : Filled str1 str2 i j s) (hi : i < str1.length) (hj : j < str2.length) (value : Nat) :
    (s.set i j value).get i j = value := by
  have hi' : i < s.tree.length := h.length_tree ▸ hi
  have hj' : j < s.tree[i].length := (h.length_row _ (List.getElem_mem hi')).symm ▸ hj
  rw [Search.get, Search.set, List.getElem?_modify_eq, List.getElem?_eq_getElem hi', Option.map_eq_map,
    Option.map_some, Option.bind_some, List.getElem?_set_self hj', Option.getD_some]

theorem get_set_ne {i' j' : Nat} (h : i' ≠ i ∨ j' ≠ j) (value : Nat) :
    (s.set i j value).get i' j' = s.get i' j' := by
  rw [Search.get, Search.set, Search.get]
  by_cases hi : i = i'
  · subst hi
    have hj : j ≠ j' := fun heq => h.elim (fun hne => hne rfl) fun hne => hne heq.symm
    rw [List.getElem?_modify_eq]
    cases s.tree[i]? with
    | none => rfl
    | some row =>
      rw [Option.map_eq_map, Option.map_some, Option.bind_some, Option.bind_some, List.getElem?_set_ne hj]
  · rw [List.getElem?_modify_ne _ _ hi]

/-- The entry on the diagonal before is the common end there. -/
theorem diagonal_eq (h : Filled str1 str2 i j s) (hi : i < str1.length) (hj : j < str2.length) :
    (if i = 0 ∨ j = 0 then s.set i j 1 else s.set i j (s.get (i - 1) (j - 1) + 1)) =
      s.set i j (commonEnd str1 str2 i j + 1) := by
  cases i with
  | zero => rw [if_pos (.inl rfl), commonEnd_zero_left]
  | succ i =>
    cases j with
    | zero => rw [if_pos (.inr rfl), commonEnd_zero_right]
    | succ j =>
      have hget := h.get_eq i j (.inl (Nat.lt_succ_self i)) (Nat.lt_of_succ_lt hi) (Nat.lt_of_succ_lt hj)
      rw [if_neg (by omega), Nat.add_sub_cancel, Nat.add_sub_cancel, hget]

/-- The entry is the common end at its position, and the greatest one is kept. -/
theorem cell_eq (h : Filled str1 str2 i j s) (hi : i < str1.length) (hj : j < str2.length) :
    cell str1 str2 i j s =
      { s.set i j (commonEnd str1 str2 (i + 1) (j + 1)) with
        z := max s.z (commonEnd str1 str2 (i + 1) (j + 1)) } := by
  rw [cell, commonEnd_succ hi hj]
  split
  · dsimp only
    rw [diagonal_eq h hi hj, get_set_self h hi hj, Search.z_set]
    split
    · next hgreater => rw [Nat.max_eq_right (Nat.le_of_lt hgreater)]
    · next hnot =>
      rw [Nat.max_eq_left (Nat.not_lt.mp hnot)]
      rfl
  · rw [Nat.max_zero]
    rfl

/-- What a cell keeps. -/
theorem Filled.cell (h : Filled str1 str2 i j s) (hi : i < str1.length) (hj : j < str2.length) :
    Filled str1 str2 i (j + 1) (cell str1 str2 i j s) := by
  rw [cell_eq h hi hj]
  -- a position before the next one is this one or one before it
  have hbefore {i' j' : Nat} (h : i' < i ∨ i' = i ∧ j' < j + 1) :
      (i' = i ∧ j' = j) ∨ ((i' ≠ i ∨ j' ≠ j) ∧ (i' < i ∨ i' = i ∧ j' < j)) := by omega
  constructor
  · exact (List.length_modify _ _ _).trans h.length_tree
  · intro row hrow
    obtain ⟨k, hk, rfl⟩ := List.getElem_of_mem hrow
    have hlength (k : Nat) (hk : k < s.tree.length) : s.tree[k].length = str2.length :=
      h.length_row _ (List.getElem_mem hk)
    simp only [Search.set, List.length_modify] at hk ⊢
    rw [List.getElem_modify]
    split
    · rw [List.length_set, hlength k hk]
    · exact hlength k hk
  · intro i' j' hlt hi' hj'
    rcases hbefore hlt with ⟨rfl, rfl⟩ | ⟨hne, hlt⟩
    · exact get_set_self h hi hj _
    · exact (get_set_ne hne _).trans (h.get_eq i' j' hlt hi' hj')
  · intro i' j' hlt hi' hj'
    rcases hbefore hlt with ⟨rfl, rfl⟩ | ⟨-, hlt⟩
    · exact Nat.le_max_right _ _
    · exact Nat.le_trans (h.le_z i' j' hlt hi' hj') (Nat.le_max_left _ _)
  · rcases Nat.le_total (commonEnd str1 str2 (i + 1) (j + 1)) s.z with hle | hle
    · dsimp only
      rw [Nat.max_eq_left hle]
      exact h.z_eq
    · exact .inr ⟨i + 1, j + 1, Nat.max_eq_right hle⟩

theorem Filled.columns (h : Filled str1 str2 i 0 s) (hi : i < str1.length) (hj : j ≤ str2.length) :
    Filled str1 str2 i j (columns str1 str2 i j s) := by
  induction j with
  | zero => exact h
  | succ j ih => exact (ih (Nat.le_of_succ_le hj)).cell hi hj

/-- A row whose columns are all filled is filled. -/
theorem Filled.nextRow (h : Filled str1 str2 i str2.length s) : Filled str1 str2 (i + 1) 0 s := by
  have hbefore {i' j' : Nat} (hlt : i' < i + 1 ∨ i' = i + 1 ∧ j' < 0) (hj' : j' < str2.length) :
      i' < i ∨ i' = i ∧ j' < str2.length := by omega
  exact ⟨h.length_tree, h.length_row, fun i' j' hlt hi' hj' => h.get_eq i' j' (hbefore hlt hj') hi' hj',
    fun i' j' hlt hi' hj' => h.le_z i' j' (hbefore hlt hj') hi' hj', h.z_eq⟩

theorem filled_initial (str1 str2 : Units) : Filled str1 str2 0 0 (initial str1 str2) where
  length_tree := List.length_replicate
  length_row := fun row hrow => by rw [List.eq_of_mem_replicate hrow, List.length_replicate]
  get_eq := fun i' j' hlt => by omega
  le_z := fun i' j' hlt => by omega
  z_eq := .inl rfl

theorem filled_rows (hi : i ≤ str1.length) : Filled str1 str2 i 0 (rows str1 str2 i) := by
  induction i with
  | zero => exact filled_initial str1 str2
  | succ i ih => exact ((ih (Nat.le_of_succ_le hi)).columns hi (Nat.le_refl _)).nextRow

/-- The search finds the length of the longest common substring. -/
theorem isGreatest_rows (str1 str2 : Units) :
    IsGreatest (lengths str1 str2) (rows str1 str2 str1.length).z := by
  have hfilled : Filled str1 str2 str1.length 0 (rows str1 str2 str1.length) := filled_rows (Nat.le_refl _)
  exact isGreatest_of_ends (fun i j hi hj => hfilled.le_z i j (.inl hi) hi hj) hfilled.z_eq

end Table

/-! ## The quotient -/

section Quotient

variable (str1 str2 : Units)

/-- The test for 0 makes no difference. -/
theorem relativeSimilarity_eq : relativeSimilarity str1 str2 =
    ((rows str1 str2 str1.length).z : ℚ) / (max 1 (max str1.length str2.length) : Nat) := by
  rw [relativeSimilarity]
  split
  · next hz => rw [hz, Nat.cast_zero, zero_div]
  · rfl

theorem relativeSimilarity_comm : relativeSimilarity str1 str2 = relativeSimilarity str2 str1 := by
  have hgreatest := isGreatest_rows str2 str1
  rw [lengths_comm] at hgreatest
  rw [relativeSimilarity_eq, relativeSimilarity_eq, (isGreatest_rows str1 str2).unique hgreatest,
    Nat.max_comm str1.length]

theorem denominator_pos : (0 : ℚ) < (max 1 (max str1.length str2.length) : Nat) :=
  Nat.cast_pos.mpr (Nat.lt_of_lt_of_le Nat.one_pos (Nat.le_max_left _ _))

theorem relativeSimilarity_bounds : 0 ≤ relativeSimilarity str1 str2 ∧ relativeSimilarity str1 str2 ≤ 1 := by
  have hle := le_of_mem_lengths (isGreatest_rows str1 str2).1
  rw [relativeSimilarity_eq]
  constructor
  · exact div_nonneg (Nat.cast_nonneg _) (Nat.cast_nonneg _)
  · exact div_le_one_of_le₀ (Nat.cast_le.mpr (by omega)) (Nat.cast_nonneg _)

theorem relativeSimilarity_eq_one_iff :
    relativeSimilarity str1 str2 = 1 ↔ str1 = str2 ∧ str1 ≠ [] := by
  have hgreatest := isGreatest_rows str1 str2
  rw [relativeSimilarity_eq, div_eq_one_iff_eq (denominator_pos str1 str2).ne', Nat.cast_inj,
    ← isGreatest_eq_max_iff hgreatest, ← List.length_pos_iff]
  have hle := le_of_mem_lengths hgreatest.1
  omega

/--
The similarity is the length of the longest common substring by the length of the longer message. It does not depend
on the order of the messages, is between 0 and 1, and 1 exactly for equal messages that are not empty.
-/
theorem relativeSimilarity_spec :
    (∃ z, IsGreatest {n | ∃ s, s <:+: str1 ∧ s <:+: str2 ∧ s.length = n} z ∧
      relativeSimilarity str1 str2 = (z : ℚ) / (max 1 (max str1.length str2.length) : Nat)) ∧
    relativeSimilarity str1 str2 = relativeSimilarity str2 str1 ∧
    0 ≤ relativeSimilarity str1 str2 ∧ relativeSimilarity str1 str2 ≤ 1 ∧
    (relativeSimilarity str1 str2 = 1 ↔ str1 = str2 ∧ str1 ≠ []) := by
  obtain ⟨hnonneg, hle⟩ := relativeSimilarity_bounds str1 str2
  exact ⟨⟨_, isGreatest_rows str1 str2, relativeSimilarity_eq str1 str2⟩, relativeSimilarity_comm str1 str2,
    hnonneg, hle, relativeSimilarity_eq_one_iff str1 str2⟩

end Quotient

end Similarity

end Dankerino
