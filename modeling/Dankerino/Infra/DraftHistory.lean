import Mathlib.Data.List.Basic

/-!
# A history with a draft

A list of entries that one can go up and down, and behind the last one a draft. What is shown is the entry at
the position, or the draft. Going up and down changes neither the entries nor the draft, so that the draft is
shown again when the end is reached again (`shown_moves`).
-/

namespace Infra

universe u

structure DraftHistory (α : Type u) where
  entries : List α
  position : Nat
  draft : α
  position_le : position ≤ entries.length

namespace DraftHistory

variable {α : Type u}

def empty (draft : α) : DraftHistory α where
  entries := []
  position := 0
  draft
  position_le := Nat.le_refl 0

def shown (h : DraftHistory α) : α := h.entries[h.position]?.getD h.draft

/-- The draft is shown. -/
def AtEnd (h : DraftHistory α) : Prop := h.position = h.entries.length

def edit (h : DraftHistory α) (draft : α) : DraftHistory α := { h with draft }

/-- What is entered becomes the last entry, if it is kept. The draft is shown. -/
def record (h : DraftHistory α) (entry : Option α) (draft : α) : DraftHistory α where
  entries := h.entries ++ entry.toList
  position := (h.entries ++ entry.toList).length
  draft
  position_le := Nat.le_refl _

def previous (h : DraftHistory α) : DraftHistory α :=
  { h with
    position := h.position - 1
    position_le := Nat.le_trans (Nat.sub_le _ _) h.position_le }

def next (h : DraftHistory α) : DraftHistory α :=
  { h with
    position := min (h.position + 1) h.entries.length
    position_le := Nat.min_le_right _ _ }

theorem shown_of_getElem? {h : DraftHistory α} {entry : α} (hentry : h.entries[h.position]? = some entry) :
    h.shown = entry := by
  rw [shown, hentry]
  rfl

theorem shown_of_atEnd {h : DraftHistory α} (hend : h.AtEnd) : h.shown = h.draft := by
  rw [shown, List.getElem?_eq_none (Nat.le_of_eq hend.symm)]
  rfl

/-- At the start there is nothing previous. -/
theorem previous_of_zero {h : DraftHistory α} (hzero : h.position = 0) : h.previous = h := by
  have hposition : h.position - 1 = h.position := by rw [hzero]
  simp only [previous, hposition]

/-- At the end there is nothing next. -/
theorem next_of_atEnd {h : DraftHistory α} (hend : h.AtEnd) : h.next = h := by
  have hposition : min (h.position + 1) h.entries.length = h.position := by
    rw [show h.position = h.entries.length from hend]
    exact Nat.min_eq_right (Nat.le_succ _)
  simp only [next, hposition]

/-- Some steps up and down. -/
inductive Moves : DraftHistory α → DraftHistory α → Prop
  | refl (h : DraftHistory α) : Moves h h
  | previous {h h' : DraftHistory α} : Moves h.previous h' → Moves h h'
  | next {h h' : DraftHistory α} : Moves h.next h' → Moves h h'

theorem Moves.draft_eq {h h' : DraftHistory α} (hmoves : Moves h h') : h'.draft = h.draft := by
  induction hmoves with
  | refl => rfl
  | previous _ ih => exact ih
  | next _ ih => exact ih

/-- At the end the draft is shown, whatever way was taken. -/
theorem shown_moves {h h' : DraftHistory α} (hmoves : Moves h h') (hend : h.AtEnd) (hend' : h'.AtEnd) :
    h'.shown = h.shown := by
  rw [shown_of_atEnd hend', shown_of_atEnd hend, hmoves.draft_eq]

end DraftHistory

end Infra
