import Mathlib.Data.List.Infix

/-!
# Doubled symbols

Texts in which a symbol is escaped by writing it twice. `undouble` undoes that: of the symbols that stand
together, every second one is left out. It sees no difference between an escape and two symbols that meet
otherwise. `undouble_eq_iff` says when it makes of a text put together from pieces what was meant.
-/

namespace Infra

universe u

variable {α : Type u} [DecidableEq α] {b m c : α}

/-- Every second one of the symbols that stand together is left out. `paired` says that the next one is. -/
def undouble (b : α) (paired : Bool) : List α → List α
  | [] => []
  | c :: s =>
    if c = b then if paired then undouble b false s else c :: undouble b true s
    else c :: undouble b false s

theorem undouble_of_ne (h : c ≠ b) (paired : Bool) (s : List α) :
    undouble b paired (c :: s) = c :: undouble b false s := if_neg h

theorem undouble_self (s : List α) : undouble b false (b :: s) = b :: undouble b true s := if_pos rfl

theorem undouble_self_paired (s : List α) : undouble b true (b :: s) = undouble b false s := if_pos rfl

/-- An escape is one symbol, in whatever state it is met. -/
theorem undouble_escape (paired : Bool) (s : List α) :
    undouble b paired (b :: b :: s) = b :: undouble b paired s := by
  cases paired with
  | false => rw [undouble_self, undouble_self_paired]
  | true => rw [undouble_self_paired, undouble_self]

/-- There are as many of another symbol as there were. -/
theorem count_undouble (h : m ≠ b) (s : List α) : ∀ paired : Bool,
    (undouble b paired s).count m = s.count m := by
  induction s with
  | nil => exact fun _ => rfl
  | cons c s ih =>
    intro paired
    by_cases hc : c = b
    · subst hc
      rw [List.count_cons_of_ne h.symm]
      cases paired with
      | false => rw [undouble_self, List.count_cons_of_ne h.symm, ih]
      | true => rw [undouble_self_paired, ih]
    · rw [undouble_of_ne hc, List.count_cons, List.count_cons, ih]

/-! ## No two symbols together -/

/-- No two of the symbols stand together, nor is one at the start if it would be left out. -/
def Single (b : α) (paired : Bool) : List α → Prop
  | [] => True
  | c :: s => if c = b then paired = false ∧ Single b true s else Single b false s

theorem single_iff (s : List α) : (Single b false s ↔ ¬ [b, b] <:+: s) ∧
    (Single b true s ↔ s.head? ≠ some b ∧ ¬ [b, b] <:+: s) := by
  induction s with
  | nil => simp [Single]
  | cons c s ih =>
    have hsub : [b, b] <:+: c :: s ↔ (c = b ∧ s.head? = some b) ∨ [b, b] <:+: s := by
      rw [List.infix_cons_iff]
      refine or_congr ?_ Iff.rfl
      cases s with
      | nil => simp
      | cons d s => simp [eq_comm]
    rw [hsub]
    by_cases hc : c = b
    · subst hc
      simp [Single, ih.2]
    · simp [Single, hc, ih.1]

/-! ## Pieces -/

/-- A piece of a text, with what may have gone wrong with it. -/
inductive Piece (α : Type u)
  | copied (c : α)
  /-- An escape, and one that is left out. -/
  | kept
  | dropped
  /-- A symbol that is left out. -/
  | lost (c : α)
  /-- A text that should not be there. -/
  | extra (s : List α)

namespace Piece

/-- What is there before the symbols are undoubled. -/
def made (b : α) : Piece α → List α
  | copied c => [c]
  | kept => [b, b]
  | dropped | lost _ => []
  | extra s => s

/-- What should be there at the end. -/
def meant (b : α) : Piece α → List α
  | copied c | lost c => [c]
  | kept | dropped => [b]
  | extra _ => []

def plain : Piece α → List α
  | copied c => [c]
  | _ => []

def Fine : Piece α → Prop
  | copied _ | kept => True
  | _ => False

/-- A text that should not be there has a mark, which no lost symbol is. -/
def Marked (m : α) : Piece α → Prop
  | lost c => c ≠ m
  | extra s => m ∈ s
  | _ => True

def NotExtra : Piece α → Prop
  | extra _ => False
  | _ => True

end Piece

section Pieces

variable {pieces : List (Piece α)}

/-- Pieces with which nothing is wrong. -/
theorem undouble_of_fine (hfine : ∀ piece ∈ pieces, piece.Fine) : ∀ {paired : Bool},
    Single b paired (pieces.flatMap Piece.plain) →
      undouble b paired (pieces.flatMap (Piece.made b)) = pieces.flatMap (Piece.meant b) := by
  induction pieces with
  | nil => exact fun _ => rfl
  | cons piece pieces ih =>
    intro paired hsingle
    rw [List.forall_mem_cons] at hfine
    obtain ⟨hpiece, hfine⟩ := hfine
    rw [List.flatMap_cons, List.flatMap_cons]
    rw [List.flatMap_cons] at hsingle
    cases piece with
    | copied c =>
      simp only [Piece.plain, List.singleton_append] at hsingle
      simp only [Piece.made, Piece.meant, List.singleton_append]
      by_cases hc : c = b
      · subst hc
        rw [Single, if_pos rfl] at hsingle
        obtain ⟨rfl, hsingle⟩ := hsingle
        rw [undouble_self, ih hfine hsingle]
      · rw [Single, if_neg hc] at hsingle
        rw [undouble_of_ne hc, ih hfine hsingle]
    | kept =>
      simp only [Piece.made, Piece.meant, List.cons_append, List.nil_append, undouble_escape]
      rw [ih hfine hsingle]
    | dropped | lost | extra => exact hpiece.elim

/-- If the marks are as many as are meant, no text is there that should not be. -/
theorem notExtra_of_count (hmb : m ≠ b) (hmarked : ∀ piece ∈ pieces, piece.Marked m) :
    (pieces.flatMap (Piece.meant b)).count m ≤ (pieces.flatMap (Piece.made b)).count m ∧
      ((pieces.flatMap (Piece.made b)).count m = (pieces.flatMap (Piece.meant b)).count m →
        ∀ piece ∈ pieces, piece.NotExtra) := by
  induction pieces with
  | nil => exact ⟨Nat.le_refl _, fun _ => List.forall_mem_nil _⟩
  | cons piece pieces ih =>
    rw [List.forall_mem_cons] at hmarked
    obtain ⟨hpiece, hmarked⟩ := hmarked
    obtain ⟨hle, heq⟩ := ih hmarked
    simp only [List.flatMap_cons, List.count_append, List.forall_mem_cons]
    cases piece with
    | copied c =>
      refine ⟨Nat.add_le_add_left hle _, fun h => ⟨trivial, heq (Nat.add_left_cancel h)⟩⟩
    | kept =>
      have hkept : (Piece.made b .kept).count m = 0 := by simp [Piece.made, hmb.symm]
      have hmeant : (Piece.meant b .kept).count m = 0 := by simp [Piece.meant, hmb.symm]
      rw [hkept, hmeant]
      exact ⟨Nat.add_le_add_left hle _, fun h => ⟨trivial, heq (Nat.add_left_cancel h)⟩⟩
    | dropped =>
      have hmeant : (Piece.meant b .dropped).count m = 0 := by simp [Piece.meant, hmb.symm]
      rw [hmeant]
      exact ⟨Nat.add_le_add_left hle _, fun h => ⟨trivial, heq (Nat.add_left_cancel h)⟩⟩
    | lost c =>
      have hne : c ≠ m := hpiece
      have hmeant : (Piece.meant b (.lost c)).count m = 0 := by simp [Piece.meant, hne]
      rw [hmeant]
      exact ⟨Nat.add_le_add_left hle _, fun h => ⟨trivial, heq (Nat.add_left_cancel h)⟩⟩
    | extra s =>
      have hpos : 0 < (Piece.made b (.extra s)).count m := List.count_pos_iff.mpr hpiece
      have hmeant : (Piece.meant b (.extra s)).count m = 0 := rfl
      rw [hmeant]
      constructor
      · omega
      · intro h
        omega

/-- If the text is as long as what is meant, nothing is left out. -/
theorem fine_of_length (hextra : ∀ piece ∈ pieces, piece.NotExtra) : ∀ paired : Bool,
    (undouble b paired (pieces.flatMap (Piece.made b))).length ≤ (pieces.flatMap (Piece.meant b)).length ∧
      ((undouble b paired (pieces.flatMap (Piece.made b))).length
          = (pieces.flatMap (Piece.meant b)).length →
        (∀ piece ∈ pieces, piece.Fine) ∧ Single b paired (pieces.flatMap Piece.plain)) := by
  induction pieces with
  | nil => exact fun _ => ⟨Nat.le_refl _, fun _ => ⟨List.forall_mem_nil _, trivial⟩⟩
  | cons piece pieces ih =>
    intro paired
    rw [List.forall_mem_cons] at hextra
    obtain ⟨hpiece, hextra⟩ := hextra
    simp only [List.flatMap_cons, List.forall_mem_cons]
    cases piece with
    | copied c =>
      simp only [Piece.made, Piece.meant, Piece.plain, List.singleton_append, List.length_cons]
      by_cases hc : c = b
      · subst hc
        cases paired with
        | false =>
          obtain ⟨hle, heq⟩ := ih hextra true
          rw [undouble_self, List.length_cons, Single, if_pos rfl]
          refine ⟨Nat.succ_le_succ hle, fun h => ?_⟩
          obtain ⟨hfine, hsingle⟩ := heq (Nat.succ.inj h)
          exact ⟨⟨trivial, hfine⟩, rfl, hsingle⟩
        | true =>
          -- the symbol is left out
          obtain ⟨hle, -⟩ := ih hextra false
          rw [undouble_self_paired]
          exact ⟨Nat.le_succ_of_le hle, fun h => absurd (h ▸ hle) (Nat.not_succ_le_self _)⟩
      · obtain ⟨hle, heq⟩ := ih hextra false
        rw [undouble_of_ne hc, List.length_cons, Single, if_neg hc]
        refine ⟨Nat.succ_le_succ hle, fun h => ?_⟩
        obtain ⟨hfine, hsingle⟩ := heq (Nat.succ.inj h)
        exact ⟨⟨trivial, hfine⟩, hsingle⟩
    | kept =>
      obtain ⟨hle, heq⟩ := ih hextra paired
      simp only [Piece.made, Piece.meant, Piece.plain, List.cons_append, List.nil_append, List.length_cons,
        undouble_escape]
      refine ⟨Nat.succ_le_succ hle, fun h => ?_⟩
      obtain ⟨hfine, hsingle⟩ := heq (Nat.succ.inj h)
      exact ⟨⟨trivial, hfine⟩, hsingle⟩
    | dropped | lost =>
      obtain ⟨hle, -⟩ := ih hextra paired
      simp only [Piece.made, Piece.meant, List.singleton_append, List.nil_append, List.length_cons]
      exact ⟨Nat.le_succ_of_le hle, fun h => absurd (h ▸ hle) (Nat.not_succ_le_self _)⟩
    | extra => exact hpiece.elim

/-- **What is made is what is meant** if nothing is wrong with a piece and no two symbols meet. -/
theorem undouble_eq_iff (hmb : m ≠ b) (hmarked : ∀ piece ∈ pieces, piece.Marked m) :
    undouble b false (pieces.flatMap (Piece.made b)) = pieces.flatMap (Piece.meant b) ↔
      (∀ piece ∈ pieces, piece.Fine) ∧ ¬ [b, b] <:+: pieces.flatMap Piece.plain := by
  constructor
  · intro h
    have hcount := count_undouble hmb (pieces.flatMap (Piece.made b)) false
    rw [h] at hcount
    have hextra := (notExtra_of_count hmb hmarked).2 hcount.symm
    obtain ⟨hfine, hsingle⟩ := (fine_of_length hextra false).2 (congrArg List.length h)
    exact ⟨hfine, (single_iff _).1.mp hsingle⟩
  · rintro ⟨hfine, hsub⟩
    exact undouble_of_fine hfine ((single_iff _).1.mpr hsub)

end Pieces

end Infra
