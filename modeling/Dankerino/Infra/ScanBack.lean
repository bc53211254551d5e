import Mathlib.Order.Basic

/-!
# Scanning back from a position

The loop that goes down from before `n` to 0 and stops at the first position that has an answer. What it finds is
the last answer before `n` (`scanBack_eq_some_iff`). Two such loops find the same position when neither has an
answer behind the other's (`scanBack_congr_iff`).
-/

namespace Infra

universe u v

variable {α : Type u} {β : Type v}

def scanBack (answer : Nat → Option α) : Nat → Option (Nat × α)
  | 0 => none
  | n + 1 =>
    match answer n with
    | some a => some (n, a)
    | none => scanBack answer n

theorem scanBack_of_some {answer : Nat → Option α} {n : Nat} {a : α} (h : answer n = some a) :
    scanBack answer (n + 1) = some (n, a) := by
  rw [scanBack, h]

theorem scanBack_of_none {answer : Nat → Option α} {n : Nat} (h : answer n = none) :
    scanBack answer (n + 1) = scanBack answer n := by
  rw [scanBack, h]

/-- What is found is the last answer. -/
theorem scanBack_eq_some_iff {answer : Nat → Option α} {n i : Nat} {a : α} :
    scanBack answer n = some (i, a) ↔
      i < n ∧ answer i = some a ∧ ∀ j, i < j → j < n → answer j = none := by
  induction n with
  | zero => simp [scanBack]
  | succ n ih =>
    cases hn : answer n with
    | some b =>
      rw [scanBack_of_some hn]
      constructor
      · intro h
        obtain ⟨rfl, rfl⟩ := Prod.mk.inj (Option.some.inj h)
        exact ⟨Nat.lt_succ_self n, hn, fun j hlt hle => absurd (Nat.le_of_lt_succ hle) (Nat.not_le.mpr hlt)⟩
      · rintro ⟨hi, ha, hbehind⟩
        -- an answer before the last position would not be the last one
        rcases Nat.lt_or_eq_of_le (Nat.le_of_lt_succ hi) with hlt | rfl
        · rw [hbehind n hlt (Nat.lt_succ_self n)] at hn
          cases hn
        · rw [hn] at ha
          rw [Option.some.inj ha]
    | none =>
      rw [scanBack_of_none hn, ih]
      constructor
      · rintro ⟨hi, ha, hbehind⟩
        refine ⟨Nat.lt_succ_of_lt hi, ha, fun j hlt hle => ?_⟩
        rcases Nat.lt_or_eq_of_le (Nat.le_of_lt_succ hle) with hj | rfl
        · exact hbehind j hlt hj
        · exact hn
      · rintro ⟨hi, ha, hbehind⟩
        have hne : i ≠ n := by
          rintro rfl
          rw [hn] at ha
          cases ha
        exact ⟨Nat.lt_of_le_of_ne (Nat.le_of_lt_succ hi) hne, ha,
          fun j hlt hj => hbehind j hlt (Nat.lt_succ_of_lt hj)⟩

/-- Another loop that would stop here stops here exactly if it does not stop earlier. -/
theorem scanBack_congr_iff {answer : Nat → Option α} {answer' : Nat → Option β} {n i : Nat} {a : α} {b : β}
    (h : scanBack answer n = some (i, a)) (hb : answer' i = some b) :
    scanBack answer' n = some (i, b) ↔ ∀ j, i < j → j < n → answer' j = none := by
  rw [scanBack_eq_some_iff]
  exact ⟨fun h' => h'.2.2, fun h' => ⟨(scanBack_eq_some_iff.mp h).1, hb, h'⟩⟩

end Infra
