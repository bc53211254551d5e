/-!
# Loops with fuel

A loop over a list that goes on with a rest of it, which may be any part behind the first element,
is a function of fuel and the list. The length of the list is enough fuel, and more changes nothing.
-/

namespace Infra

universe u v

/-- What a step makes of the rests is what counts, so the fuel does not as long as it is enough. -/
theorem fuel_enough {α : Type u} {β : Type v} {loop : Nat → List α → β}
    (hnil : ∀ n m, loop n [] = loop m [])
    (hcons : ∀ n m c s, (∀ t : List α, t.length ≤ s.length → loop n t = loop m t) →
      loop (n + 1) (c :: s) = loop (m + 1) (c :: s)) :
    ∀ (n m : Nat) (s : List α), s.length ≤ n → s.length ≤ m → loop n s = loop m s := by
  intro n
  induction n with
  | zero =>
    intro m s hn _
    rw [List.length_eq_zero_iff.mp (Nat.le_zero.mp hn)]
    exact hnil 0 m
  | succ n ih =>
    intro m s hn hm
    cases s with
    | nil => exact hnil (n + 1) m
    | cons c s =>
      rw [List.length_cons] at hn hm
      cases m with
      | zero => omega
      | succ m => exact hcons n m c s fun t ht => ih m t (by omega) (by omega)

end Infra
