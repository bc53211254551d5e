/-!
# Computations with a state that may fail

`Yields m s Q` says that the computation `m` does not fail from the state `s` and that its result
and final state have the property `Q`. There is a rule for every way to build a computation, so a
property of a program follows its text.
-/

namespace Infra

universe u v

variable {σ ε α β : Type u}

def Yields (m : StateT σ (Except ε) α) (s : σ) (Q : α → σ → Prop) : Prop :=
  ∃ a s', m s = .ok (a, s') ∧ Q a s'

variable {m : StateT σ (Except ε) α} {f : α → StateT σ (Except ε) β} {s : σ}

theorem Yields.mono {Q Q' : α → σ → Prop} (h : Yields m s Q) (hQ : ∀ a s', Q a s' → Q' a s') :
    Yields m s Q' := by
  obtain ⟨a, s', hm, ha⟩ := h
  exact ⟨a, s', hm, hQ a s' ha⟩

/-- A computation has at most one result. -/
theorem Yields.eq {a : α} {s' : σ} {Q : α → σ → Prop} (h : Yields m s Q)
    (hm : m s = .ok (a, s')) : Q a s' := by
  obtain ⟨a', s'', hm', hQ⟩ := h
  obtain ⟨rfl, rfl⟩ := Prod.mk.inj (Except.ok.inj (hm'.symm.trans hm))
  exact hQ

theorem Yields.bind {Q : β → σ → Prop} (h : Yields m s fun a s' => Yields (f a) s' Q) :
    Yields (m >>= f) s Q := by
  obtain ⟨a, s', hm, b, s'', hf, hQ⟩ := h
  refine ⟨b, s'', ?_, hQ⟩
  show (m s >>= fun p => f p.1 p.2) = _
  rw [hm]
  exact hf

theorem yields_pure {a : α} {Q : α → σ → Prop} (h : Q a s) :
    Yields (pure a : StateT σ (Except ε) α) s Q :=
  ⟨a, s, rfl, h⟩

theorem yields_get {Q : σ → σ → Prop} (h : Q s s) :
    Yields (get : StateT σ (Except ε) σ) s Q :=
  ⟨s, s, rfl, h⟩

theorem yields_ite {c : Prop} [Decidable c] {m m' : StateT σ (Except ε) α} {Q : α → σ → Prop}
    (ht : c → Yields m s Q) (hf : ¬c → Yields m' s Q) : Yields (if c then m else m') s Q := by
  by_cases hc : c
  · rw [if_pos hc]
    exact ht hc
  · rw [if_neg hc]
    exact hf hc

end Infra
