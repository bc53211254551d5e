import Mathlib.Computability.StateTransition

/-!
# Loops that may go on for ever

A loop is a function from a state to the next one. It ends exactly if it never gets stuck
(`eval_dom_iff`): a stuck state is followed by a stuck state, and from every other state something that
is well-founded gets less after some steps. Where every step makes it less there are no stuck states
(`eval_dom_of_less`).
-/

namespace Infra

open StateTransition

universe u v

variable {σ : Type u} {step : σ → Option σ} {Stuck : σ → Prop}

/-- What a step keeps holds of everything that is reached. -/
theorem reaches_invariant {Inv : σ → Prop} (hstep : ∀ s s', Inv s → s' ∈ step s → Inv s') {s s' : σ}
    (h : Reaches step s s') (hs : Inv s) : Inv s' := by
  induction h with
  | refl => exact hs
  | tail _ hlast ih => exact hstep _ _ ih hlast

theorem not_dom_of_stuck (hstuck : ∀ s, Stuck s → ∃ s' ∈ step s, Stuck s') {s : σ} (hs : Stuck s) :
    ¬ (eval step s).Dom := by
  intro hdom
  obtain ⟨b, hb⟩ := Part.dom_iff_mem.mp hdom
  obtain ⟨hreaches, hnone⟩ := mem_eval.mp hb
  have hlast : Stuck b := by
    refine reaches_invariant (fun s s' hs hs' => ?_) hreaches hs
    obtain ⟨s'', hs'', hstuck''⟩ := hstuck s hs
    rwa [Option.mem_unique hs' hs'']
  obtain ⟨b', hb', -⟩ := hstuck b hlast
  exact nomatch hnone.symm.trans hb'

/-- **Termination.** A loop ends exactly if it reaches no stuck state. -/
theorem eval_dom_iff {β : Type v} [WellFoundedRelation β] (μ : σ → β)
    (hstuck : ∀ s, Stuck s → ∃ s' ∈ step s, Stuck s')
    (hprogress : ∀ s, ¬ Stuck s → ∃ s', Reaches step s s' ∧
      ∀ s'' ∈ step s', WellFoundedRelation.rel (μ s'') (μ s)) (s : σ) :
    (eval step s).Dom ↔ ∀ s', Reaches step s s' → ¬ Stuck s' := by
  constructor
  · intro hdom s' hs' hstuck'
    rw [reaches_eval hs'] at hdom
    exact not_dom_of_stuck hstuck hstuck' hdom
  · intro hnever
    induction s using (InvImage.wf μ WellFoundedRelation.wf).induction with
    | _ s ih =>
      obtain ⟨s', hs', hless⟩ := hprogress s (hnever s .refl)
      cases hnext : step s' with
      | none => exact Part.dom_iff_mem.mpr ⟨s', mem_eval.mpr ⟨hs', hnext⟩⟩
      | some s'' =>
        have hs'' : Reaches step s s'' := hs'.tail hnext
        rw [reaches_eval hs'']
        exact ih s'' (hless s'' hnext) fun t ht => hnever t (hs''.trans ht)

/-- A loop whose every step makes something well-founded less ends. -/
theorem eval_dom_of_less {β : Type v} [WellFoundedRelation β] {Inv : σ → Prop} (μ : σ → β)
    (hstep : ∀ s s', Inv s → s' ∈ step s → Inv s' ∧ WellFoundedRelation.rel (μ s') (μ s)) {s : σ}
    (hs : Inv s) : (eval step s).Dom := by
  induction s using (InvImage.wf μ WellFoundedRelation.wf).induction with
  | _ s ih =>
    cases hnext : step s with
    | none => exact Part.dom_iff_mem.mpr ⟨s, mem_eval.mpr ⟨.refl, hnext⟩⟩
    | some s' =>
      obtain ⟨hinv, hless⟩ := hstep s s' hs hnext
      rw [reaches_eval (.single hnext)]
      exact ih s' hless hinv

end Infra
