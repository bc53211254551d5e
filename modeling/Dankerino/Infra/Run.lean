import Mathlib.Algebra.BigOperators.Group.List.Basic

/-!
# Runs of a transition system

`Run Step s ls s'` says that the steps labelled `ls` lead from `s` to `s'`. What is proved about
one step carries over to runs by the rules here:

* `Run.invariant` and `Run.history`: a property that every step keeps holds at the end of every run, and
  so does one of the labels so far and the state.
* `Run.guarded_iff` and `Run.not_fault_iff`: a run keeps a property exactly if each of its steps meets
  the condition under which one step keeps it.
* `Run.guarded_steps_iff` and `Run.and_congr`: the same for a property of the steps.
* `Run.balance`: a quantity that every step changes by what the label says changes over a run by
  the sum over the labels.
* `exec_refines`: an executable machine whose steps answer like those of an abstract machine
  answers like it over every list of operations, and never gets stuck.
-/

namespace Infra

universe u v w

/-! ## Relations -/

section Relation

variable {σ : Type u} {ℓ : Type v}

/-- The steps labelled by the list lead from the first state to the second. -/
inductive Run (Step : σ → ℓ → σ → Prop) : σ → List ℓ → σ → Prop
  | nil (s : σ) : Run Step s [] s
  | cons {s s' s'' : σ} {l : ℓ} {ls : List ℓ} :
      Step s l s' → Run Step s' ls s'' → Run Step s (l :: ls) s''

variable {Step : σ → ℓ → σ → Prop}

theorem Run.single {s s' : σ} {l : ℓ} (h : Step s l s') : Run Step s [l] s' :=
  .cons h (.nil s')

theorem Run.append {s s' s'' : σ} {ls ms : List ℓ} (h : Run Step s ls s')
    (h' : Run Step s' ms s'') : Run Step s (ls ++ ms) s'' := by
  induction h with
  | nil => exact h'
  | cons hs _ ih => exact .cons hs (ih h')

/-- A property kept by every step is kept by every run. -/
theorem Run.invariant {Inv : σ → Prop}
    (hstep : ∀ s l s', Inv s → Step s l s' → Inv s') {s s' : σ} {ls : List ℓ}
    (hs : Inv s) (h : Run Step s ls s') : Inv s' := by
  induction h with
  | nil => exact hs
  | cons h1 _ ih => exact ih (hstep _ _ _ hs h1)

/-- The same for a property of what happened so far: the labels up to a state and the state. -/
theorem Run.history {Inv : List ℓ → σ → Prop}
    (hstep : ∀ ls s l s', Inv ls s → Step s l s' → Inv (ls ++ [l]) s') {s s' : σ} {ls : List ℓ}
    (hs : Inv [] s) (h : Run Step s ls s') : Inv ls s' := by
  suffices hgo : ∀ before, Inv before s → Inv (before ++ ls) s' from hgo [] hs
  clear hs
  induction h with
  | nil => simp
  | @cons s s₁ s₂ l ls h1 _ ih =>
    intro before hbefore
    have hrest := ih (before ++ [l]) (hstep _ _ _ _ hbefore h1)
    rwa [List.append_assoc] at hrest

/-- A stronger step relation has fewer runs. -/
theorem Run.mono {Step' : σ → ℓ → σ → Prop} (hle : ∀ s l s', Step s l s' → Step' s l s')
    {s s' : σ} {ls : List ℓ} (h : Run Step s ls s') : Run Step' s ls s' := by
  induction h with
  | nil => exact .nil _
  | cons h1 _ ih => exact .cons (hle _ _ _ h1) ih

/--
The runs whose steps all have the property `A` are those whose steps all meet `C`, when meeting `C`
keeps the invariant and gives `A`, and only steps that meet `C` have `A`.
-/
theorem Run.guarded_steps_iff {Inv : σ → Prop} {A : σ → ℓ → σ → Prop} {C : σ → ℓ → Prop}
    (hkeep : ∀ s l s', Inv s → Step s l s' → C s l → Inv s' ∧ A s l s')
    (honly : ∀ s l s', Inv s → Step s l s' → A s l s' → C s l) {s s' : σ} {ls : List ℓ}
    (hs : Inv s) :
    Run (fun s l s' => Step s l s' ∧ A s l s') s ls s' ↔
      Run (fun s l s' => Step s l s' ∧ C s l) s ls s' := by
  induction ls generalizing s with
  | nil =>
    constructor
    · rintro ⟨⟩
      exact .nil _
    · rintro ⟨⟩
      exact .nil _
  | cons l ls ih =>
    constructor
    · rintro (_ | ⟨⟨h1, h1a⟩, hrest⟩)
      have hc := honly _ _ _ hs h1 h1a
      exact .cons ⟨h1, hc⟩ ((ih (hkeep _ _ _ hs h1 hc).1).mp hrest)
    · rintro (_ | ⟨⟨h1, hc⟩, hrest⟩)
      obtain ⟨hnext, h1a⟩ := hkeep _ _ _ hs h1 hc
      exact .cons ⟨h1, h1a⟩ ((ih hnext).mpr hrest)

/--
The runs that stay inside `P` are those whose steps meet `C`, when a step from inside stays inside
exactly if it meets `C`.
-/
theorem Run.guarded_iff {Inv P : σ → Prop} {C : σ → ℓ → Prop}
    (hinv : ∀ s l s', Inv s → Step s l s' → Inv s')
    (hstep : ∀ s l s', Inv s → P s → Step s l s' → (P s' ↔ C s l)) {s s' : σ} {ls : List ℓ}
    (hs : Inv s) (hp : P s) :
    Run (fun s l s' => Step s l s' ∧ P s') s ls s' ↔ Run (fun s l s' => Step s l s' ∧ C s l) s ls s' := by
  have hkeep : ∀ s l s', Inv s ∧ P s → Step s l s' → C s l → (Inv s' ∧ P s') ∧ P s' := by
    rintro s l s' ⟨hs, hp⟩ h1 hc
    have hp' := (hstep s l s' hs hp h1).mpr hc
    exact ⟨⟨hinv s l s' hs h1, hp'⟩, hp'⟩
  have honly : ∀ s l s', Inv s ∧ P s → Step s l s' → P s' → C s l :=
    fun s l s' hs h1 => (hstep s l s' hs.1 hs.2 h1).mp
  exact Run.guarded_steps_iff (A := fun _ _ s' => P s') hkeep honly ⟨hs, hp⟩

/-- Two properties of a step that agree on the reachable ones have the same runs. -/
theorem Run.and_congr {Inv : σ → Prop} {A B : σ → ℓ → σ → Prop}
    (hinv : ∀ s l s', Inv s → Step s l s' → Inv s')
    (hstep : ∀ s l s', Inv s → Step s l s' → (A s l s' ↔ B s l s')) {s s' : σ} {ls : List ℓ}
    (hs : Inv s) :
    Run (fun s l s' => Step s l s' ∧ A s l s') s ls s' ↔ Run (fun s l s' => Step s l s' ∧ B s l s') s ls s' := by
  have hgo {A B : σ → ℓ → σ → Prop} (himp : ∀ s l s', Inv s → Step s l s' → A s l s' → B s l s')
      {s : σ} {ls : List ℓ} (hs : Inv s) (h : Run (fun s l s' => Step s l s' ∧ A s l s') s ls s') :
      Run (fun s l s' => Step s l s' ∧ B s l s') s ls s' := by
    induction h with
    | nil s => exact .nil s
    | cons h1 _ ih => exact .cons ⟨h1.1, himp _ _ _ hs h1.1 h1.2⟩ (ih (hinv _ _ _ hs h1.1))
  constructor
  · exact hgo (fun s l s' hs h1 => (hstep s l s' hs h1).mp) hs
  · exact hgo (fun s l s' hs h1 => (hstep s l s' hs h1).mpr) hs

/-- A fault that never goes away is absent at the end of a run exactly if no step caused it. -/
theorem Run.not_fault_iff {Inv Fault : σ → Prop} {Causes : σ → ℓ → Prop}
    (hinv : ∀ s l s', Inv s → Step s l s' → Inv s')
    (hstep : ∀ s l s', Inv s → Step s l s' → (Fault s' ↔ Fault s ∨ Causes s l)) {s s' : σ}
    {ls : List ℓ} (hs : Inv s) (hf : ¬ Fault s) (h : Run Step s ls s') :
    ¬ Fault s' ↔ Run (fun s l s' => Step s l s' ∧ ¬ Causes s l) s ls s' := by
  constructor
  · intro hend
    have hall : ¬ Fault s ∧ Run (fun s l s' => Step s l s' ∧ ¬ Causes s l) s ls s' := by
      clear hf
      induction h with
      | nil s => exact ⟨hend, .nil s⟩
      | cons h1 _ ih =>
        obtain ⟨hmid, hrest⟩ := ih (hinv _ _ _ hs h1) hend
        rw [hstep _ _ _ hs h1, not_or] at hmid
        exact ⟨hmid.1, .cons ⟨h1, hmid.2⟩ hrest⟩
    exact hall.2
  · intro hgood
    have hkeep : ∀ s l s', Inv s ∧ ¬ Fault s → Step s l s' ∧ ¬ Causes s l → Inv s' ∧ ¬ Fault s' := by
      rintro s l s' ⟨hs, hf⟩ ⟨h1, hc⟩
      refine ⟨hinv _ _ _ hs h1, ?_⟩
      rw [hstep _ _ _ hs h1, not_or]
      exact ⟨hf, hc⟩
    exact (hgood.invariant hkeep ⟨hs, hf⟩).2

/--
Bookkeeping over a run. If every step from a state satisfying the invariant adds `gain l` to the
quantity and takes `loss l` from it, then so does the whole run with the sums.
-/
theorem Run.balance {M : Type w} [AddCommMonoid M] {Inv : σ → Prop} {q : σ → M} {gain loss : ℓ → M}
    (hinv : ∀ s l s', Inv s → Step s l s' → Inv s')
    (hstep : ∀ s l s', Inv s → Step s l s' → q s' + loss l = q s + gain l)
    {s s' : σ} {ls : List ℓ} (hs : Inv s) (h : Run Step s ls s') :
    q s' + (ls.map loss).sum = q s + (ls.map gain).sum := by
  induction h with
  | nil => simp
  | @cons s s₁ s₂ l ls h1 _ ih =>
    have hrest := ih (hinv _ _ _ hs h1)
    have hone := hstep _ _ _ hs h1
    calc q s₂ + ((l :: ls).map loss).sum
        = (q s₂ + (ls.map loss).sum) + loss l := by
          simp only [List.map_cons, List.sum_cons]
          rw [add_comm (loss l), ← add_assoc]
      _ = (q s₁ + (ls.map gain).sum) + loss l := by rw [hrest]
      _ = (q s₁ + loss l) + (ls.map gain).sum := by rw [add_right_comm]
      _ = q s + ((l :: ls).map gain).sum := by
          rw [hone, List.map_cons, List.sum_cons, add_assoc]

/-- A computed run is a run. -/
theorem Run.of_foldlM {apply : σ → ℓ → Option σ}
    (happly : ∀ s l s', apply s l = some s' → Step s l s') {s s' : σ} {ls : List ℓ}
    (h : ls.foldlM apply s = some s') : Run Step s ls s' := by
  induction ls generalizing s with
  | nil =>
    obtain rfl := Option.some.inj h
    exact .nil s
  | cons l ls ih =>
    rw [List.foldlM_cons] at h
    obtain ⟨s₁, h1, h2⟩ := Option.bind_eq_some_iff.mp h
    exact .cons (happly _ _ _ h1) (ih h2)

end Relation

/-! ## Executable machines -/

section Exec

variable {σ : Type u} {ε : Type v} {ο : Type w}

/-- Runs a list of operations and collects the answers. `none` when some step is undefined. -/
def exec (step : σ → ε → Option (σ × ο)) : σ → List ε → Option (σ × List ο)
  | s, [] => some (s, [])
  | s, e :: es =>
    match step s e with
    | none => none
    | some (s', o) =>
      match exec step s' es with
      | none => none
      | some (s'', os) => some (s'', o :: os)

/-- An executed list of operations is a run, labelled with the operations and their answers. -/
theorem Run.of_exec {step : σ → ε → Option (σ × ο)} {es : List ε} : ∀ {s s' : σ} {os : List ο},
    exec step s es = some (s', os) →
      Run (fun s (l : ε × ο) s' => step s l.1 = some (s', l.2)) s (es.zip os) s' := by
  induction es with
  | nil =>
    intro s s' os h
    cases h
    exact .nil s
  | cons e es ih =>
    intro s s' os h
    unfold exec at h
    split at h
    · exact nomatch h
    · next s₁ o h1 =>
      split at h
      · exact nomatch h
      · next h2 =>
        cases h
        exact .cons h1 (ih h2)

/-- The same for a machine whose steps are all defined. -/
def execTotal (step : σ → ε → σ × ο) : σ → List ε → σ × List ο
  | s, [] => (s, [])
  | s, e :: es =>
    let (s', o) := step s e
    let (s'', os) := execTotal step s' es
    (s'', o :: os)

theorem execTotal_append (step : σ → ε → σ × ο) (es fs : List ε) : ∀ s : σ,
    execTotal step s (es ++ fs)
      = ((execTotal step (execTotal step s es).1 fs).1,
          (execTotal step s es).2 ++ (execTotal step (execTotal step s es).1 fs).2) := by
  induction es with
  | nil => intro s; rfl
  | cons e es ih =>
    intro s
    simp only [List.cons_append, execTotal]
    rw [ih]

/--
Refinement. If related states answer every operation alike and stay related, then the executable
machine is defined on every list of operations and gives the abstract machine's answers.
-/
theorem exec_refines {σ' : Type*} {step : σ → ε → Option (σ × ο)} {astep : σ' → ε → σ' × ο}
    {R : σ → σ' → Prop}
    (hstep : ∀ s a e, R s a → ∃ s', step s e = some (s', (astep a e).2) ∧ R s' (astep a e).1)
    (es : List ε) : ∀ s a, R s a →
      ∃ s', exec step s es = some (s', (execTotal astep a es).2) ∧ R s' (execTotal astep a es).1 := by
  induction es with
  | nil => intro s a h; exact ⟨s, rfl, h⟩
  | cons e es ih =>
    intro s a h
    obtain ⟨s₁, h1, hr⟩ := hstep s a e h
    obtain ⟨s₂, h2, hr'⟩ := ih s₁ _ hr
    refine ⟨s₂, ?_, hr'⟩
    simp only [exec, h1, h2, execTotal]

end Exec

end Infra
