import Dankerino.Widgets.ViewPauses

/-!
# How long pauses last

* `Lasting` says that the view is paused while a requested pause lasts, and that the timer runs when
  only finite pauses are left.
* `lasting_iff_regular`: a run has this throughout exactly if all of its steps are regular. The timer
  is started for the finite pause that ends first, and what it drops is all of them.
-/

namespace Dankerino

open Infra

namespace ViewPauses

structure Lasting (s : ViewPauses) : Prop where
  paused : ∀ reason d, s.requested reason = some d → (s.now : WithTop Nat) < d → s.paused
  running : (∀ p ∈ s.pauses_.entries, p.isSome) → s.pauses_.entries = [] ∨ s.pauseTimer_.isSome

/-- Of pauses that are all finite, the one that ends first is what the timer was started for, or is
not over for a millisecond yet. -/
def InTime (pauses : Pauses) (pauseEnd_ : Option Nat) (now : Nat) : Prop :=
  (∀ p ∈ pauses.entries, p.isSome) → ∀ e ∈ pauses.deadlines, (∀ d ∈ pauses.deadlines, e ≤ d) →
    pauseEnd_ = some e ∨ now < e + millisecond

/-- The steps that let pauses last. The timer fires only when all of them are over. -/
def Regular (s : ViewPauses) : Event → Prop
  | .pause reason msecs elapsed =>
    InTime (Function.update s.pauses_ reason (some (newPause (s.pauses_ reason) s.now msecs)))
      s.pauseEnd_ (s.now + elapsed)
  | .unpause reason => InTime (Function.update s.pauses_ reason none) s.pauseEnd_ s.now
  | .timeout => ∀ d ∈ s.pauses_.deadlines, d ≤ s.now
  | .tick _ => True

/-! ## The map -/

theorem Pauses.mem_entries {pauses : Pauses} {p : Option Nat} :
    p ∈ pauses.entries ↔ ∃ reason, pauses reason = some p := by
  simp [Pauses.entries, PauseReason.mem_all]

theorem Pauses.mem_deadlines {pauses : Pauses} {t : Nat} :
    t ∈ pauses.deadlines ↔ ∃ reason, pauses reason = some (some t) := by
  simp [Pauses.deadlines, Pauses.mem_entries]

theorem Pauses.deadlines_ne_nil {pauses : Pauses} (hne : pauses.entries ≠ [])
    (hfinite : ∀ p ∈ pauses.entries, p.isSome) : pauses.deadlines ≠ [] := by
  obtain ⟨p, hp⟩ := List.exists_mem_of_ne_nil _ hne
  obtain ⟨t, rfl⟩ := Option.isSome_iff_exists.mp (hfinite p hp)
  obtain ⟨reason, hreason⟩ := Pauses.mem_entries.mp hp
  exact List.ne_nil_of_mem (Pauses.mem_deadlines.mpr ⟨reason, hreason⟩)

/-- With the comparison the other way round the largest element is the smallest. -/
theorem maxElement_greater {l : List Nat} (h : l ≠ []) :
    ∃ e, maxElement (fun a b => decide (a > b)) l = some e ∧ e ∈ l ∧ ∀ d ∈ l, e ≤ d := by
  have hfold (rest : List Nat) : ∀ first, rest.foldl (fun largest x =>
      if decide (largest > x) then x else largest) first ∈ first :: rest ∧
      ∀ d ∈ first :: rest, rest.foldl (fun largest x =>
        if decide (largest > x) then x else largest) first ≤ d := by
    induction rest with
    | nil => simp
    | cons x rest ih =>
      intro first
      rw [List.foldl_cons]
      split
      · next hlt =>
        have hlt : x < first := by simpa using hlt
        obtain ⟨hmem, hle⟩ := ih x
        refine ⟨List.mem_cons_of_mem _ hmem, List.forall_mem_cons.mpr ⟨?_, hle⟩⟩
        exact (hle x List.mem_cons_self).trans hlt.le
      · next hnot =>
        have hle' : first ≤ x := by simpa using hnot
        obtain ⟨hmem, hle⟩ := ih first
        have hfirst := hle first List.mem_cons_self
        refine ⟨?_, List.forall_mem_cons.mpr ⟨hfirst, List.forall_mem_cons.mpr ⟨hfirst.trans hle', ?_⟩⟩⟩
        · rcases List.mem_cons.mp hmem with hmem | hmem
          · exact List.mem_cons.mpr (.inl hmem)
          · exact List.mem_cons_of_mem _ (List.mem_cons_of_mem _ hmem)
        · exact fun d hd => hle d (List.mem_cons_of_mem _ hd)
  cases l with
  | nil => exact absurd rfl h
  | cons first rest => exact ⟨_, rfl, hfold rest first⟩

/-! ## The timer -/

/-- Rounding towards zero leaves a negative number only from the divisor on. -/
theorem tdiv_nonneg_iff (a : Int) {m : Nat} (hm : 0 < m) : 0 ≤ a.tdiv m ↔ -(m : Int) < a := by
  rcases Int.le_total 0 a with hle | hle
  · rw [Int.tdiv_eq_ediv_of_nonneg hle]
    exact iff_of_true (Int.ediv_nonneg hle (by omega)) (by omega)
  · rw [← Int.neg_neg a, Int.neg_tdiv, Int.tdiv_eq_ediv_of_nonneg (by omega)]
    have hpos : 0 ≤ -a / (m : Int) := Int.ediv_nonneg (by omega) (by omega)
    have hlt : -a / (m : Int) < 1 ↔ -a < 1 * (m : Int) := Int.ediv_lt_iff_lt_mul (by omega)
    omega

/-- A timer runs unless it is started for a moment that is over for a millisecond. -/
theorem startTimer_isSome (pauseEnd now : Nat) :
    (startTimer (((pauseEnd : Int) - now).tdiv millisecond) now).isSome ↔ now < pauseEnd + millisecond := by
  have hdiv := tdiv_nonneg_iff ((pauseEnd : Int) - now) (m := millisecond) (by decide)
  unfold startTimer
  split
  · simp
    omega
  · simp
    omega

/-- What `updatePauses` does to the timer. -/
theorem updatePauses_cases (s : ViewPauses) :
    ((s.pauses_.entries = [] ∨ ¬ ∀ p ∈ s.pauses_.entries, p.isSome) ∧
      s.updatePauses = { s with pauseEnd_ := none, pauseTimer_ := none }) ∨
    (s.pauses_.entries ≠ [] ∧ (∀ p ∈ s.pauses_.entries, p.isSome) ∧
      ∃ e ∈ s.pauses_.deadlines, (∀ d ∈ s.pauses_.deadlines, e ≤ d) ∧
        s.updatePauses = if some e ≠ s.pauseEnd_ then
          { s with
            pauseEnd_ := some e
            pauseTimer_ := startTimer (((e : Int) - s.now).tdiv millisecond) s.now }
          else s) := by
  unfold updatePauses
  by_cases hnil : s.pauses_.entries = []
  · exact .inl ⟨.inl hnil, by rw [if_pos hnil]⟩
  rw [if_neg hnil]
  by_cases hinfinite : s.pauses_.entries.any Option.isNone
  · refine .inl ⟨.inr ?_, by rw [if_pos hinfinite]⟩
    simpa using hinfinite
  · have hfinite : ∀ p ∈ s.pauses_.entries, p.isSome := by
      intro p hp
      cases p with
      | none => exact absurd (List.any_eq_true.mpr ⟨none, hp, rfl⟩) hinfinite
      | some t => rfl
    obtain ⟨e, hmax, he, hle⟩ := maxElement_greater (Pauses.deadlines_ne_nil hnil hfinite)
    refine .inr ⟨hnil, hfinite, e, he, hle, ?_⟩
    rw [if_neg hinfinite, hmax]

theorem updatePauses_frame (s : ViewPauses) :
    ∃ pauseEnd_ pauseTimer_, s.updatePauses = { s with pauseEnd_, pauseTimer_ } := by
  rcases updatePauses_cases s with ⟨-, heq⟩ | ⟨-, -, e, -, -, heq⟩
  · exact ⟨_, _, heq⟩
  · rw [heq]
    split
    · exact ⟨_, _, rfl⟩
    · exact ⟨s.pauseEnd_, s.pauseTimer_, rfl⟩

/-- The state of the timer between events. -/
structure Timed (s : ViewPauses) : Prop where
  stopped : s.pauses_.entries = [] ∨ (¬ ∀ p ∈ s.pauses_.entries, p.isSome) →
    s.pauseEnd_ = none ∧ s.pauseTimer_ = none
  running : s.pauses_.entries ≠ [] → (∀ p ∈ s.pauses_.entries, p.isSome) →
    s.pauseEnd_.isSome ∧ s.pauseTimer_.isSome

theorem Timed.isSome {s : ViewPauses} (h : Timed s) (hend : s.pauseEnd_.isSome) :
    s.pauseTimer_.isSome := by
  by_cases hstopped : s.pauses_.entries = [] ∨ ¬ ∀ p ∈ s.pauses_.entries, p.isSome
  · rw [(h.stopped hstopped).1] at hend
    exact nomatch hend
  · rw [not_or, not_not] at hstopped
    exact (h.running hstopped.1 hstopped.2).2

/-- While finite pauses are left the timer is there. -/
theorem Timed.finite {s : ViewPauses} (h : Timed s) (htimer : s.pauseTimer_.isSome) :
    ∀ p ∈ s.pauses_.entries, p.isSome := by
  by_contra hnot
  rw [(h.stopped (.inr hnot)).2] at htimer
  exact nomatch htimer

theorem timed_updatePauses {s : ViewPauses} (hprev : s.pauseEnd_.isSome → s.pauseTimer_.isSome)
    (hinTime : InTime s.pauses_ s.pauseEnd_ s.now) : Timed s.updatePauses := by
  rcases updatePauses_cases s with ⟨hover, heq⟩ | ⟨hne, hfinite, e, he, hle, heq⟩
  · rw [heq]
    refine ⟨fun _ => ⟨rfl, rfl⟩, fun hne hfinite => ?_⟩
    rcases hover with hnil | hnot
    · exact absurd hnil hne
    · exact absurd hfinite hnot
  · have hrunning : s.updatePauses.pauseEnd_.isSome ∧ s.updatePauses.pauseTimer_.isSome := by
      rw [heq]
      split
      · next hrestart =>
        refine ⟨rfl, (startTimer_isSome e s.now).mpr ?_⟩
        exact (hinTime hfinite e he hle).resolve_left fun hend => hrestart hend.symm
      · next hsame =>
        have hend : s.pauseEnd_.isSome := by
          rw [← not_not.mp hsame]
          rfl
        exact ⟨hend, hprev hend⟩
    obtain ⟨_, _, hframe⟩ := updatePauses_frame s
    refine ⟨fun hstopped => ?_, fun _ _ => hrunning⟩
    rw [hframe] at hstopped
    rcases hstopped with hnil | hnot
    · exact absurd hnil hne
    · exact absurd hfinite hnot

/-- If the timer runs afterwards, it was not started too late. -/
theorem inTime_of_running {s : ViewPauses}
    (hrunning : (∀ p ∈ s.pauses_.entries, p.isSome) →
      s.pauses_.entries = [] ∨ s.updatePauses.pauseTimer_.isSome) :
    InTime s.pauses_ s.pauseEnd_ s.now := by
  intro hfinite e he hle
  rcases updatePauses_cases s with ⟨hover, -⟩ | ⟨hne, -, e', he', hle', heq⟩
  · rcases hover with hnil | hnot
    · simp [Pauses.deadlines, hnil] at he
    · exact absurd hfinite hnot
  · obtain rfl : e = e' := Nat.le_antisymm (hle e' he') (hle' e he)
    by_cases hsame : some e = s.pauseEnd_
    · exact .inl hsame.symm
    · right
      have htimer := (hrunning hfinite).resolve_left hne
      rw [heq, if_pos hsame] at htimer
      exact (startTimer_isSome e s.now).mp htimer

/-! ## What was requested -/

/-- When a pause of the map ends. -/
def endOf : Option Nat → WithTop Nat
  | some t => (t : Nat)
  | none => ⊤

/-- The map and what was requested, for one reason. -/
structure Tracks (old : Option (Option Nat)) (request : Option (WithTop Nat)) (now : Nat) : Prop where
  le : ∀ p, old = some p → ∃ d, request = some d ∧ endOf p ≤ d
  /-- A pause that lasts is in the map. -/
  lasts : ∀ d, request = some d → (now : WithTop Nat) < d → ∃ p, old = some p ∧ endOf p = d

theorem Tracks.later {old : Option (Option Nat)} {request : Option (WithTop Nat)} {now : Nat}
    (h : Tracks old request now) (n : Nat) : Tracks old request (now + n) := by
  refine ⟨h.le, fun d hd hlt => h.lasts d hd (lt_of_le_of_lt ?_ hlt)⟩
  exact WithTop.coe_le_coe.mpr (Nat.le_add_right _ _)

/-- A pause that is moved to a later time point ends when the latest one that was requested does. -/
theorem Tracks.endOf_max {old : Option (Option Nat)} {request : Option (WithTop Nat)}
    {now timePoint : Nat} : Tracks old request now → now ≤ timePoint →
    endOf (match old with
      | none => some timePoint
      | some none => none
      | some (some it) => if it < timePoint then some timePoint else some it)
      = max (request.getD (0 : Nat)) timePoint := by
  intro h hle
  have hnow : (now : WithTop Nat) ≤ timePoint := WithTop.coe_le_coe.mpr hle
  rcases old with _ | _ | it
  · -- what was requested is over
    refine (max_eq_right ?_).symm
    cases hrequest : request with
    | none => exact WithTop.coe_le_coe.mpr (Nat.zero_le _)
    | some d =>
      refine le_trans (not_lt.mp fun hlt => ?_) hnow
      obtain ⟨p, hp, -⟩ := h.lasts d hrequest hlt
      exact nomatch hp
  · obtain ⟨d, hd, hle⟩ := h.le none rfl
    rw [hd, top_le_iff.mp hle]
    exact (max_eq_left le_top).symm
  · obtain ⟨d, hd, hle⟩ := h.le (some it) rfl
    have hover : d ≤ it ∨ d ≤ timePoint := by
      rcases lt_or_ge (now : WithTop Nat) d with hlt | hle'
      · obtain ⟨p, hp, hend⟩ := h.lasts d hd hlt
        cases hp
        exact .inl hend.ge
      · exact .inr (hle'.trans hnow)
    have hle : (it : WithTop Nat) ≤ d := hle
    rw [hd]
    dsimp only [Option.getD_some]
    split
    · next hlt =>
      have hlt : (it : WithTop Nat) ≤ timePoint := WithTop.coe_le_coe.mpr hlt.le
      refine (max_eq_right ?_).symm
      rcases hover with hover | hover
      · exact hover.trans hlt
      · exact hover
    · next hnot =>
      have hge : (timePoint : WithTop Nat) ≤ it := WithTop.coe_le_coe.mpr (not_lt.mp hnot)
      have hend : d = it := by
        rcases hover with hover | hover
        · exact le_antisymm hover hle
        · exact le_antisymm (hover.trans hge) hle
      rw [hend]
      exact (max_eq_left hge).symm

/-- The new pause ends when the latest one that was requested does. -/
theorem Tracks.newPause {old : Option (Option Nat)} {request : Option (WithTop Nat)} {now : Nat}
    (h : Tracks old request now) (msecs : Option Nat) :
    endOf (newPause old now msecs) = max (request.getD (0 : Nat)) (until_ now msecs) := by
  cases msecs with
  | none => simp [ViewPauses.newPause, until_, endOf]
  | some msecs => exact h.endOf_max (Nat.le_add_right now (msecs * millisecond))

/-! ## The steps -/

structure Consistent (s : ViewPauses) : Prop where
  pausable : s.pausable_ = true
  tracks : ∀ reason, Tracks (s.pauses_ reason) (s.requested reason) s.now
  timed : Timed s

theorem consistent_new : Consistent {} where
  pausable := rfl
  tracks _ := ⟨by simp, by simp⟩
  timed := ⟨fun _ => ⟨rfl, rfl⟩, fun h => absurd rfl h⟩

theorem Consistent.lasting {s : ViewPauses} (h : Consistent s) : Lasting s where
  paused := by
    intro reason d hd hlt
    obtain ⟨p, hp, -⟩ := (h.tracks reason).lasts d hd hlt
    have hne : s.pauses_.entries ≠ [] := List.ne_nil_of_mem (Pauses.mem_entries.mpr ⟨reason, hp⟩)
    simp [ViewPauses.paused, h.pausable, hne]
  running := by
    intro hfinite
    by_cases hnil : s.pauses_.entries = []
    · exact .inl hnil
    · exact .inr (h.timed.running hnil hfinite).2

theorem consistent_updatePauses {s : ViewPauses} (hpausable : s.pausable_ = true)
    (htracks : ∀ reason, Tracks (s.pauses_ reason) (s.requested reason) s.now)
    (hprev : s.pauseEnd_.isSome → s.pauseTimer_.isSome) (hinTime : InTime s.pauses_ s.pauseEnd_ s.now) :
    Consistent s.updatePauses := by
  have htimed := timed_updatePauses hprev hinTime
  obtain ⟨_, _, heq⟩ := updatePauses_frame s
  refine ⟨?_, ?_, htimed⟩ <;> rw [heq]
  · exact hpausable
  · exact htracks

theorem Lasting.inTime {s : ViewPauses} (h : Lasting s.updatePauses) :
    InTime s.pauses_ s.pauseEnd_ s.now := by
  have hrunning := h.running
  obtain ⟨_, _, heq⟩ := updatePauses_frame s
  have hpauses : s.updatePauses.pauses_ = s.pauses_ := by rw [heq]
  rw [hpauses] at hrunning
  exact inTime_of_running hrunning

/-- When the timer fires nothing is left. -/
theorem entries_timeout {s : ViewPauses} (hs : Consistent s) {due : Nat} (hdue : s.pauseTimer_ = some due) :
    Pauses.entries (fun reason => (s.pauses_ reason).filter Option.isNone) = [] := by
  rw [List.eq_nil_iff_forall_not_mem]
  intro p hp
  obtain ⟨reason, hreason⟩ := Pauses.mem_entries.mp hp
  obtain ⟨hsome, hnone⟩ := Option.filter_eq_some_iff.mp hreason
  have hfinite := hs.timed.finite (by simp [hdue]) p (Pauses.mem_entries.mpr ⟨reason, hsome⟩)
  cases p with
  | none => exact nomatch hfinite
  | some t => exact nomatch hnone

theorem consistent_of_step {s s' : ViewPauses} {e : Event} (hs : Consistent s) (hstep : Step s e s')
    (hregular : Regular s e) : Consistent s' := by
  cases hstep with
  | pause reason msecs elapsed =>
    refine consistent_updatePauses hs.pausable (fun other => ?_) hs.timed.isSome hregular
    apply Tracks.later
    by_cases hother : other = reason
    · subst hother
      simp only [Function.update_self]
      have hend := (hs.tracks other).newPause msecs
      refine ⟨fun p hp => ⟨_, rfl, ?_⟩, fun d hd _ => ⟨_, rfl, ?_⟩⟩
      · obtain rfl := Option.some.inj hp
        exact hend.le
      · obtain rfl := Option.some.inj hd
        exact hend
    · simpa only [Function.update_of_ne hother] using hs.tracks other
  | unpause reason =>
    refine consistent_updatePauses hs.pausable (fun other => ?_) hs.timed.isSome hregular
    by_cases hother : other = reason
    · subst hother
      simp only [Function.update_self]
      exact ⟨by simp, by simp⟩
    · simpa only [Function.update_of_ne hother] using hs.tracks other
  | @timeout due hdue hnow =>
    have hnil := entries_timeout hs hdue
    have heq : s.timeout = { s with
        pauses_ := fun reason => (s.pauses_ reason).filter Option.isNone
        pauseEnd_ := none
        pauseTimer_ := none } := if_pos hnil
    rw [heq]
    refine ⟨hs.pausable, fun reason => ⟨fun p hp => ?_, fun d hd hlt => ?_⟩,
      ⟨fun _ => ⟨rfl, rfl⟩, fun hne => absurd hnil hne⟩⟩
    · exact (hs.tracks reason).le p (Option.filter_eq_some_iff.mp hp).1
    · -- a pause that lasts would be in the map, and finite
      obtain ⟨p, hp, rfl⟩ := (hs.tracks reason).lasts d hd hlt
      have hmem := Pauses.mem_entries.mpr ⟨reason, hp⟩
      obtain ⟨t, rfl⟩ := Option.isSome_iff_exists.mp (hs.timed.finite (by simp [hdue]) p hmem)
      have hle := hregular t (Pauses.mem_deadlines.mpr ⟨reason, hp⟩)
      exact absurd (WithTop.coe_lt_coe.mp hlt) (not_lt.mpr hle)
  | tick n =>
    exact ⟨hs.pausable, fun reason => (hs.tracks reason).later n, ⟨hs.timed.stopped, hs.timed.running⟩⟩

theorem regular_of_lasting {s s' : ViewPauses} {e : Event} (hs : Consistent s) (hstep : Step s e s')
    (h : Lasting s') : Regular s e := by
  cases hstep with
  | pause reason msecs elapsed => exact h.inTime
  | unpause reason => exact h.inTime
  | @timeout due hdue hnow =>
    intro t ht
    by_contra hlt
    obtain ⟨reason, hreason⟩ := Pauses.mem_deadlines.mp ht
    obtain ⟨d, hd, hle⟩ := (hs.tracks reason).le _ hreason
    have hnil := entries_timeout hs hdue
    have heq : s.timeout = { s with
        pauses_ := fun reason => (s.pauses_ reason).filter Option.isNone
        pauseEnd_ := none
        pauseTimer_ := none } := if_pos hnil
    rw [heq] at h
    have hlt : (s.now : WithTop Nat) < d :=
      lt_of_lt_of_le (WithTop.coe_lt_coe.mpr (not_le.mp hlt)) hle
    have hpaused := h.paused reason d hd hlt
    simp [ViewPauses.paused, hnil] at hpaused
  | tick n => exact trivial

/--
**Pauses.** A run whose states all have it that pauses last and end is one of regular steps: the timer
fires only when every finite pause of the map is over, and where only finite pauses are left, the one
that ends first is not over for a millisecond when the timer is started for it.
-/
theorem lasting_iff_regular {events : List Event} {s : ViewPauses} :
    Run (fun s e s' => Step s e s' ∧ Lasting s') {} events s ↔
      Run (fun s e s' => Step s e s' ∧ Regular s e) {} events s := by
  refine Run.guarded_steps_iff (A := fun _ _ s' => Lasting s') ?_ ?_ consistent_new
  · intro s e s' hs hstep hregular
    have hs' := consistent_of_step hs hstep hregular
    exact ⟨hs', hs'.lasting⟩
  · exact fun s e s' hs hstep h => regular_of_lasting hs hstep h

/--
The timer drops a pause that lasts for another 300 ms. And a pause that is over while an infinite one
lasts is never dropped.
-/
theorem not_lasting :
    (∃ s, Run Step {} [.pause .doubleClick (some 200) 0, .pause .mouse (some 500) 0,
        .tick (200 * millisecond), .timeout] s ∧ ¬ Lasting s) ∧
    ∃ s, Run Step {} [.pause .mouse (some 100) 0, .pause .keyboardModifier none 0,
        .tick (200 * millisecond), .unpause .keyboardModifier] s ∧ ¬ Lasting s := by
  refine ⟨⟨_, .cons (.pause _ _ _ _) (.cons (.pause _ _ _ _) (.cons (.tick _ _)
      (.single (@Step.timeout _ 200000000 (by decide +kernel) (by decide +kernel))))), fun h => ?_⟩,
    _, .cons (.pause _ _ _ _) (.cons (.pause _ _ _ _) (.cons (.tick _ _) (.single (.unpause _ _)))),
    fun h => ?_⟩
  · have hpaused := h.paused .mouse (500 * millisecond : Nat) (by decide +kernel) (by decide +kernel)
    exact absurd hpaused (by decide +kernel)
  · have hrunning := h.running (by decide +kernel)
    exact absurd hrunning (by decide +kernel)

end ViewPauses

end Dankerino
