import Dankerino.Infra.PastTime
import Dankerino.Infra.Run

/-!
# Pings of the 7TV event API

The part of `SeventvEventApiClient` that watches the pings of the server, with a clock. The client
looks at the time of the last ping once every interval, so that a server that stops sending is found
out between one and two intervals later.

`closed_when_silent`: the connection is closed only when more than an interval went by since the last
ping, and it is closed when two intervals did.
-/

namespace Dankerino

open Infra

namespace SeventvPings

inductive Action
  | start (now : Nat)
  | ping (now : Nat)
  /-- `close("Didn't receive a ping in time")`. -/
  | close (now : Nat)
deriving DecidableEq

/-- The times that the client counts from. -/
def Action.heard : Action → Option Nat
  | .start now => some now
  | .ping now => some now
  | .close _ => none

end SeventvPings

/-- The fields of `SeventvEventApiClient` that the pings use. -/
structure SeventvPings where
  started_ : Bool
  lastPing_ : Nat
  /-- When the timers that have not fired are due. -/
  timers : List Nat
  now : Nat
  /-- What was done, oldest first. -/
  done : List SeventvPings.Action

namespace SeventvPings

-- `CHECK_PING_INTERVAL`, in the unit of the clock
variable (checkPingInterval : Nat)

def new (now : Nat) : SeventvPings where
  started_ := false
  lastPing_ := now
  timers := []
  now
  done := []

def checkPing (s : SeventvPings) : SeventvPings :=
  if s.now - s.lastPing_ > checkPingInterval then { s with done := s.done ++ [.close s.now] }
  else { s with timers := s.timers ++ [s.now + checkPingInterval] }

def start (s : SeventvPings) : SeventvPings :=
  checkPing checkPingInterval { s with started_ := true, lastPing_ := s.now, done := s.done ++ [.start s.now] }

def stop (s : SeventvPings) : SeventvPings := { s with started_ := false }

def handlePing (s : SeventvPings) : SeventvPings :=
  { s with lastPing_ := s.now, done := s.done ++ [.ping s.now] }

/-- What the timer of the index does when it fires. -/
def timeout (i : Nat) (s : SeventvPings) : SeventvPings :=
  let s := { s with timers := s.timers.eraseIdx i }
  if !s.started_ then s else checkPing checkPingInterval s

inductive Event
  | stop
  | handlePing
  | timeout (i : Nat)
  | tick (n : Nat)

/-- One event after the start. A client is started once. -/
inductive Step : SeventvPings → Event → SeventvPings → Prop
  | stop (s : SeventvPings) : s.started_ → Step s .stop s.stop
  | handlePing (s : SeventvPings) : Step s .handlePing s.handlePing
  | timeout (s : SeventvPings) {i : Nat} (hi : i < s.timers.length) : s.timers[i] ≤ s.now →
    Step s (.timeout i) (timeout checkPingInterval i s)
  | tick (s : SeventvPings) (n : Nat) : Step s (.tick n) { s with now := s.now + n }

/-! ## The deadline -/

/-- The connection is closed only when more than an interval went by since it was heard of. -/
def Justified (done : List Action) : Prop :=
  Always (fun before a => ∀ now, a = .close now →
    ∀ b ∈ before, ∀ t, b.heard = some t → t + checkPingInterval < now) done

structure Watched (s : SeventvPings) : Prop where
  single : s.timers.length ≤ 1
  past : s.lastPing_ ≤ s.now
  last : ∀ a ∈ s.done, ∀ t, a.heard = some t → t ≤ s.lastPing_
  /-- The next look at the time comes at most two intervals after the last ping. -/
  deadline : ∀ due ∈ s.timers, due ≤ s.lastPing_ + 2 * checkPingInterval
  /-- The client looks again until it is stopped or gives up. -/
  alive : (∀ t, .close t ∉ s.done) → s.started_ → s.timers ≠ []
  justified : Justified checkPingInterval s.done

variable {checkPingInterval : Nat}

theorem watched_checkPing {s : SeventvPings} (hnil : s.timers = []) (hpast : s.lastPing_ ≤ s.now)
    (hlast : ∀ a ∈ s.done, ∀ t, a.heard = some t → t ≤ s.lastPing_)
    (hjustified : Justified checkPingInterval s.done) :
    Watched checkPingInterval (checkPing checkPingInterval s) := by
  unfold checkPing
  split
  · next hlate =>
    refine ⟨by simp [hnil], hpast, ?_, by simp [hnil], fun hopen => absurd (hopen s.now) (by simp), ?_⟩
    · simpa [or_imp, forall_and, Action.heard] using hlast
    · refine always_snoc.mpr ⟨hjustified, ?_⟩
      rintro now ⟨⟩ b hb t ht
      have hle := hlast b hb t ht
      omega
  · next hsoon =>
    refine ⟨by simp [hnil], hpast, hlast, ?_, by simp, hjustified⟩
    simp only [hnil, List.nil_append, List.mem_singleton, forall_eq]
    omega

theorem watched_start (now : Nat) :
    Watched checkPingInterval (start checkPingInterval (new now)) := by
  refine watched_checkPing rfl (Nat.le_refl _) ?_ ?_
  · simp [new, Action.heard]
  · exact always_snoc.mpr ⟨always_nil, by simp⟩

/-- The only timer is gone when it fires. -/
theorem Watched.eraseIdx_eq_nil {s : SeventvPings} (hs : Watched checkPingInterval s) {i : Nat}
    (hi : i < s.timers.length) : s.timers.eraseIdx i = [] := by
  rw [← List.length_eq_zero_iff, List.length_eraseIdx_of_lt hi]
  have hsingle := hs.single
  omega

theorem watched_step {s s' : SeventvPings} {e : Event} (hs : Watched checkPingInterval s)
    (h : Step checkPingInterval s e s') : Watched checkPingInterval s' := by
  cases h with
  | stop hstarted =>
    exact ⟨hs.single, hs.past, hs.last, hs.deadline, fun _ hstarted => absurd hstarted (by simp [stop]),
      hs.justified⟩
  | tick n => exact ⟨hs.single, Nat.le_add_right_of_le hs.past, hs.last, hs.deadline, hs.alive, hs.justified⟩
  | handlePing =>
    refine ⟨hs.single, Nat.le_refl _, ?_, ?_, ?_, always_snoc.mpr ⟨hs.justified, by simp⟩⟩
    · simp only [handlePing, List.mem_append, List.mem_singleton]
      rintro a (ha | rfl) t ht
      · exact Nat.le_trans (hs.last a ha t ht) hs.past
      · exact Nat.le_of_eq (Option.some.inj ht).symm
    · intro due hdue
      exact Nat.le_trans (hs.deadline due hdue) (Nat.add_le_add_right hs.past _)
    · intro hopen
      exact hs.alive fun t ht => hopen t (by simp [handlePing, ht])
  | timeout hi hdue =>
    have hnil := hs.eraseIdx_eq_nil hi
    unfold timeout
    dsimp only
    split
    · next hstopped =>
      have hstopped : ¬ s.started_ := by simpa using hstopped
      exact ⟨by simp [hnil], hs.past, hs.last, by simp [hnil], fun _ hstarted => absurd hstarted hstopped,
        hs.justified⟩
    · exact watched_checkPing hnil hs.past hs.last hs.justified

/--
**A server that stops sending is found out.** Whenever the server sends pings and the timers fire, the
connection is closed only if more than an interval went by since the client last heard of the server;
and once two intervals did, a client that is not stopped has closed it, unless its timer is late.
-/
theorem closed_when_silent {now : Nat} {es : List Event} {s : SeventvPings}
    (h : Run (Step checkPingInterval) (start checkPingInterval (new now)) es s) :
    Justified checkPingInterval s.done ∧ (s.started_ → (∀ due ∈ s.timers, s.now ≤ due) →
      s.lastPing_ + 2 * checkPingInterval < s.now → ∃ t, .close t ∈ s.done) := by
  have hstep : ∀ s e s', Watched checkPingInterval s → Step checkPingInterval s e s' →
      Watched checkPingInterval s' := fun _ _ _ => watched_step
  have hs := h.invariant hstep (watched_start now)
  refine ⟨hs.justified, fun hstarted hnone hlate => ?_⟩
  by_contra hopen
  obtain ⟨due, hdue⟩ := List.exists_mem_of_ne_nil _ (hs.alive (not_exists.mp hopen) hstarted)
  have hbound := hs.deadline due hdue
  have hdue := hnone due hdue
  omega

/-- A server that never sends a ping, with an interval of a minute. -/
theorem closed_when_silent_never : ∃ t, Action.close t ∈ [.start 0, .close 120] := by
  have hrun : Run (Step 60) (start 60 (new 0)) [.tick 60, .timeout 0, .tick 60, .timeout 0, .tick 1]
      ⟨true, 0, [], 121, [.start 0, .close 120]⟩ :=
    .cons (.tick _ 60) (.cons (.timeout _ (by decide) (by decide)) (.cons (.tick _ 60)
      (.cons (.timeout _ (by decide) (by decide)) (.single (.tick _ 1)))))
  exact (closed_when_silent hrun).2 rfl (by simp) (by decide)

end SeventvPings

end Dankerino
