import Dankerino.Common.NetworkProtocol
import Mathlib.Algebra.Ring.Nat

/-!
# A network request comes to its end

Each step of a regular run takes away from `work`, so the run ends, and it does not end before the
request is over. With the protocol this says that the callbacks run, and not only that they run in
order.
-/

namespace Dankerino

open Infra

namespace NetworkData

open Network

variable {data : NetworkData}

/-! ## What is left to be done -/

/-- How many steps are left at most. -/
def PoolTask.work (task : PoolTask) : Nat := 2 * task.todo.length + if task.running then 0 else 1

def GuiTask.work : GuiTask → Nat
  | .handleReply _ => 3
  | _ => 1

def Stage.work : Stage → Nat
  | .cached => 30
  | .requested => 20
  | .pending => 10
  | .finished => 0

def Timer.work : Timer → Nat
  | .none => 0
  | .deleting => 1
  | .active => 2

def work (s : Request) : Nat :=
  Stage.work s.stage + Timer.work s.timer + (s.gui.map GuiTask.work).sum + (s.pool.map PoolTask.work).sum +
    if s.callerDestroyed then 0 else 1

variable (data) in
theorem length_plan (outcome : Outcome) : (data.plan outcome).length ≤ 2 :=
  List.length_filter_le _ _

theorem work_queued {task : Callback → GuiTask} (htask : ∀ callback, GuiTask.work (task callback) = 1)
    (callbacks : List Callback) : ((callbacks.map task).map GuiTask.work).sum = callbacks.length := by
  induction callbacks with
  | nil => rfl
  | cons callback callbacks ih =>
    simp only [List.map_cons, List.sum_cons, htask, ih, List.length_cons]
    omega

variable (data) in
theorem work_post {task : Callback → GuiTask} (htask : ∀ callback, GuiTask.work (task callback) = 1)
    (outcome : Outcome) (s : Request) :
    work (data.post task .finally_ (data.post task outcome.handler s)) ≤ work s + 2 := by
  have hlength := length_plan data outcome
  rw [post_plan]
  simp only [work, List.map_append, List.sum_append, work_queued htask]
  omega

theorem work_runConcurrently (outcome : Outcome) (s : Request) :
    work (data.runConcurrently .finally_ (data.runConcurrently outcome.handler s)) ≤ work s + 6 := by
  have hlength := length_plan data outcome
  have hpool : ∀ callbacks : List Callback,
      ((callbacks.map fun callback => (⟨false, [callback], false⟩ : PoolTask)).map PoolTask.work).sum
        = 3 * callbacks.length := by
    intro callbacks
    induction callbacks with
    | nil => rfl
    | cons callback callbacks ih =>
      simp only [List.map_cons, List.sum_cons, ih, PoolTask.work, List.length_cons, List.length_nil]
      simp only [Bool.false_eq_true, if_false]
      omega
  rw [runConcurrently_plan]
  simp only [work, List.map_append, List.sum_append, hpool]
  omega

variable (data) in
theorem work_handleReply (reply : Reply) (s : Request) :
    work (data.handleReply reply s) ≤ work s + if data.executeConcurrently_ then 6 else 2 := by
  unfold handleReply
  by_cases hcaller : data.callerGone s = true
  · rw [if_pos hcaller]
    exact Nat.le_add_right _ _
  · rw [if_neg hcaller]
    cases reply with
    | canceled => exact Nat.le_add_right _ _
    | error =>
      have hpost : work (data.post .callback .finally_ (data.post .callback .onError s)) ≤ work s + 2 :=
        work_post data (fun _ => rfl) .error s
      refine Nat.le_trans hpost ?_
      split <;> omega
    | success =>
      dsimp only
      split
      · exact work_runConcurrently .success s
      · have hcall := data.call_plan .success s
        exact hcall ▸ Nat.le_add_right (work s) 2

variable (data) in
theorem work_replyFinished (reply : Reply) {s : Request} (hstage : s.stage = .pending) :
    work (data.replyFinished reply s) + 3 ≤ work s := by
  have htimer : Timer.work (if s.timer = .active then .deleting else s.timer) ≤ Timer.work s.timer := by
    cases s.timer <;> decide
  unfold replyFinished
  dsimp only
  by_cases hconcurrent : data.executeConcurrently_ = true
  · have hhandled := work_handleReply data reply
      { s with stage := .finished, timer := if s.timer = .active then .deleting else s.timer }
    rw [if_pos hconcurrent] at hhandled ⊢
    simp only [work, hstage, Stage.work] at hhandled ⊢
    omega
  · rw [if_neg hconcurrent]
    simp only [work, hstage, Stage.work, List.map_append, List.sum_append, List.map_cons, List.map_nil,
      List.sum_cons, List.sum_nil, GuiTask.work]
    omega

theorem work_serveCached {s : Request} (hstage : s.stage = .cached) :
    work (data.serveCached s) < work s := by
  have hlength := length_plan data .success
  unfold serveCached
  dsimp only
  by_cases hconcurrent : data.executeConcurrently_ = true
  · rw [if_pos hconcurrent]
    show work (if data.plan .success = [] then _ else { s with
      stage := .finished, pool := s.pool ++ [⟨true, data.plan .success, false⟩] }) < _
    split
    · simp only [work, hstage, Stage.work]
      omega
    · simp only [work, hstage, Stage.work, List.map_append, List.sum_append, List.map_cons, List.map_nil,
        List.sum_cons, List.sum_nil, PoolTask.work, Bool.false_eq_true, if_false]
      omega
  · rw [if_neg hconcurrent]
    have hpost : work (data.post .checked .finally_ (data.post .checked .onSuccess
        { s with stage := .finished })) ≤ work { s with stage := .finished } + 2 :=
      work_post data (fun _ => rfl) .success _
    refine Nat.lt_of_le_of_lt hpost ?_
    simp only [work, hstage, Stage.work]
    omega

theorem work_timeout {s : Request} (htimer : s.timer ≠ .none) (hstage : s.stage = .pending) :
    work (data.timeout s) < work s := by
  have hactive : 1 ≤ Timer.work s.timer := by
    cases htimer' : s.timer with
    | none => exact absurd htimer' htimer
    | active | deleting => decide
  unfold timeout
  dsimp only
  rw [if_pos hstage]
  have hpost : ∀ s : Request,
      work (data.post .callback .finally_ (data.post .callback .onError s)) ≤ work s + 2 :=
    fun s => work_post data (fun _ => rfl) .error s
  have hfinished : ∀ s : Request, s.stage = .pending → work (data.replyFinished .canceled s) + 3 ≤ work s :=
    fun s hstage => work_replyFinished data .canceled hstage
  have hone := hpost (data.replyFinished .canceled { s with timer := .none })
  have htwo := hfinished { s with timer := .none } hstage
  have hthree : work { s with timer := .none } ≤ work s := by
    simp only [work, Timer.work]
    omega
  omega

theorem work_runGui {s s' : Request} (h : Shape data s) (hrun : data.runGui s = some s') :
    work s' < work s := by
  unfold runGui at hrun
  cases h with
  | waiting _ hgui | pooled _ _ _ _ _ _ _ _ hgui =>
    rw [hgui] at hrun
    exact nomatch hrun
  | replied reply hstage hsequential hgui =>
    rw [hgui] at hrun
    obtain rfl := Option.some.inj hrun
    have hhandled := work_handleReply data reply { s with gui := [] }
    rw [hsequential] at hhandled
    simp only [work, hgui, List.map_cons, List.map_nil, List.sum_cons, List.sum_nil, GuiTask.work,
      Bool.false_eq_true, if_false] at hhandled ⊢
    omega
  | posted outcome done todo hstage hplan hgui =>
    rcases hgui with hgui | hgui
    · cases todo with
      | nil =>
        rw [hgui] at hrun
        exact nomatch hrun
      | cons callback todo =>
        rw [hgui] at hrun
        obtain rfl := Option.some.inj hrun
        simp only [work, hgui, List.map_cons, List.sum_cons, GuiTask.work]
        omega
    · rw [hgui] at hrun
      obtain rfl := Option.some.inj hrun
      unfold handleReply
      split <;>
        · simp only [work, hgui, List.map_cons, List.sum_cons, GuiTask.work]
          omega
  | checked outcome done todo hstage hplan hdone hgui =>
    cases todo with
    | nil =>
      rw [hgui] at hrun
      exact nomatch hrun
    | cons callback todo =>
      rw [hgui] at hrun
      simp only [List.map_cons] at hrun
      split_ifs at hrun <;>
        · obtain rfl := Option.some.inj hrun
          simp only [work, hgui, List.map_cons, List.sum_cons, GuiTask.work]
          omega

theorem work_runPool {s s' : Request} (h : Shape data s) {index : Nat}
    (hrun : data.runPool index s = some s') : work s' < work s := by
  unfold runPool at hrun
  cases h with
  | waiting _ _ hpool | replied _ _ _ _ hpool | posted _ _ _ _ _ _ hpool
    | checked _ _ _ _ _ _ _ hpool =>
    rw [hpool] at hrun
    exact nomatch hrun
  | pooled outcome done callback todo isChecked running hstage hplan hgui hpool =>
    cases index with
    | succ index =>
      rw [hpool] at hrun
      exact nomatch hrun
    | zero =>
      rw [hpool] at hrun
      cases running with
      | true =>
        obtain rfl := Option.some.inj hrun
        cases todo <;>
          · simp [work, hpool, PoolTask.work]
            try omega
      | false =>
        simp only [List.getElem?_cons_zero, Bool.false_eq_true, if_false] at hrun
        split_ifs at hrun <;>
          · obtain rfl := Option.some.inj hrun
            simp [work, hpool, PoolTask.work]
            try omega

theorem work_step {s s' : Request} {e : Event} (h : Shape data s) (hstep : data.Step s e s')
    (hregular : Regular data s e) : work s' < work s := by
  unfold Step NetworkData.step at hstep
  cases e with
  | readCache hit =>
    dsimp only at hstep
    split_ifs at hstep with hstage hhit
    · obtain rfl := Option.some.inj hstep
      exact work_serveCached hstage
    · obtain rfl := Option.some.inj hstep
      simp only [work, hstage, Stage.work]
      omega
  | requestUrl =>
    dsimp only at hstep
    split_ifs at hstep with hstage
    all_goals
      obtain rfl := Option.some.inj hstep
      simp only [work, hstage, Stage.work, Timer.work]
      omega
  | replyFinished reply =>
    dsimp only at hstep
    split_ifs at hstep with hstage
    obtain rfl := Option.some.inj hstep
    have := work_replyFinished data reply hstage
    omega
  | timeout =>
    dsimp only at hstep
    split_ifs at hstep with htimer
    obtain rfl := Option.some.inj hstep
    exact work_timeout htimer.1 hregular
  | deleteTimer =>
    dsimp only at hstep
    split_ifs at hstep with htimer
    obtain rfl := Option.some.inj hstep
    simp only [work, htimer, Timer.work]
    omega
  | gui => exact work_runGui h hstep
  | pool index => exact work_runPool h hstep
  | destroyCaller =>
    dsimp only at hstep
    split_ifs at hstep with hdestroyed
    obtain rfl := Option.some.inj hstep
    simp only [work, hdestroyed, if_true, Bool.false_eq_true, if_false]
    omega

/-- While the request is not over, something is going to happen. -/
theorem exists_step {s : Request} (hover : ¬ Over s) :
    ∃ e s', data.Step s e s' ∧ Regular data s e ∧ e ≠ .destroyCaller ∧ e ≠ .deleteTimer := by
  cases hstage : s.stage with
  | cached => exact ⟨.readCache false, _, if_pos hstage, trivial, by decide, by decide⟩
  | requested => exact ⟨.requestUrl, _, if_pos hstage, trivial, by decide, by decide⟩
  | pending => exact ⟨.replyFinished .error, _, if_pos hstage, trivial, by decide, by decide⟩
  | finished =>
    have hgui : s.gui ≠ [] → ∃ s', data.runGui s = some s' := by
      intro hne
      obtain ⟨task, gui, hcons⟩ := List.exists_cons_of_ne_nil hne
      unfold runGui
      rw [hcons]
      cases task with
      | handleReply | callback => exact ⟨_, rfl⟩
      | checked callback =>
        by_cases hcaller : data.callerGone s = true
        · exact ⟨_, if_pos hcaller⟩
        · exact ⟨_, if_neg hcaller⟩
    by_cases hempty : s.gui = []
    · have hpool : s.pool ≠ [] := fun hpool => hover ⟨hstage, hempty, hpool⟩
      have hrun : ∃ s', data.runPool 0 s = some s' := by
        obtain ⟨task, pool, hcons⟩ := List.exists_cons_of_ne_nil hpool
        unfold runPool
        rw [hcons]
        cases htodo : task.todo with
        | nil => simp [htodo]
        | cons callback todo =>
          simp only [List.getElem?_cons_zero, htodo]
          split_ifs <;> exact ⟨_, rfl⟩
      obtain ⟨s', hrun⟩ := hrun
      exact ⟨.pool 0, s', hrun, trivial, by decide, by decide⟩
    · obtain ⟨s', hrun⟩ := hgui hempty
      exact ⟨.gui, s', hrun, trivial, by decide, by decide⟩

/-! ## Runs -/

/-- A regular run from a state of a regular run takes no more steps than there is work. -/
theorem length_le_work {s s' : Request} {events : List Event} (h : Shape data s)
    (hrun : Run (fun s e s' => data.Step s e s' ∧ Regular data s e) s events s') :
    events.length + work s' ≤ work s := by
  induction hrun with
  | nil => exact Nat.le_of_eq (Nat.zero_add _)
  | cons hstep _ ih =>
    have hrest := ih (h.step hstep.1 hstep.2)
    have hone := work_step h hstep.1 hstep.2
    rw [List.length_cons]
    omega

/--
In a regular run the callbacks keep the protocol. The run takes at most `work` steps, and it can go on
until the request is over.
-/
theorem protocol_of_regular (data : NetworkData) {events : List Event} {s : Request}
    (hrun : Run (fun s e s' => data.Step s e s' ∧ Regular data s e) data.load events s) :
    Protocol data s ∧ events.length ≤ work data.load ∧
      (¬ Over s → ∃ e s', data.Step s e s' ∧ Regular data s e ∧ e ≠ .destroyCaller ∧ e ≠ .deleteTimer) := by
  have hshape : Shape data s :=
    hrun.invariant (fun _ _ _ h hstep => h.step hstep.1 hstep.2) shape_load
  have hlength := length_le_work shape_load hrun
  exact ⟨hshape.protocol, by omega, exists_step⟩

/-- A request without a caller, with all callbacks, and with a timeout. -/
def withTimeout (executeConcurrently_ : Bool) : NetworkData :=
  { hasCaller_ := false, cache_ := false, executeConcurrently_, onError_ := true, onSuccess_ := true,
    finally_ := true, hasTimeout_ := true }

/-- Its state when a reply has come in time. -/
def repliedInTime : Request :=
  { stage := .finished, workerAlive := false, log := (withTimeout false).script .success }

theorem protocol_of_regular_reply :
    Protocol (withTimeout false) repliedInTime ∧ 4 ≤ work (withTimeout false).load ∧
      (¬ Over repliedInTime → ∃ e s', (withTimeout false).Step repliedInTime e s' ∧
        Regular (withTimeout false) repliedInTime e ∧ e ≠ .destroyCaller ∧ e ≠ .deleteTimer) := by
  have hrun : Run (fun s e s' => (withTimeout false).Step s e s' ∧ Regular (withTimeout false) s e)
      (withTimeout false).load [.requestUrl, .replyFinished .success, .deleteTimer, .gui]
      repliedInTime :=
    .cons ⟨rfl, trivial⟩ (.cons ⟨rfl, fun hconcurrent => nomatch hconcurrent⟩
      (.cons ⟨rfl, trivial⟩ (.cons ⟨rfl, trivial⟩ (.nil _))))
  exact protocol_of_regular (withTimeout false) hrun

/--
What breaks the protocol: the task of `finally` that the pool starts first, a timeout between the end
of the reply and `handleReply`, and a reply that is canceled by someone else.
-/
theorem protocol_broken :
    (∃ s, Run (withTimeout true).Step (withTimeout true).load
        [.requestUrl, .replyFinished .success, .pool 1] s ∧
      s.log = [.started .finally_] ∧ ¬ Protocol (withTimeout true) s) ∧
    (∃ s, Run (withTimeout false).Step (withTimeout false).load
        [.requestUrl, .replyFinished .success, .timeout, .gui, .gui, .gui] s ∧
      s.log = (withTimeout false).script .success ++ (withTimeout false).script .error ∧
      ¬ Protocol (withTimeout false) s) ∧
    ∃ s, Run (withTimeout false).Step (withTimeout false).load
        [.requestUrl, .replyFinished .canceled, .gui] s ∧
      Over s ∧ s.log = [] ∧ ¬ Protocol (withTimeout false) s := by
  refine ⟨⟨_, .cons rfl (.cons rfl (.cons rfl (.nil _))), rfl, ?_⟩,
    ⟨_, .cons rfl (.cons rfl (.cons rfl (.cons rfl (.cons rfl (.cons rfl (.nil _)))))), rfl, ?_⟩,
    _, .cons rfl (.cons rfl (.cons rfl (.nil _))), ⟨rfl, rfl, rfl⟩, rfl, ?_⟩
  · rintro ⟨⟨outcome, hprefix⟩, -⟩
    cases outcome <;> exact absurd hprefix (by decide)
  · rintro ⟨⟨outcome, hprefix⟩, -⟩
    cases outcome <;> exact absurd hprefix (by decide)
  · rintro ⟨-, hcomplete⟩
    obtain ⟨outcome, hlog⟩ := hcomplete ⟨rfl, rfl, rfl⟩ rfl
    cases outcome <;> exact absurd hlog (by decide)

end NetworkData

end Dankerino
