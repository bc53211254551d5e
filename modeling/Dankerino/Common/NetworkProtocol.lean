import Dankerino.Common.NetworkPrivate

/-!
# The callbacks of a network request

* `script` says which callbacks a request should run and in which order: the handler of its outcome,
  and `finally` when that is completed. `Protocol` says that the log is the start of a script, and all
  of it when the request is over, unless the caller is gone.
* `Regular` leaves out what breaks the protocol: a reply that is canceled other than by the timeout, a
  concurrent success with both callbacks, which become two tasks of the pool, and a timeout that
  comes when the reply is finished.
* `Shape` lists the states of a regular run. Each of them keeps the protocol.
-/

namespace Dankerino

open Infra

namespace NetworkData

open Network

inductive Outcome where
  | success
  | error
deriving DecidableEq

def Outcome.handler : Outcome → Callback
  | success => .onSuccess
  | error => .onError

variable (data : NetworkData)

/-- The callbacks for an outcome, as far as they are set. -/
def plan (outcome : Outcome) : List Callback := [outcome.handler, .finally_].filter data.isSet

/-- The handler runs to its end, and then `finally`. -/
def script (outcome : Outcome) : List Entry := (data.plan outcome).flatMap Callback.entries

/-- What the callers of a request rely on. -/
structure Protocol (s : Request) : Prop where
  /-- At most one handler runs, and at most one `finally` after it. -/
  ordered : ∃ outcome, s.log <+: data.script outcome
  /-- One handler and one `finally` have run when the request is over, if the caller is there. -/
  complete : Over s → data.callerGone s = false → ∃ outcome, s.log = data.script outcome

def Regular (s : Request) : Event → Prop
  | .replyFinished .canceled => data.callerGone s = true
  | .replyFinished .success =>
    data.executeConcurrently_ = true → data.onSuccess_ = true → data.finally_ = true →
      data.callerGone s = true
  | .timeout => s.stage = .pending
  | _ => True

/-! ## The states of a regular run -/

/-- The log when the callbacks in `done` are completed. -/
def logOf (done : List Callback) : List Entry := done.flatMap Callback.entries

inductive Shape (s : Request) : Prop
  /-- The reply is not there. -/
  | waiting (hstage : s.stage ≠ .finished) (hgui : s.gui = []) (hpool : s.pool = []) (hlog : s.log = [])
  /-- `handleReply` is queued. -/
  | replied (reply : Reply) (hstage : s.stage = .finished) (hsequential : data.executeConcurrently_ = false)
      (hgui : s.gui = [.handleReply reply]) (hpool : s.pool = []) (hlog : s.log = [])
      (hcanceled : reply = .canceled → data.callerGone s = true)
  /-- The callbacks are queued, after an error or a timeout. -/
  | posted (outcome : Outcome) (done todo : List Callback) (hstage : s.stage = .finished)
      (hplan : data.plan outcome = done ++ todo)
      (hgui : s.gui = todo.map .callback ∨ s.gui = .handleReply .canceled :: todo.map .callback)
      (hpool : s.pool = []) (hlog : s.log = logOf done)
  /-- The callbacks are queued, and ask for the caller. -/
  | checked (outcome : Outcome) (done todo : List Callback) (hstage : s.stage = .finished)
      (hplan : data.callerGone s = false → data.plan outcome = done ++ todo)
      (hdone : done <+: data.plan outcome) (hgui : s.gui = todo.map .checked) (hpool : s.pool = [])
      (hlog : s.log = logOf done)
  /-- The callbacks are left to a task of the pool. -/
  | pooled (outcome : Outcome) (done : List Callback) (callback : Callback) (todo : List Callback)
      (isChecked running : Bool) (hstage : s.stage = .finished)
      (hplan : data.plan outcome = done ++ callback :: todo) (hgui : s.gui = [])
      (hpool : s.pool = [⟨isChecked, callback :: todo, running⟩])
      (hlog : s.log = logOf done ++ if running then [.started callback] else [])

variable {data}

theorem shape_load : Shape data data.load := by
  refine .waiting ?_ rfl rfl rfl
  unfold load
  cases data.cache_ <;> decide

theorem logOf_append (done todo : List Callback) : logOf (done ++ todo) = logOf done ++ logOf todo :=
  List.flatMap_append

theorem script_eq {outcome : Outcome} {done todo : List Callback}
    (h : data.plan outcome = done ++ todo) : data.script outcome = logOf done ++ logOf todo := by
  unfold script
  rw [h]
  exact logOf_append done todo

theorem logOf_prefix {outcome : Outcome} {done : List Callback} (h : done <+: data.plan outcome) :
    logOf done <+: data.script outcome := by
  obtain ⟨todo, htodo⟩ := h
  rw [script_eq htodo.symm]
  exact List.prefix_append _ _

theorem Shape.protocol {s : Request} (h : Shape data s) : Protocol data s := by
  cases h with
  | waiting hstage hgui hpool hlog =>
    refine ⟨⟨.success, ?_⟩, fun hover => absurd hover.1 hstage⟩
    rw [hlog]
    exact List.nil_prefix
  | replied reply hstage hsequential hgui hpool hlog hcanceled =>
    refine ⟨⟨.success, ?_⟩, fun hover => ?_⟩
    · rw [hlog]
      exact List.nil_prefix
    · have hempty := hover.2.1
      rw [hgui] at hempty
      exact nomatch hempty
  | posted outcome done todo hstage hplan hgui hpool hlog =>
    refine ⟨⟨outcome, ?_⟩, fun hover _ => ⟨outcome, ?_⟩⟩
    · rw [hlog]
      exact logOf_prefix ⟨todo, hplan.symm⟩
    · have htodo : todo = [] := by
        have hempty := hover.2.1
        rcases hgui with hgui | hgui
        · rw [hgui] at hempty
          exact List.map_eq_nil_iff.mp hempty
        · rw [hgui] at hempty
          exact nomatch hempty
      rw [hlog, script_eq hplan, htodo]
      simp [logOf]
  | checked outcome done todo hstage hplan hdone hgui hpool hlog =>
    refine ⟨⟨outcome, ?_⟩, fun hover hcaller => ⟨outcome, ?_⟩⟩
    · rw [hlog]
      exact logOf_prefix hdone
    · have hempty := hover.2.1
      rw [hgui] at hempty
      rw [hlog, script_eq (hplan hcaller), List.map_eq_nil_iff.mp hempty]
      simp [logOf]
  | pooled outcome done callback todo isChecked running hstage hplan hgui hpool hlog =>
    refine ⟨⟨outcome, ?_⟩, fun hover => ?_⟩
    · rw [hlog, script_eq hplan]
      refine (List.prefix_append_right_inj _).mpr ?_
      cases running with
      | false => exact List.nil_prefix
      | true => exact ⟨.completed callback :: logOf todo, rfl⟩
    · have hempty := hover.2.2
      rw [hpool] at hempty
      exact nomatch hempty

/-! ## What is queued -/

variable (data)

theorem post_plan (task : Callback → GuiTask) (outcome : Outcome) (s : Request) :
    data.post task .finally_ (data.post task outcome.handler s)
      = { s with gui := s.gui ++ (data.plan outcome).map task } := by
  unfold post plan
  by_cases hhandler : data.isSet outcome.handler = true <;>
    by_cases hfinally : data.isSet .finally_ = true <;> simp [hhandler, hfinally]

theorem call_plan (outcome : Outcome) (s : Request) :
    data.call .finally_ (data.call outcome.handler s)
      = { s with log := s.log ++ logOf (data.plan outcome) } := by
  unfold call plan
  by_cases hhandler : data.isSet outcome.handler = true <;>
    by_cases hfinally : data.isSet .finally_ = true <;> simp [hhandler, hfinally, logOf]

theorem runConcurrently_plan (outcome : Outcome) (s : Request) :
    data.runConcurrently .finally_ (data.runConcurrently outcome.handler s)
      = { s with pool := s.pool ++ (data.plan outcome).map fun callback => ⟨false, [callback], false⟩ } := by
  unfold runConcurrently plan
  by_cases hhandler : data.isSet outcome.handler = true <;>
    by_cases hfinally : data.isSet .finally_ = true <;> simp [hhandler, hfinally]

variable {data}

/-- Nothing is done for a caller that is gone. -/
theorem Shape.gone {s : Request} (hstage : s.stage = .finished) (hgui : s.gui = [])
    (hpool : s.pool = []) (hlog : s.log = []) (hcaller : data.callerGone s = true) : Shape data s := by
  refine .checked .success [] [] hstage ?_ List.nil_prefix hgui hpool hlog
  intro hnot
  rw [hcaller] at hnot
  exact nomatch hnot

/-- Before the reply, nothing is queued and nothing has run. -/
theorem Shape.of_unfinished {s : Request} (h : Shape data s) (hstage : s.stage ≠ .finished) :
    s.gui = [] ∧ s.pool = [] ∧ s.log = [] := by
  cases h with
  | waiting _ hgui hpool hlog => exact ⟨hgui, hpool, hlog⟩
  | replied _ hfinished | posted _ _ _ hfinished | checked _ _ _ hfinished
    | pooled _ _ _ _ _ _ hfinished => exact absurd hfinished hstage

/-- The timer and the worker play no part. -/
theorem Shape.frame {s : Request} (h : Shape data s) (timer : Timer) (workerAlive : Bool) :
    Shape data { s with timer, workerAlive } := by
  cases h with
  | waiting hstage hgui hpool hlog => exact .waiting hstage hgui hpool hlog
  | replied reply hstage hsequential hgui hpool hlog hcanceled =>
    exact .replied reply hstage hsequential hgui hpool hlog hcanceled
  | posted outcome done todo hstage hplan hgui hpool hlog =>
    exact .posted outcome done todo hstage hplan hgui hpool hlog
  | checked outcome done todo hstage hplan hdone hgui hpool hlog =>
    exact .checked outcome done todo hstage hplan hdone hgui hpool hlog
  | pooled outcome done callback todo isChecked running hstage hplan hgui hpool hlog =>
    exact .pooled outcome done callback todo isChecked running hstage hplan hgui hpool hlog

/-! ## Steps before the callbacks -/

theorem Shape.serveCached {s : Request} (h : Shape data s) (hstage : s.stage = .cached) :
    Shape data (data.serveCached s) := by
  obtain ⟨hgui, hpool, hlog⟩ := h.of_unfinished (by rw [hstage]; decide)
  unfold NetworkData.serveCached
  dsimp only
  by_cases hconcurrent : data.executeConcurrently_ = true
  · rw [if_pos hconcurrent]
    show Shape data (if data.plan .success = [] then _ else _)
    cases hplan : data.plan .success with
    | nil => exact .posted .success [] [] rfl hplan (.inl hgui) hpool hlog
    | cons callback todo =>
      refine .pooled .success [] callback todo true false rfl hplan hgui ?_ ?_
      · show s.pool ++ [⟨true, data.plan .success, false⟩] = _
        rw [hplan, hpool]
        rfl
      · exact hlog
  · rw [if_neg hconcurrent]
    have hpost := data.post_plan .checked .success { s with stage := .finished }
    refine hpost ▸ .checked .success [] (data.plan .success) rfl (fun _ => rfl) List.nil_prefix ?_ hpool hlog
    show s.gui ++ _ = _
    rw [hgui, List.nil_append]

/-- What `handleReply` does on the worker thread, and for a success or an error on the GUI thread. -/
theorem Shape.handleReply {s : Request} (hstage : s.stage = .finished) (hgui : s.gui = [])
    (hpool : s.pool = []) (hlog : s.log = []) {reply : Reply}
    (hregular : Regular data s (.replyFinished reply)) : Shape data (data.handleReply reply s) := by
  unfold NetworkData.handleReply
  by_cases hcaller : data.callerGone s = true
  · rw [if_pos hcaller]
    exact .gone hstage hgui hpool hlog hcaller
  · rw [if_neg hcaller]
    cases reply with
    | canceled => exact absurd hregular hcaller
    | error =>
      have hpost := data.post_plan .callback .error s
      refine hpost ▸ .posted .error [] (data.plan .error) hstage rfl (.inl ?_) hpool hlog
      show s.gui ++ _ = _
      rw [hgui, List.nil_append]
    | success =>
      dsimp only
      by_cases hconcurrent : data.executeConcurrently_ = true
      · rw [if_pos hconcurrent]
        refine (data.runConcurrently_plan .success s) ▸ ?_
        have hone : ¬ (data.onSuccess_ = true ∧ data.finally_ = true) :=
          fun hboth => hcaller (hregular hconcurrent hboth.1 hboth.2)
        rcases hplan : data.plan .success with - | ⟨callback, - | ⟨callback', todo⟩⟩
        · refine .posted .success [] [] hstage hplan (.inl hgui) ?_ hlog
          show s.pool ++ [] = []
          rw [hpool, List.nil_append]
        · refine .pooled .success [] callback [] false false hstage hplan hgui ?_ hlog
          show s.pool ++ [_] = _
          rw [hpool, List.nil_append]
        · refine absurd ?_ hone
          unfold plan at hplan
          by_cases hsuccess : data.onSuccess_ = true <;> by_cases hfinally : data.finally_ = true <;>
            simp_all [Outcome.handler, isSet]
      · rw [if_neg hconcurrent]
        refine (data.call_plan .success s) ▸ ?_
        refine .posted .success (data.plan .success) [] hstage (List.append_nil _).symm (.inl hgui) hpool ?_
        show s.log ++ _ = _
        rw [hlog, List.nil_append]

theorem Shape.replyFinished {s : Request} (h : Shape data s) (hstage : s.stage = .pending)
    {reply : Reply} (hregular : Regular data s (.replyFinished reply)) :
    Shape data (data.replyFinished reply s) := by
  obtain ⟨hgui, hpool, hlog⟩ := h.of_unfinished (by rw [hstage]; decide)
  unfold NetworkData.replyFinished
  dsimp only
  by_cases hconcurrent : data.executeConcurrently_ = true
  · rw [if_pos hconcurrent]
    have hhandled : Shape data (data.handleReply reply
        { s with stage := .finished, timer := if s.timer = .active then .deleting else s.timer }) := by
      refine Shape.handleReply ?_ ?_ ?_ ?_ ?_
      · rfl
      · exact hgui
      · exact hpool
      · exact hlog
      · cases reply <;> exact hregular
    exact hhandled.frame _ false
  · rw [if_neg hconcurrent]
    refine .replied reply rfl (eq_false_of_ne_true hconcurrent) ?_ hpool hlog ?_
    · show s.gui ++ _ = _
      rw [hgui, List.nil_append]
    · rintro rfl
      exact hregular

/-- A timeout while the reply is pending. -/
theorem Shape.timeout {s : Request} (h : Shape data s) (hstage : s.stage = .pending) :
    Shape data (data.timeout s) := by
  obtain ⟨hgui, hpool, hlog⟩ := h.of_unfinished (by rw [hstage]; decide)
  unfold NetworkData.timeout
  dsimp only
  rw [if_pos hstage]
  refine (data.post_plan .callback .error _) ▸ ?_
  -- an aborted reply is canceled, which `handleReply` passes over
  have habort : ∀ s : Request, data.handleReply .canceled s = s := by
    intro s
    unfold NetworkData.handleReply
    split <;> rfl
  unfold NetworkData.replyFinished
  dsimp only
  by_cases hconcurrent : data.executeConcurrently_ = true
  · rw [if_pos hconcurrent, habort]
    refine .posted .error [] (data.plan .error) rfl rfl (.inl ?_) hpool hlog
    show s.gui ++ _ = _
    rw [hgui, List.nil_append]
  · rw [if_neg hconcurrent]
    refine .posted .error [] (data.plan .error) rfl rfl (.inr ?_) hpool hlog
    show (s.gui ++ _) ++ _ = _
    rw [hgui]
    rfl

/-! ## Steps of the callbacks -/

theorem logOf_append_entries (done : List Callback) (callback : Callback) :
    logOf done ++ callback.entries = logOf (done ++ [callback]) := by
  rw [logOf_append]
  simp [logOf]

theorem Shape.runGui {s s' : Request} (h : Shape data s) (hrun : data.runGui s = some s') :
    Shape data s' := by
  unfold NetworkData.runGui at hrun
  cases h with
  | waiting hstage hgui hpool hlog =>
    rw [hgui] at hrun
    exact nomatch hrun
  | pooled outcome done callback todo isChecked running hstage hplan hgui hpool hlog =>
    rw [hgui] at hrun
    exact nomatch hrun
  | replied reply hstage hsequential hgui hpool hlog hcanceled =>
    rw [hgui] at hrun
    obtain rfl := Option.some.inj hrun
    have hregular : Regular data { s with gui := [] } (.replyFinished reply) := by
      cases reply with
      | canceled => exact hcanceled rfl
      | error => trivial
      | success =>
        intro hconcurrent
        rw [hsequential] at hconcurrent
        exact nomatch hconcurrent
    have hhandled : Shape data (data.handleReply reply { s with gui := [] }) := by
      refine Shape.handleReply ?_ ?_ ?_ ?_ hregular
      · exact hstage
      · rfl
      · exact hpool
      · exact hlog
    exact hhandled.frame _ false
  | posted outcome done todo hstage hplan hgui hpool hlog =>
    rcases hgui with hgui | hgui
    · cases todo with
      | nil =>
        rw [hgui] at hrun
        exact nomatch hrun
      | cons callback todo =>
        rw [hgui] at hrun
        obtain rfl := Option.some.inj hrun
        refine .posted outcome (done ++ [callback]) todo hstage ?_ (.inl rfl) hpool ?_
        · rw [hplan, List.append_assoc]
          rfl
        · rw [← logOf_append_entries, ← hlog]
    · rw [hgui] at hrun
      obtain rfl := Option.some.inj hrun
      refine Shape.frame ?_ _ false
      unfold NetworkData.handleReply
      split <;> exact .posted outcome done todo hstage hplan (.inl rfl) hpool hlog
  | checked outcome done todo hstage hplan hdone hgui hpool hlog =>
    cases todo with
    | nil =>
      rw [hgui] at hrun
      exact nomatch hrun
    | cons callback todo =>
      rw [hgui] at hrun
      simp only [List.map_cons] at hrun
      by_cases hcaller : data.callerGone s = true
      · rw [if_pos hcaller] at hrun
        obtain rfl := Option.some.inj hrun
        refine .checked outcome done todo hstage (fun hnot => ?_) hdone rfl hpool hlog
        exact absurd (hcaller.symm.trans hnot) (by decide)
      · rw [if_neg hcaller] at hrun
        obtain rfl := Option.some.inj hrun
        have hplan := (hplan (eq_false_of_ne_true hcaller)).trans (List.append_cons done callback todo)
        refine .checked outcome (done ++ [callback]) todo hstage (fun _ => hplan) ⟨todo, hplan.symm⟩ rfl
          hpool ?_
        rw [← logOf_append_entries, ← hlog]

theorem Shape.runPool {s s' : Request} (h : Shape data s) {index : Nat}
    (hrun : data.runPool index s = some s') : Shape data s' := by
  unfold NetworkData.runPool at hrun
  cases h with
  | waiting _ _ hpool | replied _ _ _ _ hpool | posted _ _ _ _ _ _ hpool
    | checked _ _ _ _ _ _ _ hpool =>
    rw [hpool] at hrun
    exact nomatch hrun
  | pooled outcome done callback todo isChecked running hstage hplan hgui hpool hlog =>
    cases index with
    | succ index =>
      rw [hpool] at hrun
      exact nomatch hrun
    | zero =>
      have hnext : data.plan outcome = (done ++ [callback]) ++ todo := by
        rw [hplan, List.append_assoc]
        rfl
      rw [hpool] at hrun
      cases running with
      | true =>
        obtain rfl := Option.some.inj hrun
        have hlog' : s.log ++ [.completed callback] = logOf (done ++ [callback]) := by
          rw [hlog, ← logOf_append_entries, if_pos rfl, List.append_assoc]
          rfl
        cases todo with
        | nil => exact .posted outcome (done ++ [callback]) [] hstage hnext (.inl hgui) rfl hlog'
        | cons callback' todo =>
          refine .pooled outcome (done ++ [callback]) callback' todo isChecked false hstage hnext hgui rfl ?_
          rw [if_neg Bool.false_ne_true, List.append_nil]
          exact hlog'
      | false =>
        rw [if_neg Bool.false_ne_true, List.append_nil] at hlog
        simp only [List.getElem?_cons_zero, Bool.false_eq_true, if_false] at hrun
        by_cases hcaller : (isChecked && data.callerGone s) = true
        · rw [if_pos hcaller] at hrun
          obtain rfl := Option.some.inj hrun
          refine .checked outcome done [] hstage (fun hnot => ?_) ⟨callback :: todo, hplan.symm⟩ hgui rfl hlog
          have hgone : data.callerGone s = true := (Bool.and_eq_true_iff.mp hcaller).2
          exact absurd (hgone.symm.trans hnot) (by decide)
        · rw [if_neg hcaller] at hrun
          obtain rfl := Option.some.inj hrun
          refine .pooled outcome done callback todo isChecked true hstage hplan hgui rfl ?_
          rw [if_pos rfl, ← hlog]

theorem Shape.destroyCaller {s : Request} (h : Shape data s) :
    Shape data { s with callerDestroyed := true } := by
  have hgone : data.callerGone s = true → data.callerGone { s with callerDestroyed := true } = true := by
    unfold callerGone
    rw [Bool.and_true]
    exact fun h => (Bool.and_eq_true_iff.mp h).1
  cases h with
  | waiting hstage hgui hpool hlog => exact .waiting hstage hgui hpool hlog
  | replied reply hstage hsequential hgui hpool hlog hcanceled =>
    exact .replied reply hstage hsequential hgui hpool hlog fun hreply => hgone (hcanceled hreply)
  | posted outcome done todo hstage hplan hgui hpool hlog =>
    exact .posted outcome done todo hstage hplan hgui hpool hlog
  | checked outcome done todo hstage hplan hdone hgui hpool hlog =>
    refine .checked outcome done todo hstage (fun hnot => hplan ?_) hdone hgui hpool hlog
    by_contra hcaller
    rw [hgone (eq_true_of_ne_false hcaller)] at hnot
    exact nomatch hnot
  | pooled outcome done callback todo isChecked running hstage hplan hgui hpool hlog =>
    exact .pooled outcome done callback todo isChecked running hstage hplan hgui hpool hlog

theorem Shape.step {s s' : Request} {e : Event} (h : Shape data s) (hstep : data.Step s e s')
    (hregular : Regular data s e) : Shape data s' := by
  unfold Step NetworkData.step at hstep
  cases e with
  | readCache hit =>
    dsimp only at hstep
    split_ifs at hstep with hstage hhit
    · obtain rfl := Option.some.inj hstep
      exact h.serveCached hstage
    · obtain rfl := Option.some.inj hstep
      obtain ⟨hgui, hpool, hlog⟩ := h.of_unfinished (by rw [hstage]; decide)
      exact .waiting (by simp) hgui hpool hlog
  | requestUrl =>
    dsimp only at hstep
    split_ifs at hstep with hstage
    all_goals
      obtain rfl := Option.some.inj hstep
      obtain ⟨hgui, hpool, hlog⟩ := h.of_unfinished (by rw [hstage]; decide)
      exact .waiting (by simp) hgui hpool hlog
  | replyFinished reply =>
    dsimp only at hstep
    split_ifs at hstep with hstage
    obtain rfl := Option.some.inj hstep
    exact h.replyFinished hstage hregular
  | timeout =>
    dsimp only at hstep
    split_ifs at hstep
    obtain rfl := Option.some.inj hstep
    exact h.timeout hregular
  | deleteTimer =>
    dsimp only at hstep
    split_ifs at hstep
    obtain rfl := Option.some.inj hstep
    exact h.frame .none s.workerAlive
  | gui => exact h.runGui hstep
  | pool index => exact h.runPool hstep
  | destroyCaller =>
    dsimp only at hstep
    split_ifs at hstep
    obtain rfl := Option.some.inj hstep
    exact h.destroyCaller

end NetworkData

end Dankerino
