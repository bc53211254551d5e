import Dankerino.Infra.Run
import Dankerino.Qt.QString

/-!
# Keychain jobs

`Credentials::set` and `Credentials::erase` with a keychain. QKeychain runs a job asynchronously, so
the calls go through a queue. A job leaves the queue when it is started, not when it is finished, and
`queueJob` takes a queue of one job for one that nobody works on.

* `Step` is a call, or the end of a job that was started. The keychain changes when the job ends.
* `Serialised` is the purpose of the queue. It is kept exactly by the calls that do not come while
  jobs are in flight and none waits.
-/

namespace Dankerino

namespace Credentials

/-- `FORMAT_NAME`. -/
def formatName (provider name_ : QString) : QString :=
  QString.arg (QString.arg "chatterino:%1:%2".toList provider) name_

inductive Job where
  | set (name credential : QString)
  | erase (name : QString)
deriving DecidableEq

/-- The key of the job. -/
def Job.name : Job → QString
  | .set name _ => name
  | .erase name => name

/-- What the key holds after the job. -/
def Job.written : Job → Option QString
  | .set _ credential => some credential
  | .erase _ => none

/-- The passwords that the keychain holds for the service of this program. -/
abbrev Keychain := QString → Option QString

def Job.perform (job : Job) (keychain : Keychain) : Keychain :=
  fun key => if job.name = key then job.written else keychain key

/-- The queue, and what has come of the calls so far. -/
structure KeychainJobs where
  jobQueue : List Job := []
  /-- The jobs that were started and have not finished. -/
  inFlight : List Job := []
  /-- The jobs of all calls, in the order of the calls. -/
  calls : List Job := []
  /-- The jobs in the order in which they were started. -/
  started : List Job := []
  /-- The jobs in the order in which they finished, and whether they succeeded. -/
  finished : List (Job × Bool) := []
  keychain : Keychain

namespace KeychainJobs

/-- `runNextJob`. -/
def runNextJob (s : KeychainJobs) : KeychainJobs :=
  match s.jobQueue with
  | [] => s
  | item :: queue =>
    { s with jobQueue := queue, inFlight := s.inFlight ++ [item], started := s.started ++ [item] }

/-- `queueJob`. -/
def queueJob (s : KeychainJobs) (job : Job) : KeychainJobs :=
  let s := { s with jobQueue := s.jobQueue ++ [job], calls := s.calls ++ [job] }
  if s.jobQueue.length = 1 then s.runNextJob else s

/-- The job at the index finishes, which `runNextJob` is connected to. -/
def finish (s : KeychainJobs) (index : Nat) (job : Job) (succeeded : Bool) : KeychainJobs :=
  runNextJob
    { s with
      inFlight := s.inFlight.eraseIdx index
      finished := s.finished ++ [(job, succeeded)]
      keychain := if succeeded then job.perform s.keychain else s.keychain }

/-! ## Runs -/

inductive Event where
  | set (provider name_ credential : QString)
  | erase (provider name_ : QString)
  | finished (index : Nat) (succeeded : Bool)
deriving DecidableEq

/-- Jobs in flight finish in any order. -/
inductive Step : KeychainJobs → Event → KeychainJobs → Prop
  | set (s : KeychainJobs) (provider name_ credential : QString) :
      Step s (.set provider name_ credential)
        (s.queueJob (.set (formatName provider name_) credential))
  | erase (s : KeychainJobs) (provider name_ : QString) :
      Step s (.erase provider name_) (s.queueJob (.erase (formatName provider name_)))
  | finished (s : KeychainJobs) {index : Nat} {job : Job} (succeeded : Bool)
      (hjob : s.inFlight[index]? = some job) :
      Step s (.finished index succeeded) (s.finish index job succeeded)

/-- The last call for the key. -/
def lastCall (calls : List Job) (key : QString) : Option Job :=
  calls.reverse.find? (·.name == key)

/-- What the last calls leave of a keychain. -/
def valueAfter (initial : Keychain) (calls : List Job) : Keychain := fun key =>
  match lastCall calls key with
  | some job => job.written
  | none => initial key

/-- What the queue is for. -/
structure Serialised (initial : Keychain) (s : KeychainJobs) : Prop where
  /-- At most one job is in flight. -/
  inFlight : s.inFlight.length ≤ 1
  /-- The jobs are started in the order of the calls. -/
  started : s.started <+: s.calls
  /-- When all jobs have been carried out, each key holds what the last call for it says. -/
  stored : s.jobQueue = [] → s.inFlight = [] → (∀ entry ∈ s.finished, entry.2 = true) →
    s.keychain = valueAfter initial s.calls

/-- A call that comes while jobs are in flight finds another job waiting. -/
def InTurn (s : KeychainJobs) : Event → Prop
  | .finished _ _ => True
  | _ => s.inFlight ≠ [] → s.jobQueue ≠ []

/-! ## The last call -/

theorem lastCall_append (calls : List Job) (job : Job) (key : QString) :
    lastCall (calls ++ [job]) key = if job.name = key then some job else lastCall calls key := by
  unfold lastCall
  rw [List.reverse_append, List.reverse_singleton, List.singleton_append, List.find?_cons]
  by_cases hkey : job.name = key
  · rw [if_pos hkey, beq_iff_eq.mpr hkey]
  · rw [if_neg hkey, beq_eq_false_iff_ne.mpr hkey]

theorem valueAfter_append (initial : Keychain) (calls : List Job) (job : Job) :
    valueAfter initial (calls ++ [job]) = job.perform (valueAfter initial calls) := by
  funext key
  unfold valueAfter Job.perform
  rw [lastCall_append]
  by_cases hkey : job.name = key
  · rw [if_pos hkey, if_pos hkey]
  · rw [if_neg hkey, if_neg hkey]

/-! ## The queue in turn -/

/-- How the lists of a state are related when the calls have come in turn. -/
structure InOrder (initial : Keychain) (s : KeychainJobs) : Prop where
  inFlight : s.inFlight.length ≤ 1
  /-- A job only waits for one that is in flight. -/
  waiting : s.inFlight = [] → s.jobQueue = []
  calls : s.calls = s.started ++ s.jobQueue
  started : s.started = s.finished.map Prod.fst ++ s.inFlight
  keychain : (∀ entry ∈ s.finished, entry.2 = true) →
    s.keychain = valueAfter initial (s.finished.map Prod.fst)

theorem inOrder_initial (initial : Keychain) : InOrder initial { keychain := initial } where
  inFlight := Nat.zero_le 1
  waiting _ := rfl
  calls := rfl
  started := rfl
  keychain _ := rfl

theorem InOrder.serialised {initial : Keychain} {s : KeychainJobs} (h : InOrder initial s) :
    Serialised initial s where
  inFlight := h.inFlight
  started := ⟨s.jobQueue, h.calls.symm⟩
  stored := by
    intro hqueue hflight hok
    have hcalls : s.calls = s.finished.map Prod.fst := by
      rw [h.calls, h.started, hqueue, hflight, List.append_nil, List.append_nil]
    rw [h.keychain hok, hcalls]

theorem queueJob_of_waiting {s : KeychainJobs} (h : s.jobQueue ≠ []) (job : Job) :
    s.queueJob job = { s with jobQueue := s.jobQueue ++ [job], calls := s.calls ++ [job] } := by
  have hlength : (s.jobQueue ++ [job]).length ≠ 1 := by
    have := List.length_pos_iff.mpr h
    rw [List.length_append, List.length_singleton]
    omega
  exact if_neg hlength

theorem queueJob_of_empty {s : KeychainJobs} (h : s.jobQueue = []) (job : Job) :
    s.queueJob job =
      { s with
        inFlight := s.inFlight ++ [job], calls := s.calls ++ [job], started := s.started ++ [job] } := by
  obtain ⟨queue, inFlight, calls, started, finished, keychain⟩ := s
  obtain rfl : queue = [] := h
  rfl

theorem InOrder.queueJob {initial : Keychain} {s : KeychainJobs} (h : InOrder initial s)
    (hturn : s.inFlight ≠ [] → s.jobQueue ≠ []) (job : Job) : InOrder initial (s.queueJob job) := by
  by_cases hqueue : s.jobQueue = []
  · have hflight : s.inFlight = [] := by
      by_contra hne
      exact hturn hne hqueue
    rw [queueJob_of_empty hqueue]
    refine ⟨?_, ?_, ?_, ?_, h.keychain⟩
    · simp [hflight]
    · simp
    · simp [h.calls, hqueue]
    · simp [h.started]
  · rw [queueJob_of_waiting hqueue]
    refine ⟨h.inFlight, ?_, ?_, h.started, h.keychain⟩
    · intro hflight
      exact absurd (h.waiting hflight) hqueue
    · simp [h.calls]

theorem InOrder.runNextJob {initial : Keychain} {s : KeychainJobs} (hflight : s.inFlight = [])
    (hcalls : s.calls = s.started ++ s.jobQueue) (hstarted : s.started = s.finished.map Prod.fst)
    (hkeychain : (∀ entry ∈ s.finished, entry.2 = true) →
      s.keychain = valueAfter initial (s.finished.map Prod.fst)) :
    InOrder initial s.runNextJob := by
  obtain ⟨queue, inFlight, calls, started, finished, keychain⟩ := s
  obtain rfl : inFlight = [] := hflight
  cases queue with
  | nil =>
    exact ⟨Nat.zero_le 1, fun _ => rfl, hcalls, hstarted.trans (List.append_nil _).symm, hkeychain⟩
  | cons item queue =>
    refine ⟨Nat.le_refl 1, ?_, ?_, ?_, hkeychain⟩
    · simp [KeychainJobs.runNextJob]
    · simpa [KeychainJobs.runNextJob] using hcalls
    · simp only [KeychainJobs.runNextJob, List.nil_append]
      exact congrArg (· ++ [item]) hstarted

theorem InOrder.finish {initial : Keychain} {s : KeychainJobs} (h : InOrder initial s)
    {index : Nat} {job : Job} (hjob : s.inFlight[index]? = some job) (succeeded : Bool) :
    InOrder initial (s.finish index job succeeded) := by
  have hone : s.inFlight = [job] ∧ index = 0 := by
    obtain ⟨hlt, hget⟩ := List.getElem?_eq_some_iff.mp hjob
    have hle := h.inFlight
    obtain ⟨x, hx⟩ := List.length_eq_one_iff.mp (show s.inFlight.length = 1 by omega)
    obtain rfl : index = 0 := by omega
    refine ⟨?_, rfl⟩
    rw [hx] at hjob ⊢
    rw [Option.some.inj hjob]
  obtain ⟨hflight, rfl⟩ := hone
  refine InOrder.runNextJob ?_ h.calls ?_ ?_
  · simp [hflight]
  · simp [h.started, hflight]
  · intro hok
    have hlast : succeeded = true := hok (job, succeeded) (by simp)
    have hbefore : ∀ entry ∈ s.finished, entry.2 = true :=
      fun entry hentry => hok entry (List.mem_append_left _ hentry)
    simp only [hlast, if_true, List.map_append, List.map_cons, List.map_nil]
    rw [valueAfter_append, h.keychain hbefore]

theorem InOrder.step {initial : Keychain} {s s' : KeychainJobs} {e : Event} (h : InOrder initial s)
    (hstep : Step s e s') (hturn : InTurn s e) : InOrder initial s' := by
  cases hstep with
  | set => exact h.queueJob hturn _
  | erase => exact h.queueJob hturn _
  | finished succeeded hjob => exact h.finish hjob succeeded

/-! ## A call out of turn -/

theorem queueJob_outOfTurn {s : KeychainJobs} {job : Job} (hle : (s.queueJob job).inFlight.length ≤ 1)
    (hflight : s.inFlight ≠ []) : s.jobQueue ≠ [] := by
  intro hqueue
  rw [queueJob_of_empty hqueue] at hle
  have := List.length_pos_iff.mpr hflight
  simp only [List.length_append, List.length_singleton] at hle
  omega

theorem inTurn_of_inFlight {s s' : KeychainJobs} {e : Event} (hstep : Step s e s')
    (hle : s'.inFlight.length ≤ 1) : InTurn s e := by
  cases hstep with
  | set => exact queueJob_outOfTurn hle
  | erase => exact queueJob_outOfTurn hle
  | finished => trivial

/-- The jobs are serialised throughout a run exactly if every call comes in turn. -/
theorem serialised_iff_inTurn (initial : Keychain) (events : List Event) (s : KeychainJobs) :
    Infra.Run (fun s e s' => Step s e s' ∧ Serialised initial s') { keychain := initial } events s ↔
      Infra.Run (fun s e s' => Step s e s' ∧ InTurn s e) { keychain := initial } events s := by
  have hkeep : ∀ s e s', InOrder initial s → Step s e s' → InTurn s e →
      InOrder initial s' ∧ Serialised initial s' := by
    intro s e s' hs hstep hturn
    have hnext := hs.step hstep hturn
    exact ⟨hnext, hnext.serialised⟩
  have honly : ∀ s e s', InOrder initial s → Step s e s' → Serialised initial s' → InTurn s e :=
    fun s e s' _ hstep hserialised => inTurn_of_inFlight hstep hserialised.inFlight
  exact Infra.Run.guarded_steps_iff (A := fun _ _ s' => Serialised initial s') hkeep honly
    (inOrder_initial initial)

/-- Two calls for one key. The second job is started at once, finishes first, and is undone. -/
theorem second_job_overtaken :
    ∃ s : KeychainJobs,
      Infra.Run Step { keychain := fun _ => none }
        [.set "irc".toList "a".toList "1".toList, .set "irc".toList "a".toList "2".toList,
          .finished 1 true, .finished 0 true] s ∧
      s.jobQueue = [] ∧ s.inFlight = [] ∧
      s.keychain (formatName "irc".toList "a".toList) = some "1".toList ∧
      lastCall s.calls (formatName "irc".toList "a".toList)
        = some (.set (formatName "irc".toList "a".toList) "2".toList) ∧
      ¬ Serialised (fun _ => none) s := by
  refine ⟨_, .cons (.set _ _ _ _) (.cons (.set _ _ _ _) (.cons (.finished _ true rfl)
    (.cons (.finished _ true rfl) (.nil _)))), rfl, rfl, rfl, rfl, ?_⟩
  intro h
  have hstored := congrFun (h.stored rfl rfl (by decide)) (formatName "irc".toList "a".toList)
  exact absurd hstored (by decide)

end KeychainJobs

end Credentials

end Dankerino
