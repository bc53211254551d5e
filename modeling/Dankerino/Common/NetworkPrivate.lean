import Dankerino.Infra.Run

/-!
# Network requests

`load`, `loadCached` and `loadUncached` of `common/NetworkPrivate.cpp`, with the threads that take
part: the worker thread of the reply and the timer, the GUI thread with its queue, and the thread
pool of `QtConcurrent`. What is followed is which callbacks run, and when. The request itself, the
contents of the result and `writeToCache` do not matter to that.
-/

namespace Dankerino

/-- The members of `NetworkData` that decide what is called. Of a callback, whether it is set. -/
structure NetworkData where
  hasCaller_ : Bool
  cache_ : Bool
  executeConcurrently_ : Bool
  onError_ : Bool
  onSuccess_ : Bool
  finally_ : Bool
  hasTimeout_ : Bool
deriving DecidableEq

namespace Network

inductive Callback where
  | onError
  | onSuccess
  | finally_
deriving DecidableEq

/-- How a reply is finished. -/
inductive Reply where
  | success
  | error
  /-- `OperationCanceledError`. -/
  | canceled
deriving DecidableEq

inductive Entry where
  | started (callback : Callback)
  | completed (callback : Callback)
deriving DecidableEq

/-- The entries of a callback that runs without a break. -/
def Callback.entries (callback : Callback) : List Entry := [.started callback, .completed callback]

/-- A functor in the queue of the GUI thread. -/
inductive GuiTask where
  /-- `handleReply`, and then `delete worker`. -/
  | handleReply (reply : Reply)
  | callback (callback : Callback)
  /-- A callback of `loadCached`, which asks for the caller first. -/
  | checked (callback : Callback)
deriving DecidableEq

/-- A task of the thread pool. It calls the callbacks one after the other. -/
structure PoolTask where
  /-- The caller is asked for before each callback. -/
  checked : Bool
  todo : List Callback
  /-- The first callback is running. -/
  running : Bool := false
deriving DecidableEq

inductive Timer where
  | none
  | active
  /-- After `deleteLater`. -/
  | deleting
deriving DecidableEq

/-- How far the request is. -/
inductive Stage where
  /-- `loadCached` is waiting for a thread. -/
  | cached
  /-- The worker thread has not seen `requestUrl`. -/
  | requested
  /-- The reply is not finished. -/
  | pending
  | finished
deriving DecidableEq

structure Request where
  stage : Stage
  timer : Timer := .none
  workerAlive : Bool := true
  gui : List GuiTask := []
  pool : List PoolTask := []
  callerDestroyed : Bool := false
  log : List Entry := []
deriving DecidableEq

end Network

namespace NetworkData

open Network

variable (data : NetworkData)

/-- The callback is set. -/
def isSet : Callback → Bool
  | .onError => data.onError_
  | .onSuccess => data.onSuccess_
  | .finally_ => data.finally_

/-- `hasCaller_ && !caller_.get()`. -/
def callerGone (s : Request) : Bool := data.hasCaller_ && s.callerDestroyed

/-- `if (callback) postToThread(callback)`. -/
def post (task : Callback → GuiTask) (callback : Callback) (s : Request) : Request :=
  if data.isSet callback then { s with gui := s.gui ++ [task callback] } else s

/-- `if (callback) QtConcurrent::run(callback)`. -/
def runConcurrently (callback : Callback) (s : Request) : Request :=
  if data.isSet callback then { s with pool := s.pool ++ [⟨false, [callback], false⟩] } else s

/-- `if (callback) callback()`. -/
def call (callback : Callback) (s : Request) : Request :=
  if data.isSet callback then { s with log := s.log ++ callback.entries } else s

/-- `load`. -/
def load : Request := { stage := if data.cache_ then .cached else .requested }

/-- `loadCached` with the file that is there. -/
def serveCached (s : Request) : Request :=
  let s := { s with stage := .finished }
  if data.executeConcurrently_ then
    let todo := [Callback.onSuccess, .finally_].filter data.isSet
    if todo = [] then s else { s with pool := s.pool ++ [⟨true, todo, false⟩] }
  else data.post .checked .finally_ (data.post .checked .onSuccess s)

def handleReply (reply : Reply) (s : Request) : Request :=
  if data.callerGone s then s
  else
    match reply with
    | .canceled => s
    | .error => data.post .callback .finally_ (data.post .callback .onError s)
    | .success =>
      if data.executeConcurrently_ then
        data.runConcurrently .finally_ (data.runConcurrently .onSuccess s)
      else data.call .finally_ (data.call .onSuccess s)

/-- The slots of `QNetworkReply::finished`. -/
def replyFinished (reply : Reply) (s : Request) : Request :=
  let s :=
    { s with stage := .finished, timer := if s.timer = .active then .deleting else s.timer }
  if data.executeConcurrently_ then { data.handleReply reply s with workerAlive := false }
  else { s with gui := s.gui ++ [.handleReply reply] }

/-- The slot of `QTimer::timeout`. To abort a reply finishes it, unless it is finished. -/
def timeout (s : Request) : Request :=
  let s := { s with timer := .none }
  let s := if s.stage = .pending then data.replyFinished .canceled s else s
  data.post .callback .finally_ (data.post .callback .onError s)

/-- The GUI thread takes the next functor out of its queue. -/
def runGui (s : Request) : Option Request :=
  match s.gui with
  | [] => none
  | .handleReply reply :: gui => some { data.handleReply reply { s with gui } with workerAlive := false }
  | .callback callback :: gui => some { s with gui, log := s.log ++ callback.entries }
  | .checked callback :: gui =>
    if data.callerGone s then some { s with gui }
    else some { s with gui, log := s.log ++ callback.entries }

/-- A thread of the pool gets on with a task, up to the next start or end of a callback. -/
def runPool (index : Nat) (s : Request) : Option Request :=
  match s.pool[index]? with
  | none => none
  | some task =>
    match task.todo with
    | [] => some { s with pool := s.pool.eraseIdx index }
    | callback :: todo =>
      if task.running then
        let pool :=
          if todo = [] then s.pool.eraseIdx index
          else s.pool.set index { task with todo, running := false }
        some { s with pool, log := s.log ++ [.completed callback] }
      else if task.checked && data.callerGone s then some { s with pool := s.pool.eraseIdx index }
      else
        some
          { s with
            pool := s.pool.set index { task with running := true }
            log := s.log ++ [.started callback] }

/-! ## Runs -/

inductive Event where
  /-- `loadCached` looks for the file, which is there or not. -/
  | readCache (hit : Bool)
  /-- The worker thread receives `requestUrl`. -/
  | requestUrl
  | replyFinished (reply : Reply)
  | timeout
  | deleteTimer
  | gui
  | pool (index : Nat)
  | destroyCaller
deriving DecidableEq

/--
What an event does. `none` where it cannot happen: a reply finishes once, and a timeout finds no slot
when the worker is deleted.
-/
def step (s : Request) : Event → Option Request
  | .readCache hit =>
    if s.stage = .cached then some (if hit then data.serveCached s else { s with stage := .requested })
    else none
  | .requestUrl =>
    if s.stage = .requested then
      some { s with stage := .pending, timer := if data.hasTimeout_ then .active else .none }
    else none
  | .replyFinished reply => if s.stage = .pending then some (data.replyFinished reply s) else none
  | .timeout => if s.timer ≠ .none ∧ s.workerAlive = true then some (data.timeout s) else none
  | .deleteTimer => if s.timer = .deleting then some { s with timer := .none } else none
  | .gui => data.runGui s
  | .pool index => data.runPool index s
  | .destroyCaller => if s.callerDestroyed then none else some { s with callerDestroyed := true }

def Step (s : Request) (e : Event) (s' : Request) : Prop := data.step s e = some s'

/-- Nothing is left to be done. -/
def Over (s : Request) : Prop := s.stage = .finished ∧ s.gui = [] ∧ s.pool = []

end NetworkData

end Dankerino
