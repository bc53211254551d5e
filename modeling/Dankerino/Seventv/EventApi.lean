import Dankerino.Infra.OrderedMap
import Dankerino.PubSub.Manager

/-!
# The 7TV event API

`SeventvEventApi` of `providers/seventv/SeventvEventApiManager.cpp` and its client: channels are
joined on several connections and wait in `pendingChannels` while a connection is being made.

The environment is the one of `PubSub`: an event says what a caller or the websocket library does
next and carries the answer of `get_connection`. Messages to and from the server are left out. They
do not touch the lists of channels.
-/

namespace Dankerino

open Infra

/-- The channels joined on one connection. A listener is nothing but its channel. -/
structure SeventvEventApiClient where
  channels : List QString
deriving DecidableEq, Repr

namespace SeventvEventApiClient

/-- The max amount of channels we may join with a single connection. -/
def maxListens : Nat := 100

def new : SeventvEventApiClient := { channels := [] }

/-- `join`. `none` is the answer `false`, which leaves the client alone. -/
def join (c : SeventvEventApiClient) (channel : QString) : Option SeventvEventApiClient :=
  if c.channels.length ≥ maxListens then none else some { channels := c.channels ++ [channel] }

/-- `part`. The first listener for the channel goes. -/
def part (c : SeventvEventApiClient) (channel : QString) : SeventvEventApiClient :=
  { channels := c.channels.erase channel }

def isJoinedChannel (c : SeventvEventApiClient) (channel : QString) : Bool :=
  c.channels.any (fun listener => listener == channel)

theorem join_of_lt {c : SeventvEventApiClient} {channel : QString} (h : c.channels.length < maxListens) :
    c.join channel = some { channels := c.channels ++ [channel] } := by
  unfold join
  rw [if_neg (by omega)]

theorem join_channels {c c' : SeventvEventApiClient} {channel : QString}
    (h : c.join channel = some c') : c'.channels = c.channels ++ [channel] := by
  unfold join at h
  split at h
  · exact nomatch h
  · rw [← Option.some.inj h]

theorem isJoinedChannel_iff {c : SeventvEventApiClient} {channel : QString} :
    c.isJoinedChannel channel = true ↔ channel ∈ c.channels := by
  simp [isJoinedChannel]

end SeventvEventApiClient

structure SeventvEventApi where
  pendingChannels : List QString
  addingClient : Bool
  connectBackoff : ExponentialBackoff
  clients : OrderedMap Handle SeventvEventApiClient
  stopping : Bool
  /-- Connection attempts that have neither opened nor failed yet. -/
  connecting : List Handle
  /-- Timers after which `addClient` is tried again, as factors on the start time. -/
  retryTimers : List Nat

namespace SeventvEventApi

def new : SeventvEventApi where
  pendingChannels := []
  addingClient := false
  connectBackoff := .new
  clients := []
  stopping := false
  connecting := []
  retryTimers := []

/-- `addClient`. On an error of `get_connection` the flag stays set. -/
def addClient (s : SeventvEventApi) (con : GetConnection) : SeventvEventApi :=
  if s.addingClient then s
  else
    match con with
    | none => { s with addingClient := true }
    | some hdl => { s with addingClient := true, connecting := s.connecting ++ [hdl] }

/-! ## Joining and parting -/

/-- The loop of `tryJoinChannel`: the first client with room joins. -/
def tryJoinLoop (channel : QString) :
    OrderedMap Handle SeventvEventApiClient → Option (OrderedMap Handle SeventvEventApiClient)
  | [] => none
  | (h, c) :: rest =>
    match c.join channel with
    | some c' => some ((h, c') :: rest)
    | none => (tryJoinLoop channel rest).map fun r => (h, c) :: r

def tryJoinChannel (s : SeventvEventApi) (channel : QString) : Option SeventvEventApi :=
  (tryJoinLoop channel s.clients).map fun clients => { s with clients }

def joinChannel (s : SeventvEventApi) (channel : QString) (con : GetConnection) : SeventvEventApi :=
  match s.tryJoinChannel channel with
  | some s' => s'
  | none =>
    let s' := s.addClient con
    { s' with pendingChannels := s'.pendingChannels ++ [channel] }

/-- The `find_if` of `partChannel` with the `part` on the client that was found. -/
def partLoop (channel : QString) :
    OrderedMap Handle SeventvEventApiClient → OrderedMap Handle SeventvEventApiClient
  | [] => []
  | (h, c) :: rest =>
    if c.isJoinedChannel channel then (h, c.part channel) :: rest
    else (h, c) :: partLoop channel rest

/-- `partChannel`. Only the clients are searched. -/
def partChannel (s : SeventvEventApi) (channel : QString) : SeventvEventApi :=
  { s with clients := partLoop channel s.clients }

/-! ## Connection events -/

/--
The loop of `onConnectionOpen`: channels move from the back of the pending ones to the client. The
last component says that all went well. A channel that the client refuses is dropped.
-/
def takePending : Nat → List QString → SeventvEventApiClient →
    List QString × SeventvEventApiClient × Bool
  | 0, pending, client => (pending, client, true)
  | n + 1, pending, client =>
    match pending.getLast? with
    | none => (pending, client, true)
    | some last =>
      match client.join last with
      | none => (pending.dropLast, client, false)
      | some client' => takePending n pending.dropLast client'

def onConnectionOpen (s : SeventvEventApi) (hdl : Handle) (con : GetConnection) : SeventvEventApi :=
  let pendingChannelsToTake := min s.pendingChannels.length SeventvEventApiClient.maxListens
  let (pending, client, good) := takePending pendingChannelsToTake s.pendingChannels .new
  let s' := { s with
    addingClient := false
    connectBackoff := .new
    clients := (s.clients.emplace hdl .new).update hdl client
    pendingChannels := pending }
  if good = false ∨ s'.pendingChannels.isEmpty then s' else s'.addClient con

def onConnectionFail (s : SeventvEventApi) : SeventvEventApi :=
  if s.pendingChannels.isEmpty then { s with addingClient := false }
  else { s with
    addingClient := false
    connectBackoff := s.connectBackoff.next.2
    retryTimers := s.retryTimers ++ [s.connectBackoff.next.1] }

/-- The loop of `onConnectionClose` over the listeners of the closed client. -/
def rejoin (con : GetConnection) (channels : List QString) (s : SeventvEventApi) : SeventvEventApi :=
  channels.foldl (fun t channel => t.joinChannel channel con) s

/-- `onConnectionClose`. `none` when the handle has no client, which the code asserts against. -/
def onConnectionClose (s : SeventvEventApi) (hdl : Handle) (con : GetConnection) :
    Option SeventvEventApi :=
  match s.clients.find hdl with
  | none => none
  | some client =>
    let s₁ := { s with clients := s.clients.erase hdl }
    some (if s.stopping then s₁ else rejoin con client.channels s₁)

/-! ## Steps -/

/-- What can happen next. `con` is the answer of `get_connection` should it be called. -/
inductive Event
  | joinChannel (channel : QString) (con : GetConnection)
  | partChannel (channel : QString)
  | connectionOpen (hdl : Handle) (con : GetConnection)
  | connectionFail (hdl : Handle)
  | connectionClose (hdl : Handle) (con : GetConnection)
  | retryTimer (k : Nat) (con : GetConnection)
deriving DecidableEq, Repr

/-- `get_connection` never hands out a connection that is in use. -/
def FreshConnection (s : SeventvEventApi) (con : GetConnection) : Prop :=
  ∀ hdl ∈ con, hdl ∉ s.connecting ∧ hdl ∉ s.clients.keys

instance (s : SeventvEventApi) (con : GetConnection) : Decidable (FreshConnection s con) :=
  inferInstanceAs (Decidable (∀ hdl ∈ con, _))

/-- One event before `stop()`. `none` when the event cannot happen in this state. -/
def step (s : SeventvEventApi) : Event → Option SeventvEventApi
  | .joinChannel channel con =>
    if FreshConnection s con then some (s.joinChannel channel con) else none
  | .partChannel channel => some (s.partChannel channel)
  | .connectionOpen hdl con =>
    if hdl ∈ s.connecting ∧ FreshConnection s con then
      some ({ s with connecting := s.connecting.erase hdl }.onConnectionOpen hdl con)
    else none
  | .connectionFail hdl =>
    if hdl ∈ s.connecting then
      some { s with connecting := s.connecting.erase hdl }.onConnectionFail
    else none
  | .connectionClose hdl con =>
    if FreshConnection s con then s.onConnectionClose hdl con else none
  | .retryTimer k con =>
    if k < s.retryTimers.length ∧ FreshConnection s con then
      some ({ s with retryTimers := s.retryTimers.eraseIdx k }.addClient con)
    else none

end SeventvEventApi

end Dankerino
