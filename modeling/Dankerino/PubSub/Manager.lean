import Dankerino.PubSub.Client

/-!
# The PubSub manager

`PubSub` of `providers/twitch/PubSubManager.cpp`: topics are spread over several connections and
wait in a backlog while a connection is being made.

The websocket library is the environment. It answers `get_connection` with a new connection or an
error, and later reports that a connection opened, failed or closed. So a step takes an `Event`,
which says what the environment or a caller does next, and events that the environment cannot
produce in a state have no step. Every event calls `get_connection` at most once, and the event
carries the answer.

Diagnostics, nonces and the handling of incoming messages are left out. They do not touch topics.
`connecting`, `retryTimers` and `sent` record what was handed to the library: the attempts and
timers that are under way, and the messages sent so far.
-/

namespace Dankerino

/-- A connection handle of the websocket library. -/
abbrev Handle := Nat

/-- The answer of `get_connection`: a new connection, or an error. -/
abbrev GetConnection := Option Handle

/-- `ExponentialBackoff<5>`, of which only the step is needed. -/
structure ExponentialBackoff where
  step : Nat
deriving DecidableEq, Repr

namespace ExponentialBackoff

def maxSteps : Nat := 5

def new : ExponentialBackoff := { step := 1 }

/-- The factor on the start time, and the advanced progression. -/
def next (b : ExponentialBackoff) : Nat × ExponentialBackoff :=
  (2 ^ (b.step - 1), { step := if b.step + 1 ≥ maxSteps then maxSteps else b.step + 1 })

end ExponentialBackoff

/-- `std::map` from handles to clients, in the order of the handles. -/
abbrev ClientMap := List (Handle × PubSubClient)

namespace ClientMap

/-- `emplace`. An entry that is already there stays. -/
def emplace (hdl : Handle) (client : PubSubClient) : ClientMap → ClientMap
  | [] => [(hdl, client)]
  | (h, c) :: rest =>
    if hdl < h then (hdl, client) :: (h, c) :: rest
    else if hdl = h then (h, c) :: rest
    else (h, c) :: emplace hdl client rest

def find (clients : ClientMap) (hdl : Handle) : Option PubSubClient := clients.lookup hdl

def erase (clients : ClientMap) (hdl : Handle) : ClientMap :=
  clients.filter (fun p => p.1 != hdl)

/-- Clients are shared pointers: a change to a client shows in the map. -/
def update (clients : ClientMap) (hdl : Handle) (client : PubSubClient) : ClientMap :=
  clients.map (fun p => if p.1 = hdl then (p.1, client) else p)

end ClientMap

structure PubSub where
  token : QString
  userID : QString
  requests : List QString
  addingClient : Bool
  connectBackoff : ExponentialBackoff
  clients : ClientMap
  stopping : Bool
  /-- Connection attempts that have neither opened nor failed yet. -/
  connecting : List Handle
  /-- Timers after which `addClient` is tried again, as factors on the start time. -/
  retryTimers : List Nat
  /-- Everything written to the connections, oldest first. -/
  sent : List (Handle × PubSubSent)

namespace PubSub

/-- The max amount of connections we may open. -/
def maxConnections : Nat := 10

def new : PubSub where
  token := []
  userID := []
  requests := []
  addingClient := false
  connectBackoff := .new
  clients := []
  stopping := false
  connecting := []
  retryTimers := []
  sent := []

/-! ## Listening -/

/-- `addClient`. On an error of `get_connection` the flag stays set. -/
def addClient (s : PubSub) (con : GetConnection) : PubSub :=
  if s.addingClient then s
  else
    match con with
    | none => { s with addingClient := true }
    | some hdl => { s with addingClient := true, connecting := s.connecting ++ [hdl] }

/-- The loop of `tryListen`: the first client with room takes the message. -/
def tryListenLoop (msg : PubSubListenMessage) : ClientMap → Option (Handle × ClientMap)
  | [] => none
  | (h, c) :: rest =>
    match c.listen msg with
    | some c' => some (h, (h, c') :: rest)
    | none => (tryListenLoop msg rest).map fun (k, r) => (k, (h, c) :: r)

def tryListen (s : PubSub) (msg : PubSubListenMessage) : Option PubSub :=
  (tryListenLoop msg s.clients).map
    fun (hdl, clients) => { s with clients, sent := s.sent ++ [(hdl, .listen msg)] }

def listen (s : PubSub) (msg : PubSubListenMessage) (con : GetConnection) : PubSub :=
  match s.tryListen msg with
  | some s' => s'
  | none =>
    let s' := s.addClient con
    { s' with requests := s'.requests ++ msg.topics }

def listenToTopic (s : PubSub) (topic : QString) (con : GetConnection) : PubSub :=
  s.listen { topics := [topic], token := s.token } con

def isListeningToTopic (s : PubSub) (topic : QString) : Bool :=
  s.clients.any (fun p => p.2.isListeningToTopic topic)

/-! ### The topics callers ask for

The second component is the topic that was passed to `listenToTopic`, if any.
-/

/-- `listenToTopic` on a formatted topic, unless some client has it already. -/
def listenUnlessListening (s : PubSub) (topic : QString) (con : GetConnection) :
    PubSub × List QString :=
  if s.isListeningToTopic topic then (s, [])
  else (s.listenToTopic topic con, [topic])

def listenToWhispers (s : PubSub) (con : GetConnection) : PubSub × List QString :=
  if s.userID.isEmpty then (s, [])
  else
    let topic := "whispers.".toList ++ s.userID
    (s.listenToTopic topic con, [topic])

def listenToChannelModerationActions (s : PubSub) (channelID : QString) (con : GetConnection) :
    PubSub × List QString :=
  if s.userID.isEmpty then (s, [])
  else
    s.listenUnlessListening
      ("chat_moderator_actions.".toList ++ s.userID ++ ".".toList ++ channelID) con

def listenToAutomod (s : PubSub) (channelID : QString) (con : GetConnection) :
    PubSub × List QString :=
  if s.userID.isEmpty then (s, [])
  else s.listenUnlessListening ("automod-queue.".toList ++ s.userID ++ ".".toList ++ channelID) con

def listenToChannelPointRewards (s : PubSub) (channelID : QString) (con : GetConnection) :
    PubSub × List QString :=
  s.listenUnlessListening ("community-points-channel-v1.".toList ++ channelID) con

/-! ## Unlistening -/

/-- `unlistenPrefix` on one client, with the topics it returned. -/
def unlistenPrefixOn (s : PubSub) (hdl : Handle) (client : PubSubClient) (prefixText : QString) :
    PubSub × List QString :=
  let (client', topics) := client.unlistenPrefix prefixText
  ({ s with
      clients := s.clients.update hdl client'
      sent := if topics.isEmpty then s.sent else s.sent ++ [(hdl, .unlisten topics)] }, topics)

/-- The loop of the `unlisten...` functions over the clients. -/
def unlistenLoop (prefixText : QString) : ClientMap → PubSub → PubSub × List QString
  | [], s => (s, [])
  | (hdl, client) :: rest, s =>
    let (s₁, topics) := s.unlistenPrefixOn hdl client prefixText
    let (s₂, more) := unlistenLoop prefixText rest s₁
    (s₂, topics ++ more)

def unlistenAllModerationActions (s : PubSub) : PubSub × List QString :=
  unlistenLoop "chat_moderator_actions.".toList s.clients s

def unlistenAutomod (s : PubSub) : PubSub × List QString :=
  unlistenLoop "automod-queue.".toList s.clients s

def unlistenWhispers (s : PubSub) : PubSub × List QString :=
  unlistenLoop "whispers.".toList s.clients s

/-! ## Connection events -/

/-- `onConnectionOpen`. The new client takes what fits from the front of the backlog. -/
def onConnectionOpen (s : PubSub) (hdl : Handle) (con : GetConnection) : PubSub :=
  let client := PubSubClient.new
  let topicsToTake := min s.requests.length PubSubClient.maxListens
  let msg : PubSubListenMessage := { topics := s.requests.take topicsToTake, token := s.token }
  let s₁ := { s with
    addingClient := false
    connectBackoff := .new
    clients := s.clients.emplace hdl client
    requests := s.requests.drop topicsToTake }
  match client.listen msg with
  | none => s₁
  | some client' =>
    let s₂ := { s₁ with
      clients := s₁.clients.update hdl client'
      sent := s₁.sent ++ [(hdl, .listen msg)] }
    if s₂.requests.isEmpty then s₂ else s₂.addClient con

def onConnectionFail (s : PubSub) : PubSub :=
  if s.requests.isEmpty then { s with addingClient := false }
  else { s with
    addingClient := false
    connectBackoff := s.connectBackoff.next.2
    retryTimers := s.retryTimers ++ [s.connectBackoff.next.1] }

/-- The loop of `onConnectionClose` over the listeners of the closed client. -/
def relisten (con : GetConnection) : List Listener → PubSub → PubSub
  | [], s => s
  | l :: rest, s => relisten con rest (s.listenToTopic l.topic con)

/-- `onConnectionClose`. `none` when the handle has no client, which the code asserts against. -/
def onConnectionClose (s : PubSub) (hdl : Handle) (con : GetConnection) : Option PubSub :=
  match s.clients.find hdl with
  | none => none
  | some client =>
    let s₁ := { s with clients := s.clients.erase hdl }
    some (if s.stopping then s₁ else relisten con client.listeners s₁)

/-! ## Steps -/

/-- What can happen next. `con` is the answer of `get_connection` should it be called. -/
inductive Event
  | setAccountData (token userID : QString)
  | listenToTopic (topic : QString) (con : GetConnection)
  | listenToWhispers (con : GetConnection)
  | listenToChannelModerationActions (channelID : QString) (con : GetConnection)
  | listenToAutomod (channelID : QString) (con : GetConnection)
  | listenToChannelPointRewards (channelID : QString) (con : GetConnection)
  | unlistenPrefix (hdl : Handle) (prefixText : QString)
  | unlistenAllModerationActions
  | unlistenAutomod
  | unlistenWhispers
  | connectionOpen (hdl : Handle) (con : GetConnection)
  | connectionFail (hdl : Handle)
  | connectionClose (hdl : Handle) (con : GetConnection)
  | retryTimer (k : Nat) (con : GetConnection)
deriving DecidableEq, Repr

/-- Topics that callers passed to `listenToTopic`, and topics that `unlistenPrefix` returned. -/
structure Effect where
  requested : List QString := []
  returned : List QString := []
deriving DecidableEq, Repr

/-- `get_connection` never hands out a connection that is in use. -/
def FreshConnection (s : PubSub) (con : GetConnection) : Prop :=
  ∀ hdl ∈ con, hdl ∉ s.connecting ∧ hdl ∉ s.clients.map Prod.fst

instance (s : PubSub) (con : GetConnection) : Decidable (FreshConnection s con) :=
  inferInstanceAs (Decidable (∀ hdl ∈ con, _))

/-- A listening event: the answer of `get_connection` must be possible. -/
def guardFresh (s : PubSub) (con : GetConnection) (r : PubSub × List QString) :
    Option (PubSub × Effect) :=
  if FreshConnection s con then some (r.1, { requested := r.2 }) else none

/-- One event before `stop()`. `none` when the event cannot happen in this state. -/
def step (s : PubSub) : Event → Option (PubSub × Effect)
  | .setAccountData token userID => some ({ s with token, userID }, {})
  | .listenToTopic topic con => s.guardFresh con (s.listenToTopic topic con, [topic])
  | .listenToWhispers con => s.guardFresh con (s.listenToWhispers con)
  | .listenToChannelModerationActions channelID con =>
    if channelID.isEmpty then none
    else s.guardFresh con (s.listenToChannelModerationActions channelID con)
  | .listenToAutomod channelID con =>
    if channelID.isEmpty then none else s.guardFresh con (s.listenToAutomod channelID con)
  | .listenToChannelPointRewards channelID con =>
    if channelID.isEmpty then none
    else s.guardFresh con (s.listenToChannelPointRewards channelID con)
  | .unlistenPrefix hdl prefixText =>
    match s.clients.find hdl with
    | none => none
    | some client =>
      let r := s.unlistenPrefixOn hdl client prefixText
      some (r.1, { returned := r.2 })
  | .unlistenAllModerationActions =>
    some (s.unlistenAllModerationActions.1, { returned := s.unlistenAllModerationActions.2 })
  | .unlistenAutomod => some (s.unlistenAutomod.1, { returned := s.unlistenAutomod.2 })
  | .unlistenWhispers => some (s.unlistenWhispers.1, { returned := s.unlistenWhispers.2 })
  | .connectionOpen hdl con =>
    if hdl ∈ s.connecting ∧ FreshConnection s con then
      some ({ s with connecting := s.connecting.erase hdl }.onConnectionOpen hdl con, {})
    else none
  | .connectionFail hdl =>
    if hdl ∈ s.connecting then
      some ({ s with connecting := s.connecting.erase hdl }.onConnectionFail, {})
    else none
  | .connectionClose hdl con =>
    if FreshConnection s con then (s.onConnectionClose hdl con).map (·, {}) else none
  | .retryTimer k con =>
    if k < s.retryTimers.length ∧ FreshConnection s con then
      some ({ s with retryTimers := s.retryTimers.eraseIdx k }.addClient con, {})
    else none

/-- Steps as a relation. The label is the event with its effect. -/
def Step (s : PubSub) (l : Event × Effect) (s' : PubSub) : Prop := s.step l.1 = some (s', l.2)

end PubSub

end Dankerino
