import Dankerino.Infra.Run
import Dankerino.Qt.QString

/-!
# Loading recent messages

When `TwitchChannel` asks for recent messages. The server tells its channels through the signal
`connected` that it is connected again, and a channel tells through `destroyed` that it goes away.
Which function is connected to which signal is part of the state. In a destructor there is no `shared_ptr` left
that a load could refer to: `weakOf` throws, which no destructor survives.

Messages are not modelled, and the answer to a request only says that the load has ended.
-/

namespace Dankerino

open Infra

namespace RecentMessages

/-! ## Channels -/

/-- What is connected to the signals of a channel. -/
inductive Handler
  /-- The function in the constructor of `TwitchChannel` that loads recent messages. -/
  | reconnect
  /-- The function in `getOrAddChannel` that forgets the channel. -/
  | remove
deriving DecidableEq, Repr

structure TwitchChannel where
  address : Nat
  name : QString
  roomId : QString
  /-- `loadingRecentMessages_`. -/
  loading : Bool
  /-- No `shared_ptr` refers to it any more. -/
  expired : Bool
  connected : List Handler
  destroyed : List Handler
deriving DecidableEq, Repr

/-- The constructor of `TwitchChannel`. -/
def TwitchChannel.new (address : Nat) (name : QString) : TwitchChannel where
  address := address
  name := name
  roomId := []
  loading := false
  expired := false
  connected := []
  destroyed := [.reconnect]

/-- A request for recent messages. -/
structure Load where
  address : Nat
  isReconnect : Bool
deriving DecidableEq, Repr

/-- The channels of the server that are alive, the setting, and the requests. -/
structure Server where
  channels : List TwitchChannel
  loadTwitchMessageHistoryOnConnect : Bool
  nextAddress : Nat
  /-- Every load that was started. -/
  started : List Load
  /-- The loads without an answer. -/
  pending : List Load
  /-- An exception has ended the program. -/
  terminated : Bool

namespace Server

def new (loadTwitchMessageHistoryOnConnect : Bool) : Server where
  channels := []
  loadTwitchMessageHistoryOnConnect := loadTwitchMessageHistoryOnConnect
  nextAddress := 0
  started := []
  pending := []
  terminated := false

/-! ## Loads -/

/-- `loadRecentMessages` and `loadRecentMessagesReconnect`, which differ in what they do with the answer. -/
def load (isReconnect : Bool) (channel : TwitchChannel) (s : Server) : TwitchChannel × Server :=
  if !s.loadTwitchMessageHistoryOnConnect then (channel, s)
  else if channel.loading then (channel, s)
  -- `shared_from_this` throws `bad_weak_ptr`
  else if channel.expired then ({ channel with loading := true }, { s with terminated := true })
  else
    ({ channel with loading := true },
      { s with
        started := s.started ++ [⟨channel.address, isReconnect⟩]
        pending := s.pending ++ [⟨channel.address, isReconnect⟩] })

def loadRecentMessages (channel : TwitchChannel) (s : Server) : TwitchChannel × Server :=
  load false channel s

def loadRecentMessagesReconnect (channel : TwitchChannel) (s : Server) : TwitchChannel × Server :=
  load true channel s

/-! ## Signals -/

def handle (handler : Handler) (channel : TwitchChannel) (s : Server) : TwitchChannel × Server :=
  match handler with
  | .reconnect =>
    if channel.roomId.isEmpty then (channel, s) else loadRecentMessagesReconnect channel s
  | .remove => (channel, { s with channels := s.channels.filter fun c => c.name != channel.name })

def invoke (handlers : List Handler) (channel : TwitchChannel) (s : Server) : TwitchChannel × Server :=
  handlers.foldl (fun r handler => if r.2.terminated then r else handle handler r.1 r.2) (channel, s)

/-- The loop of `onReadConnected` over the channels. -/
def connectedLoop : List TwitchChannel → Server → List TwitchChannel × Server
  | [], s => ([], s)
  | channel :: channels, s =>
    let r := invoke channel.connected channel s
    let rest := connectedLoop channels r.2
    (r.1 :: rest.1, rest.2)

def onReadConnected (s : Server) : Server :=
  let r := connectedLoop s.channels s
  { r.2 with channels := r.1 }

/--
`Channel::~Channel`, of an object that was a `TwitchChannel`. The members of that part are read as they were, though
they are gone.
-/
def destroy (channel : TwitchChannel) (s : Server) : Server :=
  (invoke channel.destroyed { channel with expired := true } s).2

/-! ## Other events -/

/-- Writes back what a method changed of the channel. -/
def put (channel : TwitchChannel) (s : Server) : Server :=
  { s with channels := s.channels.map fun c => if c.address = channel.address then channel else c }

def getOrAddChannel (channelName : QString) (s : Server) : Server :=
  if s.channels.any (·.name == channelName) then s
  else
    let channel := TwitchChannel.new s.nextAddress channelName
    { s with
      channels := s.channels ++ [{ channel with destroyed := channel.destroyed ++ [.remove] }]
      nextAddress := s.nextAddress + 1 }

def setRoomId (id : QString) (channel : TwitchChannel) (s : Server) : Server :=
  if channel.roomId = id then s
  else
    let r := loadRecentMessages { channel with roomId := id } s
    put r.1 r.2

/-- The answer to a request, or that it failed. A channel that is gone does not get it. -/
def finish (load : Load) (s : Server) : Server :=
  { s with
    channels := s.channels.map fun c => if c.address = load.address then { c with loading := false } else c
    pending := s.pending.erase load }

inductive Op
  | getOrAddChannel (channelName : QString)
  | setRoomId (channel : TwitchChannel) (id : QString)
  | readConnected
  | disconnected
  | destroyed (channel : TwitchChannel)
  | finished (load : Load)
  | setting (value : Bool)

/-- What one event does. The server writes a message when it is disconnected, and nothing else. -/
inductive Event : Server → Op → Server → Prop
  | getOrAddChannel (s : Server) (channelName : QString) :
    Event s (.getOrAddChannel channelName) (getOrAddChannel channelName s)
  | setRoomId (s : Server) {channel : TwitchChannel} (id : QString) : channel ∈ s.channels →
    Event s (.setRoomId channel id) (setRoomId id channel s)
  | readConnected (s : Server) : Event s .readConnected (onReadConnected s)
  | disconnected (s : Server) : Event s .disconnected s
  | destroyed (s : Server) {channel : TwitchChannel} : channel ∈ s.channels →
    Event s (.destroyed channel) (destroy channel s)
  | finished (s : Server) {load : Load} : load ∈ s.pending → Event s (.finished load) (finish load s)
  | setting (s : Server) (value : Bool) :
    Event s (.setting value) { s with loadTwitchMessageHistoryOnConnect := value }

/-- One event, while the program runs. -/
def Step (s : Server) (op : Op) (s' : Server) : Prop := s.terminated = false ∧ Event s op s'

/-! ## Handlers -/

/-- The channel is there, with the functions that the constructor and the server connect. -/
structure Wired (channel : TwitchChannel) : Prop where
  expired : channel.expired = false
  connected : channel.connected = []
  destroyed : channel.destroyed = [.reconnect, .remove]

def AllWired (s : Server) : Prop := ∀ channel ∈ s.channels, Wired channel

theorem load_fields (isReconnect : Bool) (channel : TwitchChannel) (s : Server) :
    ((load isReconnect channel s).1.expired = channel.expired ∧
      (load isReconnect channel s).1.connected = channel.connected ∧
      (load isReconnect channel s).1.destroyed = channel.destroyed) ∧
      (load isReconnect channel s).2.channels = s.channels := by
  unfold load
  split
  · exact ⟨⟨rfl, rfl, rfl⟩, rfl⟩
  · split
    · exact ⟨⟨rfl, rfl, rfl⟩, rfl⟩
    · split
      · exact ⟨⟨rfl, rfl, rfl⟩, rfl⟩
      · exact ⟨⟨rfl, rfl, rfl⟩, rfl⟩

/-- Nothing is connected to `connected`. -/
theorem connectedLoop_eq {channels : List TwitchChannel} (h : ∀ channel ∈ channels, Wired channel)
    (s : Server) : connectedLoop channels s = (channels, s) := by
  induction channels with
  | nil => rfl
  | cons channel channels ih =>
    rw [connectedLoop, (h channel (.head _)).connected]
    simp only [invoke, List.foldl_nil, ih fun c hc => h c (.tail _ hc)]

theorem onReadConnected_eq {s : Server} (h : AllWired s) : onReadConnected s = s := by
  unfold onReadConnected
  rw [connectedLoop_eq h]

/-- The room id is known, no load is in progress and the setting is on. -/
def MayLoad (s : Server) (channel : TwitchChannel) : Prop :=
  channel.roomId ≠ [] ∧ channel.loading = false ∧ s.loadTwitchMessageHistoryOnConnect = true

/-- The destruction of a channel that may load ends the program, and that of any other forgets it. -/
theorem destroy_eq {channel : TwitchChannel} (h : Wired channel) {s : Server} (hs : s.terminated = false) :
    (MayLoad s channel → destroy channel s = { s with terminated := true }) ∧
    (¬ MayLoad s channel →
      destroy channel s = { s with channels := s.channels.filter fun c => c.name != channel.name }) := by
  unfold destroy invoke MayLoad
  rw [h.destroyed]
  simp only [List.foldl_cons, List.foldl_nil, handle, loadRecentMessagesReconnect, load, hs]
  constructor
  · rintro ⟨hroom, hloading, hsetting⟩
    simp [hroom, hloading, hsetting]
  · intro hmay
    by_cases hroom : channel.roomId = []
    · simp [hroom, hs]
    · by_cases hsetting : s.loadTwitchMessageHistoryOnConnect = true
      · by_cases hloading : channel.loading = true
        · simp [hroom, hsetting, hloading, hs]
        · exact absurd ⟨hroom, by simpa using hloading, hsetting⟩ hmay
      · simp [hroom, hsetting, hs]

theorem destroy_started {channel : TwitchChannel} (h : Wired channel) {s : Server} (hs : s.terminated = false) :
    (destroy channel s).started = s.started ∧ (destroy channel s).channels ⊆ s.channels := by
  obtain ⟨hterminates, hforgets⟩ := destroy_eq h hs
  by_cases hmay : MayLoad s channel
  · rw [hterminates hmay]
    exact ⟨rfl, fun _ hc => hc⟩
  · rw [hforgets hmay]
    exact ⟨rfl, fun _ hc => (List.mem_filter.mp hc).1⟩

theorem allWired_of_step {s s' : Server} {op : Op} (hs : AllWired s) (hstep : Step s op s') :
    AllWired s' := by
  obtain ⟨hruns, hevent⟩ := hstep
  cases hevent with
  | getOrAddChannel channelName =>
    unfold getOrAddChannel
    split
    · exact hs
    · intro c hc
      rcases List.mem_append.mp hc with hc | hc
      · exact hs c hc
      · rw [List.mem_singleton.mp hc]
        exact ⟨rfl, rfl, rfl⟩
  | @setRoomId channel id hmem =>
    unfold setRoomId
    split
    · exact hs
    · obtain ⟨⟨hexpired, hconnected, hdestroyed⟩, hchannels⟩ := load_fields false { channel with roomId := id } s
      have hchannel := hs channel hmem
      intro c hc
      obtain ⟨c', hc', rfl⟩ := List.mem_map.mp hc
      split
      · exact ⟨hexpired.trans hchannel.expired, hconnected.trans hchannel.connected,
          hdestroyed.trans hchannel.destroyed⟩
      · rw [loadRecentMessages, hchannels] at hc'
        exact hs c' hc'
  | readConnected => rwa [onReadConnected_eq hs]
  | disconnected => exact hs
  | destroyed hmem => exact fun c hc => hs c ((destroy_started (hs _ hmem) hruns).2 hc)
  | finished hmem =>
    intro c hc
    obtain ⟨c', hc', rfl⟩ := List.mem_map.mp hc
    split
    · exact ⟨(hs c' hc').expired, (hs c' hc').connected, (hs c' hc').destroyed⟩
    · exact hs c' hc'
  | setting value => exact hs

/-! ## Runs -/

/-- A connection loads the messages of every channel that may, and a destruction loads none. -/
def GapFilled (s : Server) : Op → Server → Prop
  | .readConnected, s' => ∃ loads, s'.started = s.started ++ loads ∧
    ∀ channel ∈ s.channels, MayLoad s channel → ⟨channel.address, true⟩ ∈ loads
  | .destroyed _, s' => s'.started = s.started
  | _, _ => True

/-- If there is a connection, then none of the channels may load. -/
def NoneMayLoad (s : Server) : Op → Prop
  | .readConnected => ∀ channel ∈ s.channels, ¬ MayLoad s channel
  | _ => True

theorem gapFilled_iff {s s' : Server} {op : Op} (hs : AllWired s) (hstep : Step s op s') :
    GapFilled s op s' ↔ NoneMayLoad s op := by
  obtain ⟨hruns, hevent⟩ := hstep
  cases hevent with
  | readConnected =>
    rw [onReadConnected_eq hs]
    constructor
    · rintro ⟨loads, hstarted, hloads⟩ channel hmem hmay
      obtain rfl : loads = [] := by simpa using hstarted
      exact nomatch hloads channel hmem hmay
    · intro hnone
      exact ⟨[], (List.append_nil _).symm, fun channel hmem hmay => absurd hmay (hnone channel hmem)⟩
  | destroyed hmem => exact iff_of_true (destroy_started (hs _ hmem) hruns).1 trivial
  | getOrAddChannel channelName => exact Iff.rfl
  | setRoomId id hmem => exact Iff.rfl
  | disconnected => exact Iff.rfl
  | finished hmem => exact Iff.rfl
  | setting value => exact Iff.rfl

/--
**Filling the gap.** In a run every connection loads the messages of the channels that may, and no
destruction loads any, exactly if no channel may load when there is a connection.
-/
theorem run_gapFilled_iff (setting : Bool) (ops : List Op) (s : Server) :
    Run (fun s op s' => Step s op s' ∧ GapFilled s op s') (new setting) ops s
      ↔ Run (fun s op s' => Step s op s' ∧ NoneMayLoad s op) (new setting) ops s := by
  have hnew : AllWired (new setting) := fun c hc => nomatch hc
  exact Run.and_congr (fun _ _ _ hs h => allWired_of_step hs h) (fun _ _ _ hs h => gapFilled_iff hs h) hnew

/-- A channel that is joined and has its messages. The connection loads none. -/
theorem gap_not_filled :
    let channel : TwitchChannel :=
      ⟨0, "forsen".toList, "22484632".toList, false, false, [], [.reconnect, .remove]⟩
    ∃ s, Run Step (new true) [.getOrAddChannel "forsen".toList,
        .setRoomId { channel with roomId := [] } "22484632".toList, .finished ⟨0, false⟩] s ∧
      ∃ s', Step s .readConnected s' ∧ ¬ GapFilled s .readConnected s' := by
  intro channel
  refine ⟨_, .cons ⟨rfl, .getOrAddChannel _ _⟩ (.cons ⟨rfl, .setRoomId _ _ (by decide)⟩
    (.single ⟨rfl, .finished _ (by decide)⟩)), _, ⟨rfl, .readConnected _⟩, ?_⟩
  rintro ⟨loads, hstarted, hloads⟩
  obtain rfl : loads = [] := List.append_right_eq_self.mp hstarted.symm
  exact nomatch hloads channel (by decide) ⟨by decide, rfl, rfl⟩

end Server

end RecentMessages

end Dankerino
