import Dankerino.Qt.QString
import Mathlib.Algebra.Ring.Nat

/-!
# One PubSub connection

`PubSubClient` of `providers/twitch/PubSubClient.cpp`: the topics one websocket connection has
subscribed to. Pings are left out. They can only end in the connection being closed, and the
manager treats a close the same whatever caused it.
-/

namespace Dankerino

/-- What the client keeps for each topic. -/
structure Listener where
  topic : QString
  authed : Bool
  persistent : Bool
  confirmed : Bool
deriving DecidableEq, Repr

/-- An outgoing LISTEN message. The nonce is left out, answers are not modelled. -/
structure PubSubListenMessage where
  topics : List QString
  token : QString
deriving DecidableEq, Repr

/-- What is written to a connection. -/
inductive PubSubSent
  | listen (msg : PubSubListenMessage)
  | unlisten (topics : List QString)
deriving DecidableEq, Repr

/-- `uint16_t` arithmetic. -/
def toUInt16 (n : Nat) : Nat := n % 2 ^ 16

structure PubSubClient where
  numListens : Nat
  listeners : List Listener
deriving DecidableEq, Repr

namespace PubSubClient

/-- The max amount of topics we may listen to with a single connection. -/
def maxListens : Nat := 50

def new : PubSubClient := { numListens := 0, listeners := [] }

/-- `listen`. `none` is the answer `false`, which leaves the client alone. -/
def listen (c : PubSubClient) (msg : PubSubListenMessage) : Option PubSubClient :=
  let numRequestedListens := msg.topics.length
  if c.numListens + numRequestedListens > maxListens then none
  else some {
    numListens := toUInt16 (c.numListens + numRequestedListens)
    listeners := c.listeners ++ msg.topics.map
      fun topic => { topic, authed := false, persistent := false, confirmed := false } }

/-- `unlistenPrefix`, with the topics that were dropped. Nothing is sent when there are none. -/
def unlistenPrefix (c : PubSubClient) (prefixText : QString) : PubSubClient × List QString :=
  let topics := (c.listeners.filter (fun l => l.topic.startsWith prefixText)).map Listener.topic
  let rest := c.listeners.filter (fun l => !l.topic.startsWith prefixText)
  if topics.isEmpty then ({ c with listeners := rest }, [])
  else
    ({ numListens := toUInt16 (c.numListens + 2 ^ 16 - toUInt16 topics.length)
       listeners := rest }, topics)

def isListeningToTopic (c : PubSubClient) (topic : QString) : Bool :=
  c.listeners.any (fun l => l.topic == topic)

/-- The topics of the listeners. -/
def topics (c : PubSubClient) : List QString := c.listeners.map Listener.topic

/-! ## The counter -/

/-- The counter counts the listeners, and there are never too many of them. -/
structure Counted (c : PubSubClient) : Prop where
  count : c.numListens = c.listeners.length
  bound : c.listeners.length ≤ maxListens

theorem counted_new : Counted new := ⟨rfl, Nat.zero_le _⟩

theorem isListeningToTopic_iff {c : PubSubClient} {topic : QString} :
    c.isListeningToTopic topic = true ↔ topic ∈ c.topics := by
  simp [isListeningToTopic, topics]

theorem listen_isSome {c : PubSubClient} {msg : PubSubListenMessage} (hc : Counted c)
    (h : c.listeners.length + msg.topics.length ≤ maxListens) : ∃ c', c.listen msg = some c' := by
  unfold listen
  simp only []
  rw [if_neg (by rw [hc.count]; omega)]
  exact ⟨_, rfl⟩

theorem listen_topics {c c' : PubSubClient} {msg : PubSubListenMessage}
    (h : c.listen msg = some c') : c'.topics = c.topics ++ msg.topics := by
  unfold listen at h
  simp only [] at h
  split at h
  · exact nomatch h
  · rw [← Option.some.inj h]
    simp [topics, Function.comp_def]

theorem listen_counted {c c' : PubSubClient} {msg : PubSubListenMessage} (hc : Counted c)
    (h : c.listen msg = some c') : Counted c' := by
  obtain ⟨hcount, hbound⟩ := hc
  unfold listen at h
  simp only [] at h
  split at h
  · exact nomatch h
  · next hle =>
    rw [← Option.some.inj h]
    unfold maxListens at hle hbound
    constructor
    · simp only [List.length_append, List.length_map, toUInt16]
      omega
    · simp only [List.length_append, List.length_map, maxListens]
      omega

theorem unlistenPrefix_topics (c : PubSubClient) (p : QString) :
    ((c.unlistenPrefix p).1.topics ++ (c.unlistenPrefix p).2).Perm c.topics := by
  have hperm := (List.filter_append_perm (fun l => l.topic.startsWith p) c.listeners).map
    Listener.topic
  rw [List.map_append] at hperm
  unfold unlistenPrefix
  simp only []
  split
  · next h =>
    rw [List.isEmpty_iff] at h
    rw [h, List.nil_append] at hperm
    simpa [topics] using hperm
  · exact List.perm_append_comm.trans hperm

theorem unlistenPrefix_counted {c : PubSubClient} (hc : Counted c) (p : QString) :
    Counted (c.unlistenPrefix p).1 := by
  obtain ⟨hcount, hbound⟩ := hc
  have hlen := (List.filter_append_perm (fun l => l.topic.startsWith p) c.listeners).length_eq
  rw [List.length_append] at hlen
  unfold unlistenPrefix
  simp only []
  unfold maxListens at hbound
  split
  · next h =>
    rw [List.isEmpty_iff, List.map_eq_nil_iff] at h
    rw [h, List.length_nil] at hlen
    constructor
    · simp only [hcount]
      omega
    · simp only [maxListens]
      omega
  · constructor
    · simp only [hcount, List.length_map, toUInt16]
      omega
    · simp only [maxListens]
      omega

end PubSubClient

end Dankerino
