import Dankerino.PubSub.Duplicates

/-!
# When a step asks for a connection

`addClient` is reached from listening, from a connection that opened or closed, and from a retry
timer. `NeedsConnection` says, from the state before the step and the event alone, when it gets
as far as calling `get_connection`: topics that are passed to `listenToTopic` must exceed the room
that is left in the clients, and no attempt may be under way already.

`step_cases` lists what a step can do, and `step_attempts` what it does to the attempts.
-/

namespace Dankerino

open Infra

namespace PubSubClient

/-- How many more topics the client takes. -/
def room (c : PubSubClient) : Nat := maxListens - c.numListens

theorem listen_one_eq_none {c : PubSubClient} {msg : PubSubListenMessage}
    (hmsg : msg.topics.length = 1) : c.listen msg = none ↔ c.room = 0 := by
  unfold listen room
  simp only [hmsg]
  split
  · exact ⟨fun _ => by omega, fun _ => rfl⟩
  · exact ⟨fun h => (nomatch h), fun _ => by omega⟩

theorem listen_one_room {c c' : PubSubClient} {msg : PubSubListenMessage}
    (hmsg : msg.topics.length = 1) (h : c.listen msg = some c') : c'.room + 1 = c.room := by
  unfold listen at h
  simp only [hmsg] at h
  split at h
  · exact nomatch h
  · next hle =>
    rw [← Option.some.inj h]
    unfold maxListens at hle
    simp only [room, toUInt16, maxListens]
    omega

theorem unlistenPrefix_topics_subset (c : PubSubClient) (p : QString) :
    (c.unlistenPrefix p).1.topics ⊆ c.topics :=
  fun _ h => (unlistenPrefix_topics c p).subset (List.mem_append_left _ h)

end PubSubClient

namespace ClientMap

/-- How many more topics the clients take together. -/
def room (clients : ClientMap) : Nat := (clients.map fun p => p.2.room).sum

theorem mem_topics {topic : QString} {clients : ClientMap} :
    topic ∈ clients.topics ↔ ∃ p ∈ clients, topic ∈ p.2.topics := by
  induction clients with
  | nil => simp
  | cons p rest ih =>
    rw [topics_cons, Multiset.mem_add, Multiset.mem_coe, ih]
    simp

theorem room_cons (p : Handle × PubSubClient) (clients : ClientMap) :
    room (p :: clients) = p.2.room + room clients := rfl

end ClientMap

namespace PubSub

open ClientMap

/-! ## Listening to several topics -/

/-- `listenToTopic` for one topic after the other. -/
def listenAll (con : GetConnection) (topics : List QString) (s : PubSub) : PubSub :=
  topics.foldl (fun t topic => t.listenToTopic topic con) s

theorem relisten_eq_listenAll (con : GetConnection) :
    ∀ (ls : List Listener) (s : PubSub), relisten con ls s = listenAll con (ls.map Listener.topic) s
  | [], _ => rfl
  | l :: rest, s => relisten_eq_listenAll con rest (s.listenToTopic l.topic con)

theorem tryListenLoop_eq_none {msg : PubSubListenMessage} (hmsg : msg.topics.length = 1)
    (clients : ClientMap) : tryListenLoop msg clients = none ↔ clients.room = 0 := by
  induction clients with
  | nil => exact ⟨fun _ => rfl, fun _ => rfl⟩
  | cons p rest ih =>
    obtain ⟨k, c⟩ := p
    have hnone := PubSubClient.listen_one_eq_none (c := c) hmsg
    rw [room_cons]
    unfold tryListenLoop
    cases hc : c.listen msg with
    | none =>
      have hroom := hnone.mp hc
      rw [Option.map_eq_none_iff, ih, hroom, Nat.zero_add]
    | some c' =>
      have hroom : c.room ≠ 0 := fun h => by simp [hnone.mpr h] at hc
      exact ⟨(fun h => by cases h), fun h => absurd (Nat.eq_zero_of_add_eq_zero_right h) hroom⟩

theorem tryListenLoop_room {msg : PubSubListenMessage} (hmsg : msg.topics.length = 1) :
    ∀ {clients : ClientMap} {r : Handle × ClientMap}, tryListenLoop msg clients = some r →
      r.2.room + 1 = clients.room
  | [], _, h => nomatch h
  | (k, c) :: rest, r, h => by
    unfold tryListenLoop at h
    split at h
    · next c' hc =>
      cases h
      have hone := PubSubClient.listen_one_room hmsg hc
      rw [room_cons, room_cons]
      show c'.room + room rest + 1 = c.room + room rest
      omega
    · obtain ⟨⟨k', rest'⟩, hrest, rfl⟩ := Option.map_eq_some_iff.mp h
      have ih := tryListenLoop_room hmsg hrest
      rw [room_cons, room_cons]
      show c.room + room rest' + 1 = c.room + room rest
      simp only [] at ih
      omega

/-- With room left, a topic goes to a client and nothing else happens. -/
theorem listenToTopic_of_room {s : PubSub} (topic : QString) (con : GetConnection)
    (h : 0 < s.clients.room) :
    ∃ hdl clients, clients.handles = s.clients.handles ∧ clients.room + 1 = s.clients.room ∧
      clients.topics = s.clients.topics + {topic} ∧ s.listenToTopic topic con = { s with
        clients
        sent := s.sent ++ [(hdl, .listen { topics := [topic], token := s.token })] } := by
  let msg : PubSubListenMessage := { topics := [topic], token := s.token }
  have hone : msg.topics.length = 1 := rfl
  cases hloop : tryListenLoop msg s.clients with
  | none => exact absurd ((tryListenLoop_eq_none hone _).mp hloop) (by omega)
  | some r =>
    obtain ⟨hkeys, htopics, -⟩ := tryListenLoop_spec hloop
    refine ⟨r.1, r.2, hkeys, tryListenLoop_room hone hloop, htopics, ?_⟩
    have htry : s.tryListen msg = some { s with
        clients := r.2
        sent := s.sent ++ [(r.1, .listen msg)] } := by
      rw [tryListen, hloop]
      rfl
    unfold listenToTopic listen
    rw [show s.tryListen { topics := [topic], token := s.token } = _ from htry]

/-- Without room, a topic waits for a connection. -/
theorem listenToTopic_of_full {s : PubSub} (topic : QString) (con : GetConnection)
    (h : s.clients.room = 0) :
    s.listenToTopic topic con
      = { s.addClient con with requests := (s.addClient con).requests ++ [topic] } := by
  let msg : PubSubListenMessage := { topics := [topic], token := s.token }
  have hone : msg.topics.length = 1 := rfl
  have hloop : tryListenLoop msg s.clients = none := (tryListenLoop_eq_none hone s.clients).mpr h
  unfold listenToTopic listen tryListen
  rw [show tryListenLoop { topics := [topic], token := s.token } s.clients = none from hloop]
  rfl

/-! ### The fields that `addClient` leaves alone -/

section addClient

variable (s : PubSub) (con : GetConnection)

@[simp] theorem addClient_clients : (s.addClient con).clients = s.clients := by
  unfold addClient
  split
  · rfl
  · cases con <;> rfl

@[simp] theorem addClient_requests : (s.addClient con).requests = s.requests := by
  unfold addClient
  split
  · rfl
  · cases con <;> rfl

@[simp] theorem addClient_retryTimers : (s.addClient con).retryTimers = s.retryTimers := by
  unfold addClient
  split
  · rfl
  · cases con <;> rfl

@[simp] theorem addClient_sent : (s.addClient con).sent = s.sent := by
  unfold addClient
  split
  · rfl
  · cases con <;> rfl

theorem addClient_connecting : (s.addClient con).connecting =
    if s.addingClient then s.connecting else s.connecting ++ con.toList := by
  unfold addClient
  split
  · rfl
  · cases con with
    | none => exact (List.append_nil _).symm
    | some hdl => rfl

end addClient

/-! ### All topics -/

/--
The topics that fit go to the clients. The others are queued, and then `get_connection` is called
unless an attempt is under way.
-/
theorem listenAll_spec (con : GetConnection) : ∀ (topics : List QString) (s : PubSub),
    (listenAll con topics s).clients.handles = s.clients.handles ∧
      (listenAll con topics s).requests = s.requests ++ topics.drop s.clients.room ∧
      (listenAll con topics s).retryTimers = s.retryTimers ∧
      (listenAll con topics s).addingClient
        = (s.addingClient || decide (s.clients.room < topics.length)) ∧
      (listenAll con topics s).connecting
        = if s.addingClient = false ∧ s.clients.room < topics.length then
            s.connecting ++ con.toList
          else s.connecting
  | [], s => by
    refine ⟨rfl, ?_, rfl, ?_, ?_⟩
    · simp [listenAll]
    · simp [listenAll]
    · rw [if_neg (by simp)]
      rfl
  | topic :: rest, s => by
    have hstep : listenAll con (topic :: rest) s = listenAll con rest (s.listenToTopic topic con) := rfl
    rw [hstep]
    obtain ⟨hh, hreq, htimers, hadd, hconn⟩ := listenAll_spec con rest (s.listenToTopic topic con)
    by_cases hroom : s.clients.room = 0
    · -- everything is queued, and the flag is set from here on
      rw [listenToTopic_of_full topic con hroom] at hh hreq htimers hadd hconn ⊢
      simp only [addClient_clients, addClient_requests, addClient_retryTimers,
        addClient_addingClient, hroom] at hh hreq htimers hadd hconn ⊢
      refine ⟨hh, ?_, htimers, ?_, ?_⟩
      · rw [hreq, List.append_assoc]
        rfl
      · rw [hadd]
        simp
      · rw [hconn, if_neg (by simp), addClient_connecting]
        cases s.addingClient <;> simp
    · obtain ⟨hdl, clients, hkeys, hone, -, heq⟩ :=
        listenToTopic_of_room topic con (Nat.pos_of_ne_zero hroom)
      rw [heq] at hh hreq htimers hadd hconn ⊢
      simp only [] at hh hreq htimers hadd hconn ⊢
      have hdrop : (topic :: rest).drop s.clients.room = rest.drop clients.room := by
        rw [← hone, List.drop_succ_cons]
      have hlt : s.clients.room < (topic :: rest).length ↔ clients.room < rest.length := by
        rw [List.length_cons]
        omega
      refine ⟨hh.trans hkeys, ?_, htimers, ?_, ?_⟩
      · rw [hreq, hdrop]
      · rw [hadd]
        simp only [hlt]
      · rw [hconn]
        simp only [hlt]

/-! ## Unlistening -/

/-- Only unlisten messages were added. -/
def OnlyUnlistens (msgs : List (Handle × PubSubSent)) : Prop :=
  ∀ hdl msg, (hdl, PubSubSent.listen msg) ∉ msgs

theorem unlistenPrefixOn_eq (s : PubSub) (hdl : Handle) (c : PubSubClient) (p : QString) :
    ∃ msgs, OnlyUnlistens msgs ∧ (s.unlistenPrefixOn hdl c p).1
      = { s with clients := s.clients.update hdl (c.unlistenPrefix p).1, sent := s.sent ++ msgs } := by
  by_cases h : (c.unlistenPrefix p).2.isEmpty
  · refine ⟨[], fun _ _ hm => (List.not_mem_nil hm), ?_⟩
    simp only [unlistenPrefixOn, h, if_true, List.append_nil]
  · refine ⟨[(hdl, .unlisten (c.unlistenPrefix p).2)], fun _ _ hm => ?_, ?_⟩
    · simp at hm
    · simp only [unlistenPrefixOn, h]
      rfl

/-- The loop cuts every client in turn. -/
theorem unlistenLoop_eq (p : QString) : ∀ (rest done : ClientMap) (s : PubSub),
    s.clients = done ++ rest → s.clients.handles.Nodup →
    ∃ msgs, OnlyUnlistens msgs ∧ (unlistenLoop p rest s).1 = { s with
      clients := done ++ rest.map fun q => (q.1, (q.2.unlistenPrefix p).1)
      sent := s.sent ++ msgs }
  | [], done, s, hs, _ => by
    refine ⟨[], fun _ _ hm => (List.not_mem_nil hm), ?_⟩
    rw [List.map_nil, ← hs, List.append_nil]
    rfl
  | (hdl, c) :: rest, done, s, hs, hnd => by
    obtain ⟨msgs, hmsgs, heq⟩ := unlistenPrefixOn_eq s hdl c p
    have hup : s.clients.update hdl (c.unlistenPrefix p).1
        = (done ++ [(hdl, (c.unlistenPrefix p).1)]) ++ rest := by
      rw [hs, handles, List.map_append, List.map_cons, List.nodup_append] at hnd
      obtain ⟨-, hrest, happart⟩ := hnd
      have hdone : update done hdl (c.unlistenPrefix p).1 = done :=
        update_of_not_mem _ fun hm => happart hdl hm hdl List.mem_cons_self rfl
      have htail : update rest hdl (c.unlistenPrefix p).1 = rest :=
        update_of_not_mem _ (List.nodup_cons.mp hrest).1
      rw [hs, List.append_assoc]
      show List.map _ (done ++ (hdl, c) :: rest) = _
      rw [List.map_append, List.map_cons, if_pos rfl]
      exact congrArg₂ (fun a b => a ++ (hdl, (c.unlistenPrefix p).1) :: b) hdone htail
    have hnd' : (s.unlistenPrefixOn hdl c p).1.clients.handles.Nodup := by
      rw [heq]
      show (s.clients.update hdl _).handles.Nodup
      rw [update_handles]
      exact hnd
    obtain ⟨more, hmore, hloop⟩ := unlistenLoop_eq p rest (done ++ [(hdl, (c.unlistenPrefix p).1)])
      (s.unlistenPrefixOn hdl c p).1 (by rw [heq]; exact hup) hnd'
    refine ⟨msgs ++ more, ?_, ?_⟩
    · intro k m hm
      rcases List.mem_append.mp hm with hm | hm
      · exact hmsgs k m hm
      · exact hmore k m hm
    · show (unlistenLoop p rest (s.unlistenPrefixOn hdl c p).1).1 = _
      rw [hloop, heq]
      simp only [List.append_assoc, List.map_cons, List.singleton_append]

/-! ## What a step can do -/

/-- The answer of `get_connection` that an event carries. -/
def Event.answer : Event → GetConnection
  | .listenToTopic _ con => con
  | .listenToWhispers con => con
  | .listenToChannelModerationActions _ con => con
  | .listenToAutomod _ con => con
  | .listenToChannelPointRewards _ con => con
  | .connectionOpen _ con => con
  | .connectionClose _ con => con
  | .retryTimer _ con => con
  | _ => none

/-- The topics that are passed to `listenToTopic`, by a caller or for a closed connection. -/
def passedTopics (s : PubSub) : Event → List QString
  | .listenToTopic topic _ => [topic]
  | .listenToWhispers _ => if s.userID.isEmpty then [] else ["whispers.".toList ++ s.userID]
  | .connectionClose hdl _ =>
    match s.clients.find hdl with
    | none => []
    | some client => client.topics
  | e => (s.guardedTopic e).toList.filter fun topic => !s.isListeningToTopic topic

/-- The clients that these topics are offered to. -/
def clientsLeft (s : PubSub) : Event → ClientMap
  | .connectionClose hdl _ => s.clients.erase hdl
  | _ => s.clients

/-- The step calls `get_connection`. -/
def NeedsConnection (s : PubSub) : Event → Prop
  | .connectionOpen _ _ => PubSubClient.maxListens < s.requests.length
  | .retryTimer _ _ => s.addingClient = false
  | e => s.addingClient = false ∧ (s.clientsLeft e).room < (s.passedTopics e).length

/-- What a step can do, by what it does to connections. -/
inductive Does (s : PubSub) (e : Event) (eff : Effect) : PubSub → Prop
  | opened (hdl : Handle) (con : GetConnection) (he : e = .connectionOpen hdl con)
    (hmem : hdl ∈ s.connecting) (hcon : FreshConnection s con) :
    Does s e eff ({ s with connecting := s.connecting.erase hdl }.onConnectionOpen hdl con)
  | failed (hdl : Handle) (he : e = .connectionFail hdl) (hmem : hdl ∈ s.connecting) :
    Does s e eff { s with connecting := s.connecting.erase hdl }.onConnectionFail
  | retried (k : Nat) (con : GetConnection) (he : e = .retryTimer k con)
    (hk : k < s.retryTimers.length) (hcon : FreshConnection s con) :
    Does s e eff ({ s with retryTimers := s.retryTimers.eraseIdx k }.addClient con)
  | listened (hneeds : s.NeedsConnection e ↔
      s.addingClient = false ∧ (s.clientsLeft e).room < (s.passedTopics e).length)
    (hpassed : ∀ topic ∈ s.passedTopics e, topic ∈ eff.requested ∨ topic ∈ s.clients.topics)
    (hcon : FreshConnection s e.answer) :
    Does s e eff (listenAll e.answer (s.passedTopics e) { s with clients := s.clientsLeft e })
  | other (token userID : QString) (clients : ClientMap) (msgs : List (Handle × PubSubSent))
    (hneeds : ¬ s.NeedsConnection e) (hkeys : clients.handles = s.clients.handles)
    (htopics : ∀ topic ∈ clients.topics, topic ∈ s.clients.topics)
    (hleft : s.clientsLeft e = s.clients) (hmsgs : OnlyUnlistens msgs) :
    Does s e eff { s with token, userID, clients, sent := s.sent ++ msgs }

theorem does_of_guardFresh {s s' : PubSub} {e : Event} {eff : Effect} {r : PubSub × List QString}
    (hneeds : s.NeedsConnection e ↔
      s.addingClient = false ∧ (s.clientsLeft e).room < (s.passedTopics e).length)
    (hleft : s.clientsLeft e = s.clients)
    (hr : r = (listenAll e.answer (s.passedTopics e) s, s.passedTopics e))
    (h : s.guardFresh e.answer r = some (s', eff)) : Does s e eff s' := by
  have hreq := guardFresh_requested h
  unfold guardFresh at h
  split at h
  · next hcon =>
    rw [hr] at h hreq
    cases h
    have hdoes : Does s e { requested := s.passedTopics e } _ :=
      .listened hneeds (fun _ hm => Or.inl hm) hcon
    rwa [hleft] at hdoes
  · exact nomatch h

theorem listenUnlessListening_eq (s : PubSub) (topic : QString) (con : GetConnection) :
    s.listenUnlessListening topic con
      = (listenAll con ([topic].filter fun topic => !s.isListeningToTopic topic) s,
          [topic].filter fun topic => !s.isListeningToTopic topic) := by
  unfold listenUnlessListening
  by_cases h : s.isListeningToTopic topic
  · simp [h, listenAll]
  · simp [h, listenAll]

/-- The three functions that cut all clients do nothing else. -/
theorem does_unlistenLoop {s : PubSub} {e : Event} (eff : Effect) (hs : Inv s) (p : QString)
    (hneeds : ¬ s.NeedsConnection e) (hleft : s.clientsLeft e = s.clients) :
    Does s e eff (unlistenLoop p s.clients s).1 := by
  obtain ⟨msgs, hmsgs, heq⟩ := unlistenLoop_eq p s.clients [] s rfl hs.handles
  rw [heq]
  refine .other s.token s.userID _ msgs hneeds ?_ ?_ hleft hmsgs
  · rw [List.nil_append, handles, List.map_map]
    rfl
  · intro topic htopic
    obtain ⟨q, hq, htopic⟩ := mem_topics.mp htopic
    rw [List.nil_append] at hq
    obtain ⟨q, hq', rfl⟩ := List.mem_map.mp hq
    exact mem_topics.mpr ⟨q, hq', PubSubClient.unlistenPrefix_topics_subset q.2 p htopic⟩

theorem step_does {s s' : PubSub} {e : Event} {eff : Effect} (hs : Inv s)
    (h : s.step e = some (s', eff)) : Does s e eff s' := by
  have hnone : ¬ (s.addingClient = false ∧ s.clients.room < ([] : List QString).length) :=
    fun hn => Nat.not_lt_zero _ hn.2
  cases e with
  | setAccountData token userID =>
    cases h
    have hdoes : Does s (.setAccountData token userID) {} _ :=
      .other token userID s.clients [] hnone rfl (fun _ hm => hm) rfl
        (fun _ _ hm => List.not_mem_nil hm)
    rwa [List.append_nil] at hdoes
  | listenToTopic topic con => exact does_of_guardFresh Iff.rfl rfl rfl h
  | listenToWhispers con =>
    refine does_of_guardFresh Iff.rfl rfl ?_ h
    by_cases hu : s.userID.isEmpty
    · simp [listenToWhispers, passedTopics, hu, listenAll]
    · simp [listenToWhispers, passedTopics, hu, listenAll, Event.answer]
  | listenToChannelModerationActions channelID con =>
    simp only [step] at h
    split at h
    · cases h
    · refine does_of_guardFresh Iff.rfl rfl ?_ h
      by_cases hu : s.userID.isEmpty
      · simp [listenToChannelModerationActions, passedTopics, guardedTopic, hu, listenAll]
      · simp only [listenToChannelModerationActions, passedTopics, guardedTopic, hu]
        exact listenUnlessListening_eq s _ con
  | listenToAutomod channelID con =>
    simp only [step] at h
    split at h
    · cases h
    · refine does_of_guardFresh Iff.rfl rfl ?_ h
      by_cases hu : s.userID.isEmpty
      · simp [listenToAutomod, passedTopics, guardedTopic, hu, listenAll]
      · simp only [listenToAutomod, passedTopics, guardedTopic, hu]
        exact listenUnlessListening_eq s _ con
  | listenToChannelPointRewards channelID con =>
    simp only [step] at h
    split at h
    · cases h
    · exact does_of_guardFresh Iff.rfl rfl (listenUnlessListening_eq s _ con) h
  | unlistenPrefix hdl p =>
    simp only [step] at h
    split at h
    · cases h
    · next c hfind =>
      cases h
      obtain ⟨msgs, hmsgs, heq⟩ := unlistenPrefixOn_eq s hdl c p
      rw [heq]
      refine .other s.token s.userID _ msgs hnone (update_handles _ _ _) ?_ rfl hmsgs
      intro topic htopic
      obtain ⟨q, hq, htopic⟩ := mem_topics.mp htopic
      rcases mem_update hq with rfl | hq
      · exact mem_topics.mpr
          ⟨_, mem_of_find hfind, PubSubClient.unlistenPrefix_topics_subset c p htopic⟩
      · exact mem_topics.mpr ⟨q, hq, htopic⟩
  | unlistenAllModerationActions =>
    cases h
    exact does_unlistenLoop _ hs _ hnone rfl
  | unlistenAutomod =>
    cases h
    exact does_unlistenLoop _ hs _ hnone rfl
  | unlistenWhispers =>
    cases h
    exact does_unlistenLoop _ hs _ hnone rfl
  | connectionOpen hdl con =>
    simp only [step] at h
    split at h
    · next hc =>
      cases h
      exact .opened hdl con rfl hc.1 hc.2
    · cases h
  | connectionFail hdl =>
    simp only [step] at h
    split at h
    · next hc =>
      cases h
      exact .failed hdl rfl hc
    · cases h
  | connectionClose hdl con =>
    simp only [step] at h
    split at h
    · next hcon =>
      obtain ⟨s₁, hclose, heq⟩ := Option.map_eq_some_iff.mp h
      cases heq
      unfold onConnectionClose at hclose
      split at hclose
      · cases hclose
      · next c hfind =>
        simp only [] at hclose
        rw [if_neg (by simp [hs.running]), relisten_eq_listenAll] at hclose
        rw [← Option.some.inj hclose]
        have hpassed : s.passedTopics (.connectionClose hdl con) = c.topics := by
          simp only [passedTopics, hfind]
        have hdoes : Does s (.connectionClose hdl con) {} _ := .listened Iff.rfl
          (fun topic hm => Or.inr (mem_topics.mpr ⟨_, mem_of_find hfind, hpassed ▸ hm⟩)) hcon
        rw [hpassed] at hdoes
        exact hdoes
    · cases h
  | retryTimer k con =>
    simp only [step] at h
    split at h
    · next hc =>
      cases h
      exact .retried k con rfl hc.1 hc.2
    · cases h

end PubSub

end Dankerino
