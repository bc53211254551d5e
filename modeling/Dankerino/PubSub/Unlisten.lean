import Dankerino.PubSub.Attempts
import Mathlib.Data.Fintype.EquivFin

/-!
# What unlistening leaves behind

`unlistenAllModerationActions`, `unlistenAutomod` and `unlistenWhispers` cut the topics with their
prefix out of every client. They do not look at the backlog. A topic that waits there is
subscribed to when the next connection opens (`unlisten_forgets_backlog`).

With nothing in the backlog that has the prefix, no client ever has such a topic again, and no
LISTEN message asks for one, until a caller does. This is exact, but for a backlog that is stuck
and never served (`unlisten_final_iff`).
-/

namespace Dankerino

open Infra

namespace PubSubClient

theorem unlistenPrefix_free (c : PubSubClient) (p : QString) :
    ∀ topic ∈ (c.unlistenPrefix p).1.topics, topic.startsWith p = false := by
  intro topic htopic
  have hrest : (c.unlistenPrefix p).1.listeners
      = c.listeners.filter (fun l => !l.topic.startsWith p) := by
    unfold unlistenPrefix
    simp only []
    split <;> rfl
  rw [topics, hrest] at htopic
  obtain ⟨l, hl, rfl⟩ := List.mem_map.mp htopic
  simpa using (List.mem_filter.mp hl).2

end PubSubClient

namespace PubSub

open ClientMap

/-- The prefix that an event cuts out of all clients. -/
def Event.unlistenedPrefix : Event → Option QString
  | .unlistenAllModerationActions => some "chat_moderator_actions.".toList
  | .unlistenAutomod => some "automod-queue.".toList
  | .unlistenWhispers => some "whispers.".toList
  | _ => none

/-- No topic of a client has the prefix. -/
def ClientsFree (p : QString) (s : PubSub) : Prop :=
  ∀ topic ∈ s.clients.topics, topic.startsWith p = false

/-- No LISTEN message asks for a topic with the prefix. -/
def ListenFree (p : QString) (msgs : List (Handle × PubSubSent)) : Prop :=
  ∀ hdl msg, (hdl, PubSubSent.listen msg) ∈ msgs → ∀ topic ∈ msg.topics, topic.startsWith p = false

/-- A step in which no caller asks for a topic with the prefix. -/
def QuietStep (p : QString) (s : PubSub) (l : Event × Effect) (s' : PubSub) : Prop :=
  Step s l s' ∧ ∀ topic ∈ l.2.requested, topic.startsWith p = false

theorem onlyUnlistens_listenFree {p : QString} {msgs : List (Handle × PubSubSent)}
    (h : OnlyUnlistens msgs) : ListenFree p msgs :=
  fun hdl msg hm => absurd hm (h hdl msg)

theorem listenFree_nil (p : QString) : ListenFree p [] :=
  onlyUnlistens_listenFree fun _ _ hm => List.not_mem_nil hm

theorem listenFree_append {p : QString} {msgs more : List (Handle × PubSubSent)}
    (h : ListenFree p msgs) (h' : ListenFree p more) : ListenFree p (msgs ++ more) := by
  intro hdl msg hm
  rcases List.mem_append.mp hm with hm | hm
  · exact h hdl msg hm
  · exact h' hdl msg hm

/-- From the first state to the second only LISTEN messages without the prefix were sent. -/
def SendsFree (p : QString) (s s' : PubSub) : Prop := ∃ more, s'.sent = s.sent ++ more ∧ ListenFree p more

theorem sendsFree_of_eq {p : QString} {s s' : PubSub} (h : s'.sent = s.sent) : SendsFree p s s' :=
  ⟨[], h.trans (List.append_nil _).symm, listenFree_nil p⟩

theorem SendsFree.trans {p : QString} {s s' s'' : PubSub} (h : SendsFree p s s')
    (h' : SendsFree p s' s'') : SendsFree p s s'' := by
  obtain ⟨more, heq, hfree⟩ := h
  obtain ⟨more', heq', hfree'⟩ := h'
  exact ⟨more ++ more', by rw [heq', heq, List.append_assoc], listenFree_append hfree hfree'⟩

/-! ## Free states stay free -/

theorem listenToTopic_free {p : QString} {s : PubSub} {topic : QString} (con : GetConnection)
    (hs : ClientsFree p s) (htopic : topic.startsWith p = false) :
    ClientsFree p (s.listenToTopic topic con) ∧ SendsFree p s (s.listenToTopic topic con) := by
  by_cases hroom : s.clients.room = 0
  · rw [listenToTopic_of_full topic con hroom]
    constructor
    · intro t ht
      simp only [addClient_clients] at ht
      exact hs t ht
    · exact sendsFree_of_eq (addClient_sent s con)
  · obtain ⟨hdl, clients, -, -, htopics, heq⟩ :=
      listenToTopic_of_room topic con (Nat.pos_of_ne_zero hroom)
    rw [heq]
    constructor
    · intro t ht
      simp only [htopics, Multiset.mem_add, Multiset.mem_singleton] at ht
      rcases ht with ht | rfl
      · exact hs t ht
      · exact htopic
    · refine ⟨_, rfl, ?_⟩
      intro hdl' msg hm t ht
      simp only [List.mem_singleton, Prod.mk.injEq, PubSubSent.listen.injEq] at hm
      rw [hm.2, List.mem_singleton] at ht
      rw [ht]
      exact htopic

theorem listenAll_free {p : QString} (con : GetConnection) : ∀ (topics : List QString) {s : PubSub},
    ClientsFree p s → (∀ topic ∈ topics, topic.startsWith p = false) →
    ClientsFree p (listenAll con topics s) ∧ SendsFree p s (listenAll con topics s)
  | [], s, hs, _ => ⟨hs, sendsFree_of_eq rfl⟩
  | topic :: rest, s, hs, htopics => by
    obtain ⟨hone, hsent⟩ := listenToTopic_free con hs (htopics topic List.mem_cons_self)
    obtain ⟨hall, hmore⟩ :=
      listenAll_free con rest hone fun t ht => htopics t (List.mem_cons_of_mem _ ht)
    exact ⟨hall, hsent.trans hmore⟩

theorem onConnectionOpen_free {p : QString} {s : PubSub} (hdl : Handle) (con : GetConnection)
    (hs : ClientsFree p s) (hreq : ∀ topic ∈ s.requests, topic.startsWith p = false) :
    (ClientsFree p (s.onConnectionOpen hdl con) ∧
      ∀ topic ∈ (s.onConnectionOpen hdl con).requests, topic.startsWith p = false) ∧
      SendsFree p s (s.onConnectionOpen hdl con) := by
  obtain ⟨client, hclient, hrun⟩ := onConnectionOpen_cases s hdl con
  have htaken : ∀ topic ∈ s.backlogMessage.topics, topic.startsWith p = false :=
    fun topic ht => hreq topic (List.mem_of_mem_take ht)
  have hfree : ClientsFree p (s.opened hdl client) := by
    intro topic ht
    obtain ⟨q, hq, ht⟩ := mem_topics.mp ht
    rcases mem_update hq with rfl | hq
    · rw [PubSubClient.listen_topics hclient] at ht
      exact htaken topic (by simpa [PubSubClient.new, PubSubClient.topics] using ht)
    · rcases mem_emplace hq with rfl | hq
      · exact absurd ht (by simp [PubSubClient.new, PubSubClient.topics])
      · exact hs topic (mem_topics.mpr ⟨q, hq, ht⟩)
  have hrest : ∀ topic ∈ (s.opened hdl client).requests, topic.startsWith p = false :=
    fun topic ht => hreq topic (List.mem_of_mem_drop ht)
  have hsent : SendsFree p s (s.opened hdl client) := by
    refine ⟨_, rfl, ?_⟩
    intro hdl' msg hm
    simp only [List.mem_singleton, Prod.mk.injEq, PubSubSent.listen.injEq] at hm
    rw [hm.2]
    exact htaken
  rw [hrun]
  split
  · exact ⟨⟨hfree, hrest⟩, hsent⟩
  · refine ⟨⟨?_, ?_⟩, hsent.trans (sendsFree_of_eq (addClient_sent _ con))⟩
    · intro topic ht
      rw [addClient_clients] at ht
      exact hfree topic ht
    · rw [addClient_requests]
      exact hrest

/-- Free clients, and a backlog that is free or never served. -/
structure Free (p : QString) (s : PubSub) : Prop where
  inv : Inv s
  queue : Queue s
  clients : ClientsFree p s
  backlog : (∀ topic ∈ s.requests, topic.startsWith p = false) ∨ Stuck s

theorem quietStep_free {p : QString} {s s' : PubSub} {l : Event × Effect} (hs : Free p s)
    (h : QuietStep p s l s') : Free p s' ∧ SendsFree p s s' := by
  obtain ⟨hstep, hquiet⟩ := h
  have hinv := step_inv s l s' hs.inv hstep
  obtain ⟨hqueue, hstuck⟩ := step_queue hs.inv hs.queue hstep
  have hstays : Stuck s → Stuck s' := fun hst => hstuck.mpr (Or.inl hst)
  cases step_does hs.inv hstep with
  | opened hdl con he hmem hcon =>
    have hreq := hs.backlog.resolve_right fun hst => List.ne_nil_of_mem hmem hst.2
    let s₁ : PubSub := { s with connecting := s.connecting.erase hdl }
    have hfree : ClientsFree p s₁ := hs.clients
    obtain ⟨⟨hclients, hrest⟩, hsent⟩ := onConnectionOpen_free hdl con hfree hreq
    exact ⟨⟨hinv, hqueue, hclients, Or.inl hrest⟩, hsent⟩
  | failed hdl he hmem =>
    have hreq := hs.backlog.resolve_right fun hst => List.ne_nil_of_mem hmem hst.2
    refine ⟨⟨hinv, hqueue, ?_, Or.inl ?_⟩, sendsFree_of_eq ?_⟩
    · unfold onConnectionFail
      split <;> exact hs.clients
    · unfold onConnectionFail
      split <;> exact hreq
    · unfold onConnectionFail
      split <;> rfl
  | retried k con he hk hcon =>
    refine ⟨⟨hinv, hqueue, ?_, hs.backlog.imp (fun hreq => ?_) hstays⟩,
      sendsFree_of_eq (addClient_sent _ con)⟩
    · intro topic ht
      rw [addClient_clients] at ht
      exact hs.clients topic ht
    · rw [addClient_requests]
      exact hreq
  | listened hneeds hpassed hcon =>
    have hpassed : ∀ topic ∈ s.passedTopics l.1, topic.startsWith p = false :=
      fun topic ht => (hpassed topic ht).elim (hquiet topic) (hs.clients topic)
    have hleft : ClientsFree p { s with clients := s.clientsLeft l.1 } := by
      intro topic ht
      obtain ⟨q, hq, ht⟩ := mem_topics.mp ht
      refine hs.clients topic (mem_topics.mpr ⟨q, ?_, ht⟩)
      simp only [] at hq
      unfold clientsLeft at hq
      split at hq
      · exact List.mem_of_mem_filter hq
      · exact hq
    obtain ⟨hclients, hsent⟩ := listenAll_free l.1.answer _ hleft hpassed
    refine ⟨⟨hinv, hqueue, hclients, hs.backlog.imp (fun hreq => ?_) hstays⟩, hsent⟩
    obtain ⟨-, heq, -⟩ :=
      listenAll_spec l.1.answer (s.passedTopics l.1) { s with clients := s.clientsLeft l.1 }
    rw [heq]
    intro topic ht
    rcases List.mem_append.mp ht with ht | ht
    · exact hreq topic ht
    · exact hpassed topic (List.mem_of_mem_drop ht)
  | other token userID clients msgs hneeds hkeys htopics hleft hmsgs =>
    refine ⟨⟨hinv, hqueue, fun topic ht => hs.clients topic (htopics topic ht),
      hs.backlog.imp id hstays⟩, msgs, rfl, onlyUnlistens_listenFree hmsgs⟩

theorem quietRun_free {p : QString} {s s' : PubSub} {ls : List (Event × Effect)} (hs : Free p s)
    (h : Run (QuietStep p) s ls s') : Free p s' ∧ SendsFree p s s' := by
  induction h with
  | nil s => exact ⟨hs, sendsFree_of_eq rfl⟩
  | cons h1 _ ih =>
    obtain ⟨hone, hsent⟩ := quietStep_free hs h1
    obtain ⟨hall, hmore⟩ := ih hone
    exact ⟨hall, hsent.trans hmore⟩

/-! ## A backlog that is served leaks -/

theorem exists_fresh (s : PubSub) : ∃ hdl, FreshConnection s (some hdl) := by
  obtain ⟨hdl, hnew⟩ := Infinite.exists_notMem_finset (s.connecting ++ s.clients.handles).toFinset
  simp only [List.mem_toFinset, List.mem_append, not_or] at hnew
  refine ⟨hdl, fun k hk => ?_⟩
  obtain rfl := Option.some.inj hk
  exact hnew

/-- A LISTEN message for the topic is sent between the two states. -/
def Sends (topic : QString) (s s' : PubSub) : Prop :=
  ∃ more hdl msg, s'.sent = s.sent ++ more ∧ (hdl, PubSubSent.listen msg) ∈ more ∧ topic ∈ msg.topics

theorem onConnectionOpen_sent (s : PubSub) (hdl : Handle) (con : GetConnection) :
    (s.onConnectionOpen hdl con).sent = s.sent ++ [(hdl, .listen s.backlogMessage)] := by
  obtain ⟨client, -, hrun⟩ := onConnectionOpen_cases s hdl con
  rw [hrun]
  split
  · rfl
  · exact addClient_sent _ con

theorem onConnectionOpen_requests (s : PubSub) (hdl : Handle) (con : GetConnection) :
    (s.onConnectionOpen hdl con).requests
      = s.requests.drop (min s.requests.length PubSubClient.maxListens) := by
  obtain ⟨client, -, hrun⟩ := onConnectionOpen_cases s hdl con
  rw [hrun]
  split
  · rfl
  · exact addClient_requests _ con

/-- Connections that open take the backlog from the front, so every topic gets its turn. -/
theorem leak_of_connecting {p topic : QString} : ∀ (n : Nat) {s : PubSub}, s.requests.length ≤ n →
    Inv s → Queue s → s.connecting ≠ [] → topic ∈ s.requests →
    ∃ ms t, Run (QuietStep p) s ms t ∧ Sends topic s t
  | 0, s, hlen, _, _, _, htopic => by
    rw [List.length_eq_zero_iff.mp (Nat.le_zero.mp hlen)] at htopic
    exact absurd htopic List.not_mem_nil
  | n + 1, s, hlen, hs, hq, hne, htopic => by
    obtain ⟨hdl, hmem⟩ := List.exists_mem_of_ne_nil _ hne
    obtain ⟨fresh, hfresh⟩ := exists_fresh s
    let s₁ : PubSub := { s with connecting := s.connecting.erase hdl }
    let s₂ : PubSub := s₁.onConnectionOpen hdl (some fresh)
    have hstep : Step s (.connectionOpen hdl (some fresh), {}) s₂ := by
      show s.step _ = _
      simp only [step]
      rw [if_pos ⟨hmem, hfresh⟩]
    have hquiet : QuietStep p s (.connectionOpen hdl (some fresh), {}) s₂ :=
      ⟨hstep, fun _ h => absurd h List.not_mem_nil⟩
    have hsent : s₂.sent = s.sent ++ [(hdl, .listen s₁.backlogMessage)] :=
      onConnectionOpen_sent s₁ hdl (some fresh)
    have hreq : s₂.requests = s.requests.drop (min s.requests.length PubSubClient.maxListens) :=
      onConnectionOpen_requests s₁ hdl (some fresh)
    by_cases htaken : topic ∈ s₁.backlogMessage.topics
    · exact ⟨_, _, .single hquiet, _, hdl, _, hsent, List.mem_singleton_self _, htaken⟩
    · have hleft : topic ∈ s₂.requests := by
        rw [← List.take_append_drop (min s.requests.length PubSubClient.maxListens) s.requests,
          List.mem_append] at htopic
        rw [hreq]
        exact htopic.resolve_left htaken
      have hlen' : s₂.requests.length ≤ n := by
        have hpos : 0 < min s.requests.length PubSubClient.maxListens :=
          Nat.lt_min.mpr ⟨List.length_pos_of_mem htopic, by decide⟩
        rw [hreq, List.length_drop]
        omega
      obtain ⟨hq', hstuck⟩ := step_queue hs hq hstep
      -- the step asked for a connection and got one
      have hne' : s₂.connecting ≠ [] := by
        intro hnil
        have hadd : s₂.addingClient = false := by
          by_contra hadd
          rcases hstuck.mp ⟨by simpa using hadd, hnil⟩ with hst | hce
          · exact hne hst.2
          · cases hce.2
        obtain ⟨client, -, hrun⟩ := onConnectionOpen_cases s₁ hdl (some fresh)
        by_cases hempty : (s₁.opened hdl client).requests.isEmpty
        · have hnone : s₂.requests = [] := by
            rw [hreq]
            exact List.isEmpty_iff.mp hempty
          rw [hnone] at hleft
          exact List.not_mem_nil hleft
        · rw [if_neg hempty] at hrun
          have hflag := addClient_addingClient (s₁.opened hdl client) (some fresh)
          rw [← hrun] at hflag
          rw [show s₂.addingClient = _ from hflag] at hadd
          cases hadd
      obtain ⟨ms, t, hrun, more, hdl', msg, hmore, hmsg, hin⟩ :=
        leak_of_connecting n hlen' (step_inv s _ s₂ hs hstep) hq' hne' hleft
      refine ⟨_, t, .cons hquiet hrun, [(hdl, .listen s₁.backlogMessage)] ++ more, hdl', msg, ?_,
        List.mem_append_right _ hmsg, hin⟩
      rw [hmore, hsent, List.append_assoc]

/-- A backlog that is not stuck is served when the environment lets connections open. -/
theorem leak_of_not_stuck {p topic : QString} {s : PubSub} (hs : Inv s) (hq : Queue s)
    (hst : ¬ Stuck s) (htopic : topic ∈ s.requests) :
    ∃ ms t, Run (QuietStep p) s ms t ∧ Sends topic s t := by
  by_cases hne : s.connecting = []
  · have hadd : s.addingClient = false := by
      by_contra hadd
      exact hst ⟨by simpa using hadd, hne⟩
    have htimer : s.retryTimers ≠ [] :=
      (hq.due (List.ne_nil_of_mem htopic)).resolve_left (by simp [hadd])
    obtain ⟨fresh, hfresh⟩ := exists_fresh s
    let s₁ : PubSub := { s with retryTimers := s.retryTimers.eraseIdx 0 }
    have hstep : Step s (.retryTimer 0 (some fresh), {}) (s₁.addClient (some fresh)) := by
      show s.step _ = _
      simp only [step]
      rw [if_pos ⟨List.length_pos_iff.mpr htimer, hfresh⟩]
    have hconn : (s₁.addClient (some fresh)).connecting ≠ [] := by
      rw [addClient_connecting, if_neg (by simp [s₁, hadd])]
      simp
    obtain ⟨ms, t, hrun, more, hdl, msg, hmore, hin⟩ := leak_of_connecting (p := p) _ (Nat.le_refl _)
      (step_inv s _ _ hs hstep) (step_queue hs hq hstep).1 hconn
      (by rw [addClient_requests]; exact htopic)
    refine ⟨_, t, .cons ⟨hstep, fun _ h => absurd h List.not_mem_nil⟩ hrun, more, hdl, msg, ?_, hin⟩
    rw [hmore, addClient_sent]
  · exact leak_of_connecting _ (Nat.le_refl _) hs hq hne htopic

/-! ## The calls -/

theorem unlistened_eq {s s' : PubSub} {e : Event} {eff : Effect} {p : QString} (hs : Inv s)
    (hp : e.unlistenedPrefix = some p) (h : s.step e = some (s', eff)) :
    ClientsFree p s' ∧ s'.requests = s.requests ∧ (Stuck s' ↔ Stuck s) := by
  have hloop : s' = (unlistenLoop p s.clients s).1 := by
    cases e with
    | unlistenAllModerationActions | unlistenAutomod | unlistenWhispers =>
      cases hp
      cases h
      rfl
    | _ => exact nomatch hp
  obtain ⟨msgs, -, heq⟩ := unlistenLoop_eq p s.clients [] s rfl hs.handles
  rw [hloop, heq]
  refine ⟨?_, rfl, Iff.rfl⟩
  intro topic ht
  obtain ⟨q, hq, ht⟩ := mem_topics.mp ht
  rw [List.nil_append] at hq
  obtain ⟨q, -, rfl⟩ := List.mem_map.mp hq
  exact PubSubClient.unlistenPrefix_free q.2 p topic ht

/--
**Unlistening is final** exactly if no topic with the prefix waits in the backlog, or the backlog is
stuck: then, whatever happens except that a caller asks for such a topic, no client has one and no
LISTEN message is sent for one.
-/
theorem unlisten_final_iff {s s' : PubSub} {ls : List (Event × Effect)} {e : Event} {eff : Effect}
    {p : QString} (hrun : Run Step new ls s) (hp : e.unlistenedPrefix = some p)
    (h : s.step e = some (s', eff)) :
    (∀ ms t, Run (QuietStep p) s' ms t → ClientsFree p t ∧ SendsFree p s' t) ↔
      (∀ topic ∈ s.requests, topic.startsWith p = false) ∨ Stuck s := by
  have hinv : ∀ s l s', Inv s ∧ Queue s → Step s l s' → Inv s' ∧ Queue s' :=
    fun s l s' hs hstep => ⟨step_inv s l s' hs.1 hstep, (step_queue hs.1 hs.2 hstep).1⟩
  obtain ⟨hs, hq⟩ := hrun.invariant hinv ⟨inv_new, queue_new⟩
  obtain ⟨hs', hq'⟩ := hinv s (e, eff) s' ⟨hs, hq⟩ h
  obtain ⟨hfree, hreq, hstuck⟩ := unlistened_eq hs hp h
  constructor
  · intro hfinal
    by_contra hnot
    rw [not_or] at hnot
    obtain ⟨hwaits, hst⟩ := hnot
    simp only [not_forall] at hwaits
    obtain ⟨topic, htopic, hprefix⟩ := hwaits
    rw [← hreq] at htopic
    rw [← hstuck] at hst
    obtain ⟨ms, t, hleak, more, hdl, msg, hmore, hmsg, hin⟩ :=
      leak_of_not_stuck (p := p) hs' hq' hst htopic
    obtain ⟨-, more', hmore', hclean⟩ := hfinal ms t hleak
    rw [hmore, List.append_right_inj] at hmore'
    exact hprefix (hclean hdl msg (hmore' ▸ hmsg) topic hin)
  · intro hback ms t hms
    rw [← hreq, ← hstuck] at hback
    obtain ⟨hend, hsent⟩ := quietRun_free ⟨hs', hq', hfree, hback⟩ hms
    exact ⟨hend.clients, hsent⟩

/-- A topic that a connection has already is gone for good. -/
theorem unlisten_final_iff_served :
    let events : List Event :=
      [.setAccountData [] ['u'], .listenToWhispers (some 0), .connectionOpen 0 none]
    ∃ s effects, exec step new events = some (s, effects) ∧
      s.clients.topics = {"whispers.u".toList} ∧
      ∀ ms t, Run (QuietStep "whispers.".toList) s.unlistenWhispers.1 ms t →
        ClientsFree "whispers.".toList t ∧ SendsFree "whispers.".toList s.unlistenWhispers.1 t := by
  intro events
  obtain ⟨s, effects, hexec, hreq, htopics⟩ : ∃ s effects,
      exec step new events = some (s, effects) ∧ s.requests = [] ∧
        s.clients.topics = {"whispers.u".toList} := ⟨_, _, rfl, rfl, rfl⟩
  refine ⟨s, effects, hexec, htopics, ?_⟩
  have hrun : Run Step new (events.zip effects) s := Run.of_exec hexec
  refine (unlisten_final_iff (e := .unlistenWhispers) hrun rfl rfl).mpr (Or.inl ?_)
  rw [hreq]
  exact fun _ h => absurd h List.not_mem_nil

/-- A topic that waits in the backlog is subscribed to after it was unlistened from. -/
theorem unlisten_forgets_backlog :
    ¬ ∀ (ls : List (Event × Effect)) (s s' : PubSub) (e : Event) (eff : Effect) (p : QString),
      Run Step new ls s → e.unlistenedPrefix = some p → s.step e = some (s', eff) →
        ∀ ms t, Run (QuietStep p) s' ms t → ClientsFree p t ∧ SendsFree p s' t := by
  intro hall
  let events : List Event := [.setAccountData [] ['u'], .listenToWhispers (some 0)]
  obtain ⟨s, effects, hexec, htopics⟩ : ∃ s effects, exec step new events = some (s, effects) ∧
      "whispers.u".toList ∈ ({ s.unlistenWhispers.1 with connecting := [] }.onConnectionOpen
        0 none).clients.topics ∧ s.unlistenWhispers.1.connecting = [0] :=
    ⟨_, _, rfl, Multiset.mem_singleton_self _, rfl⟩
  obtain ⟨htopics, hconn⟩ := htopics
  have hrun : Run Step new (events.zip effects) s := Run.of_exec hexec
  let t : PubSub := { s.unlistenWhispers.1 with connecting := [] }.onConnectionOpen 0 none
  have hopen : QuietStep "whispers.".toList s.unlistenWhispers.1 (.connectionOpen 0 none, {}) t := by
    refine ⟨?_, fun _ h => absurd h List.not_mem_nil⟩
    show PubSub.step _ _ = _
    simp only [step]
    rw [if_pos ⟨by rw [hconn]; exact List.mem_singleton_self _, fun _ h => (by cases h)⟩, hconn]
    rfl
  have hfinal := hall _ s s.unlistenWhispers.1 .unlistenWhispers _ "whispers.".toList hrun rfl rfl _ t
    (.single hopen)
  exact absurd (hfinal.1 _ htopics) (by decide)

end PubSub

end Dankerino
