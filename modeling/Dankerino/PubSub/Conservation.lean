import Dankerino.Infra.Run
import Dankerino.PubSub.Manager
import Mathlib.Algebra.Order.Group.Multiset

/-!
# No topic is lost

Topics wander between the backlog and the clients: a new connection takes up to
`PubSubClient.maxListens` of them from the backlog, and a closed one hands its topics to the
other clients or back to the backlog. `PubSub.topics` is the multiset of all of them.

One step changes `PubSub.topics` by what callers asked for and what `unlistenPrefix` returned,
and by nothing else (`step_topics`). Over runs this is `run_topics_conserved`. The handles in the
map have to be distinct for that, and different from the attempts under way, and the counters of
the clients have to be right, or a new client could refuse its topics. This is `Inv`.
-/

namespace Dankerino

open Infra

/-! ## The map of clients -/

namespace ClientMap

def handles (clients : ClientMap) : List Handle := clients.map Prod.fst

/-- The topics of all clients. -/
def topics (clients : ClientMap) : Multiset QString :=
  (clients.map fun p => (p.2.topics : Multiset QString)).sum

@[simp] theorem topics_nil : topics [] = 0 := rfl

@[simp] theorem topics_cons (p : Handle × PubSubClient) (clients : ClientMap) :
    topics (p :: clients) = (p.2.topics : Multiset QString) + topics clients := rfl

theorem mem_of_find {clients : ClientMap} {hdl : Handle} {c : PubSubClient}
    (h : clients.find hdl = some c) : (hdl, c) ∈ clients := by
  induction clients with
  | nil => exact nomatch h
  | cons p rest ih =>
    obtain ⟨k, d⟩ := p
    unfold find at h
    rw [List.lookup_cons] at h
    split at h
    · next hk =>
      rw [beq_iff_eq] at hk
      rw [hk, Option.some.inj h]
      exact List.mem_cons_self
    · exact List.mem_cons_of_mem _ (ih h)

theorem find_of_mem {clients : ClientMap} (hnd : clients.handles.Nodup) {hdl : Handle}
    {c : PubSubClient} (h : (hdl, c) ∈ clients) : clients.find hdl = some c := by
  induction clients with
  | nil => exact nomatch h
  | cons p rest ih =>
    obtain ⟨k, d⟩ := p
    rw [handles, List.map_cons, List.nodup_cons] at hnd
    unfold find
    rw [List.lookup_cons]
    rcases List.mem_cons.mp h with heq | hmem
    · cases heq
      simp
    · have hne : hdl ≠ k := by
        rintro rfl
        exact hnd.1 (List.mem_map.mpr ⟨_, hmem, rfl⟩)
      rw [beq_eq_false_iff_ne.mpr hne]
      exact ih hnd.2 hmem

theorem emplace_handles (hdl : Handle) (c : PubSubClient) (clients : ClientMap)
    (h : hdl ∉ clients.handles) : ((clients.emplace hdl c).handles).Perm (hdl :: clients.handles) := by
  induction clients with
  | nil => exact List.Perm.refl _
  | cons p rest ih =>
    obtain ⟨k, d⟩ := p
    have hk : hdl ≠ k ∧ hdl ∉ handles rest := by simpa [handles] using h
    unfold emplace
    split
    · exact List.Perm.refl _
    · rw [if_neg hk.1]
      exact (List.Perm.cons k (ih hk.2)).trans (List.Perm.swap _ _ _)

theorem emplace_topics (hdl : Handle) (c : PubSubClient) (clients : ClientMap)
    (h : hdl ∉ clients.handles) :
    (clients.emplace hdl c).topics = (c.topics : Multiset QString) + clients.topics := by
  induction clients with
  | nil => rfl
  | cons p rest ih =>
    obtain ⟨k, d⟩ := p
    have hk : hdl ≠ k ∧ hdl ∉ handles rest := by simpa [handles] using h
    unfold emplace
    split
    · rfl
    · rw [if_neg hk.1, topics_cons, topics_cons, ih hk.2, add_left_comm]

theorem mem_emplace {hdl : Handle} {c : PubSubClient} {clients : ClientMap}
    {p : Handle × PubSubClient} (h : p ∈ clients.emplace hdl c) : p = (hdl, c) ∨ p ∈ clients := by
  induction clients with
  | nil => exact Or.inl (by simpa [emplace] using h)
  | cons q rest ih =>
    unfold emplace at h
    split at h
    · exact (List.mem_cons.mp h).imp id id
    · split at h
      · exact Or.inr h
      · rcases List.mem_cons.mp h with heq | hmem
        · exact Or.inr (heq ▸ List.mem_cons_self)
        · exact (ih hmem).imp id (List.mem_cons_of_mem _)

theorem mem_emplace_self {hdl : Handle} {c : PubSubClient} {clients : ClientMap}
    (h : hdl ∉ clients.handles) : (hdl, c) ∈ clients.emplace hdl c := by
  induction clients with
  | nil => exact List.mem_cons_self
  | cons p rest ih =>
    obtain ⟨k, d⟩ := p
    have hk : hdl ≠ k ∧ hdl ∉ handles rest := by simpa [handles] using h
    unfold emplace
    split
    · exact List.mem_cons_self
    · rw [if_neg hk.1]
      exact List.mem_cons_of_mem _ (ih hk.2)

@[simp] theorem update_handles (hdl : Handle) (c : PubSubClient) (clients : ClientMap) :
    (clients.update hdl c).handles = clients.handles := by
  simp only [handles, update, List.map_map]
  refine List.map_congr_left fun p _ => ?_
  simp only [Function.comp]
  split <;> rfl

theorem mem_update {hdl : Handle} {c : PubSubClient} {clients : ClientMap}
    {p : Handle × PubSubClient} (h : p ∈ clients.update hdl c) : p = (hdl, c) ∨ p ∈ clients := by
  obtain ⟨q, hq, rfl⟩ := List.mem_map.mp h
  split
  · next heq => exact Or.inl (by rw [heq])
  · exact Or.inr hq

theorem update_of_not_mem {hdl : Handle} (c : PubSubClient) {clients : ClientMap}
    (h : hdl ∉ clients.handles) : clients.update hdl c = clients := by
  refine (List.map_congr_left fun p hp => ?_).trans (List.map_id _)
  have hne : p.1 ≠ hdl := fun he => h (he ▸ List.mem_map_of_mem hp)
  rw [if_neg hne, id]

theorem topics_append (clients clients' : ClientMap) :
    topics (clients ++ clients') = topics clients + topics clients' := by
  rw [topics, List.map_append, List.sum_append]
  rfl

/-- A client that is found stands between others, which have other handles. -/
theorem find_cut {clients : ClientMap} (hnd : clients.handles.Nodup) {hdl : Handle} {c : PubSubClient}
    (h : clients.find hdl = some c) : ∃ before after, clients = before ++ (hdl, c) :: after ∧
      hdl ∉ handles before ∧ hdl ∉ handles after := by
  obtain ⟨before, after, rfl⟩ := List.append_of_mem (mem_of_find h)
  rw [handles, List.map_append, List.map_cons, List.nodup_middle, List.nodup_cons, List.mem_append,
    not_or] at hnd
  exact ⟨before, after, rfl, hnd.1⟩

/-- Changing one client changes the topics by what that client changed. -/
theorem update_topics {clients : ClientMap} (hnd : clients.handles.Nodup) {hdl : Handle}
    {c : PubSubClient} (h : clients.find hdl = some c) (c' : PubSubClient) :
    (clients.update hdl c').topics + (c.topics : Multiset QString)
      = clients.topics + (c'.topics : Multiset QString) := by
  obtain ⟨before, after, rfl, hbefore, hafter⟩ := find_cut hnd h
  have hup : update (before ++ (hdl, c) :: after) hdl c' = before ++ (hdl, c') :: after := by
    rw [update, List.map_append, List.map_cons, if_pos rfl]
    show update before hdl c' ++ (hdl, c') :: update after hdl c' = _
    rw [update_of_not_mem c' hbefore, update_of_not_mem c' hafter]
  rw [hup, topics_append, topics_append, topics_cons, topics_cons]
  dsimp only
  ac_rfl

theorem erase_topics {clients : ClientMap} (hnd : clients.handles.Nodup) {hdl : Handle}
    {c : PubSubClient} (h : clients.find hdl = some c) :
    (clients.erase hdl).topics + (c.topics : Multiset QString) = clients.topics := by
  obtain ⟨before, after, rfl, hbefore, hafter⟩ := find_cut hnd h
  have hkeep {rest : ClientMap} (hrest : hdl ∉ handles rest) : erase rest hdl = rest := by
    refine List.filter_eq_self.mpr fun q hq => ?_
    have hne : q.1 ≠ hdl := fun he => hrest (he ▸ List.mem_map_of_mem hq)
    simpa using hne
  have her : erase (before ++ (hdl, c) :: after) hdl = before ++ after := by
    rw [erase, List.filter_append, List.filter_cons_of_neg (by simp)]
    show erase before hdl ++ erase after hdl = _
    rw [hkeep hbefore, hkeep hafter]
  rw [her, topics_append, topics_append, topics_cons]
  dsimp only
  ac_rfl

theorem erase_handles (hdl : Handle) (clients : ClientMap) :
    (clients.erase hdl).handles.Sublist clients.handles :=
  List.filter_sublist.map _

end ClientMap

namespace PubSub

open ClientMap

/-- All topics: those of the clients and the backlog. -/
def topics (s : PubSub) : Multiset QString := s.clients.topics + (s.requests : Multiset QString)

/-! ## The invariant -/

structure Inv (s : PubSub) : Prop where
  counted : ∀ p ∈ s.clients, p.2.Counted
  handles : s.clients.handles.Nodup
  connecting : s.connecting.Nodup
  apart : ∀ hdl ∈ s.connecting, hdl ∉ s.clients.handles
  running : s.stopping = false

theorem inv_new : Inv new :=
  ⟨fun _ h => (List.not_mem_nil h).elim, List.nodup_nil, List.nodup_nil,
    fun _ h => (List.not_mem_nil h).elim, rfl⟩

/-- `addClient` would not need `get_connection`, or its answer is usable. -/
def ConnectionOk (s : PubSub) (con : GetConnection) : Prop :=
  s.addingClient = true ∨ FreshConnection s con

/-! ## `addClient` -/

theorem addClient_topics (s : PubSub) (con : GetConnection) : (s.addClient con).topics = s.topics := by
  unfold addClient
  split
  · rfl
  · cases con <;> rfl

theorem addClient_addingClient (s : PubSub) (con : GetConnection) :
    (s.addClient con).addingClient = true := by
  unfold addClient
  split
  · next h => exact h
  · cases con <;> rfl

theorem addClient_inv {s : PubSub} {con : GetConnection} (hs : Inv s) (hcon : ConnectionOk s con) :
    Inv (s.addClient con) := by
  unfold addClient
  split
  · exact hs
  · next hadd =>
    cases con with
    | none => exact ⟨hs.counted, hs.handles, hs.connecting, hs.apart, hs.running⟩
    | some hdl =>
      obtain ⟨hnew, hkeys⟩ := hcon.resolve_left hadd hdl rfl
      refine ⟨hs.counted, hs.handles, ?_, ?_, hs.running⟩
      · exact List.nodup_append.mpr ⟨hs.connecting, List.nodup_singleton _,
          fun a ha b hb => by rw [List.mem_singleton.mp hb]; rintro rfl; exact hnew ha⟩
      · intro h hh
        rcases List.mem_append.mp hh with hh | hh
        · exact hs.apart h hh
        · rw [List.mem_singleton.mp hh]
          exact hkeys

/-! ## `listen` -/

theorem tryListenLoop_spec {msg : PubSubListenMessage} : ∀ {clients : ClientMap}
    {r : Handle × ClientMap}, tryListenLoop msg clients = some r →
    r.2.handles = clients.handles ∧
      r.2.topics = clients.topics + (msg.topics : Multiset QString) ∧
      ((∀ p ∈ clients, p.2.Counted) → ∀ p ∈ r.2, p.2.Counted)
  | [], _, h => nomatch h
  | (k, c) :: rest, r, h => by
    unfold tryListenLoop at h
    split at h
    · next c' hc =>
      cases h
      refine ⟨rfl, ?_, ?_⟩
      · rw [topics_cons, topics_cons, PubSubClient.listen_topics hc, ← Multiset.coe_add]
        ac_rfl
      · intro hall p hp
        rcases List.mem_cons.mp hp with rfl | hp
        · exact PubSubClient.listen_counted (hall _ List.mem_cons_self) hc
        · exact hall p (List.mem_cons_of_mem _ hp)
    · obtain ⟨⟨k', rest'⟩, hrest, rfl⟩ := Option.map_eq_some_iff.mp h
      obtain ⟨hh, ht, hc⟩ := tryListenLoop_spec hrest
      simp only [] at hh ht hc ⊢
      refine ⟨?_, ?_, ?_⟩
      · show k :: handles rest' = k :: handles rest
        rw [hh]
      · rw [topics_cons, topics_cons, ht, add_assoc]
      · intro hall p hp
        rcases List.mem_cons.mp hp with rfl | hp
        · exact hall _ List.mem_cons_self
        · exact hc (fun q hq => hall q (List.mem_cons_of_mem _ hq)) p hp

/-- What `listen` does: the topics of the message are added, the invariant stays. -/
theorem listen_spec {s : PubSub} {con : GetConnection} (msg : PubSubListenMessage) (hs : Inv s)
    (hcon : ConnectionOk s con) :
    (s.listen msg con).topics = s.topics + (msg.topics : Multiset QString) ∧
      Inv (s.listen msg con) ∧ ConnectionOk (s.listen msg con) con := by
  unfold listen
  split
  · next s' h =>
    obtain ⟨⟨hdl, clients⟩, hloop, rfl⟩ := Option.map_eq_some_iff.mp h
    obtain ⟨hh, ht, hc⟩ := tryListenLoop_spec hloop
    simp only [] at hh ht hc ⊢
    refine ⟨?_, ⟨hc hs.counted, ?_, hs.connecting, ?_, hs.running⟩, ?_⟩
    · show clients.topics + _ = s.clients.topics + _ + _
      rw [ht]
      ac_rfl
    · show clients.handles.Nodup
      rw [hh]
      exact hs.handles
    · intro h' hh'
      show h' ∉ clients.handles
      rw [hh]
      exact hs.apart h' hh'
    · refine hcon.imp id fun hf h' hh' => ?_
      obtain ⟨h1, h2⟩ := hf h' hh'
      refine ⟨h1, ?_⟩
      show h' ∉ clients.handles
      rw [hh]
      exact h2
  · obtain ⟨h1, h2, h3, h4, h5⟩ := addClient_inv hs hcon
    refine ⟨?_, ⟨h1, h2, h3, h4, h5⟩, Or.inl (addClient_addingClient s con)⟩
    have ht := addClient_topics s con
    show (s.addClient con).clients.topics
      + (((s.addClient con).requests ++ msg.topics : List QString) : Multiset QString) = _
    rw [← Multiset.coe_add, ← add_assoc]
    exact congrArg (· + (msg.topics : Multiset QString)) ht

theorem listenToTopic_spec {s : PubSub} {con : GetConnection} (topic : QString) (hs : Inv s)
    (hcon : ConnectionOk s con) :
    (s.listenToTopic topic con).topics = s.topics + {topic} ∧
      Inv (s.listenToTopic topic con) ∧ ConnectionOk (s.listenToTopic topic con) con :=
  listen_spec _ hs hcon

theorem relisten_spec {con : GetConnection} : ∀ (ls : List Listener) {s : PubSub}, Inv s →
    ConnectionOk s con →
    (relisten con ls s).topics = s.topics + (ls.map Listener.topic : List QString) ∧
      Inv (relisten con ls s)
  | [], s, hs, _ => ⟨by simp [relisten], hs⟩
  | l :: rest, s, hs, hcon => by
    obtain ⟨h1, h2, h3⟩ := listenToTopic_spec l.topic hs hcon
    obtain ⟨h4, h5⟩ := relisten_spec rest h2 h3
    refine ⟨?_, h5⟩
    show (relisten con rest (s.listenToTopic l.topic con)).topics = _
    rw [h4, h1, add_assoc, List.map_cons, ← Multiset.cons_coe, ← Multiset.singleton_add]

/-! ## `unlistenPrefix` -/

theorem unlistenPrefixOn_spec {s : PubSub} (hs : Inv s) {hdl : Handle} {c : PubSubClient}
    (hfind : s.clients.find hdl = some c) (p : QString) :
    (s.unlistenPrefixOn hdl c p).1.topics + ((s.unlistenPrefixOn hdl c p).2 : Multiset QString)
        = s.topics ∧ Inv (s.unlistenPrefixOn hdl c p).1 := by
  have hup := update_topics hs.handles hfind (c.unlistenPrefix p).1
  have hperm : ((c.unlistenPrefix p).1.topics : Multiset QString)
      + ((c.unlistenPrefix p).2 : Multiset QString) = (c.topics : Multiset QString) :=
    Multiset.coe_eq_coe.mpr (PubSubClient.unlistenPrefix_topics c p)
  constructor
  · show (s.clients.update hdl (c.unlistenPrefix p).1).topics + (s.requests : Multiset QString)
      + ((c.unlistenPrefix p).2 : Multiset QString) = s.clients.topics + (s.requests : Multiset QString)
    have hcancel : (s.clients.update hdl (c.unlistenPrefix p).1).topics
        + ((c.unlistenPrefix p).2 : Multiset QString) = s.clients.topics := by
      rw [← hperm] at hup
      refine add_right_cancel (b := ((c.unlistenPrefix p).1.topics : Multiset QString)) ?_
      rw [← hup]
      ac_rfl
    rw [add_right_comm, hcancel]
  · refine ⟨?_, ?_, hs.connecting, ?_, hs.running⟩
    · intro q hq
      rcases mem_update hq with rfl | hq
      · exact PubSubClient.unlistenPrefix_counted (hs.counted _ (mem_of_find hfind)) p
      · exact hs.counted q hq
    · show (s.clients.update hdl _).handles.Nodup
      rw [update_handles]
      exact hs.handles
    · intro h hh
      show h ∉ (s.clients.update hdl _).handles
      rw [update_handles]
      exact hs.apart h hh

/-- The clients that the loop has not reached yet are still as they were. -/
theorem unlistenLoop_spec (p : QString) : ∀ (rest : ClientMap) {s : PubSub}, Inv s →
    rest.handles.Nodup → (∀ q ∈ rest, q ∈ s.clients) →
    (unlistenLoop p rest s).1.topics + ((unlistenLoop p rest s).2 : Multiset QString) = s.topics ∧
      Inv (unlistenLoop p rest s).1
  | [], s, hs, _, _ => ⟨by simp [unlistenLoop], hs⟩
  | (hdl, c) :: rest, s, hs, hnd, hmem => by
    rw [handles, List.map_cons, List.nodup_cons] at hnd
    have hfind := find_of_mem hs.handles (hmem _ List.mem_cons_self)
    obtain ⟨h1, h2⟩ := unlistenPrefixOn_spec hs hfind p
    have hrest : ∀ q ∈ rest, q ∈ (s.unlistenPrefixOn hdl c p).1.clients := by
      intro q hq
      have hne : q.1 ≠ hdl := fun he => hnd.1 (List.mem_map.mpr ⟨q, hq, he⟩)
      exact List.mem_map.mpr ⟨q, hmem q (List.mem_cons_of_mem _ hq), if_neg hne⟩
    obtain ⟨h3, h4⟩ := unlistenLoop_spec p rest h2 hnd.2 hrest
    refine ⟨?_, h4⟩
    show (unlistenLoop p rest (s.unlistenPrefixOn hdl c p).1).1.topics
      + (((s.unlistenPrefixOn hdl c p).2 ++ (unlistenLoop p rest (s.unlistenPrefixOn hdl c p).1).2
          : List QString) : Multiset QString) = s.topics
    rw [← Multiset.coe_add, add_comm (Multiset.ofList (s.unlistenPrefixOn hdl c p).2), ← add_assoc,
      h3, h1]

/-! ## Connection events -/

/-- The message with which a new client asks for the front of the backlog. -/
def backlogMessage (s : PubSub) : PubSubListenMessage where
  topics := s.requests.take (min s.requests.length PubSubClient.maxListens)
  token := s.token

/-- The state after a connection opened, before a further one is asked for. -/
def opened (s : PubSub) (hdl : Handle) (client : PubSubClient) : PubSub := { s with
  addingClient := false
  connectBackoff := .new
  clients := (s.clients.emplace hdl .new).update hdl client
  requests := s.requests.drop (min s.requests.length PubSubClient.maxListens)
  sent := s.sent ++ [(hdl, .listen s.backlogMessage)] }

/-- A new client has room for what it takes. -/
theorem onConnectionOpen_cases (s : PubSub) (hdl : Handle) (con : GetConnection) :
    ∃ client, PubSubClient.new.listen s.backlogMessage = some client ∧
      s.onConnectionOpen hdl con = if (s.opened hdl client).requests.isEmpty then s.opened hdl client
        else (s.opened hdl client).addClient con := by
  obtain ⟨client, hclient⟩ : ∃ client, PubSubClient.new.listen s.backlogMessage = some client :=
    PubSubClient.listen_isSome PubSubClient.counted_new (by simp [PubSubClient.new, backlogMessage])
  refine ⟨client, hclient, ?_⟩
  unfold onConnectionOpen
  simp only [show PubSubClient.new.listen { topics := _, token := _ } = _ from hclient]
  rfl

theorem onConnectionOpen_spec {s : PubSub} (hs : Inv s) {hdl : Handle} {con : GetConnection}
    (hnew : hdl ∉ s.clients.handles) (hgone : hdl ∉ s.connecting)
    (hcon : FreshConnection s con) (hne : ∀ h ∈ con, h ≠ hdl) :
    (s.onConnectionOpen hdl con).topics = s.topics ∧ Inv (s.onConnectionOpen hdl con) := by
  have hkeys := emplace_handles hdl .new s.clients hnew
  have hnd : (s.clients.emplace hdl .new).handles.Nodup :=
    hkeys.nodup_iff.mpr (List.nodup_cons.mpr ⟨hnew, hs.handles⟩)
  have hfind : (s.clients.emplace hdl .new).find hdl = some .new :=
    find_of_mem hnd (mem_emplace_self hnew)
  obtain ⟨client, hclient, hrun⟩ := onConnectionOpen_cases s hdl con
  have hup := update_topics hnd hfind client
  have hnewtopics : ((PubSubClient.new.topics : List QString) : Multiset QString) = 0 := rfl
  rw [emplace_topics _ _ _ hnew, hnewtopics, zero_add, add_zero,
    PubSubClient.listen_topics hclient] at hup
  have htopics : (s.opened hdl client).topics = s.topics := by
    show ((s.clients.emplace hdl .new).update hdl client).topics + _ = s.clients.topics + _
    rw [hup, add_assoc]
    congr 1
    show ((List.take _ s.requests ++ List.drop _ s.requests : List QString) : Multiset QString) = _
    rw [List.take_append_drop]
  have hinv : Inv (s.opened hdl client) := by
    refine ⟨?_, ?_, hs.connecting, ?_, hs.running⟩
    · intro p hp
      rcases mem_update hp with rfl | hp
      · exact PubSubClient.listen_counted PubSubClient.counted_new hclient
      · rcases mem_emplace hp with rfl | hp
        · exact PubSubClient.counted_new
        · exact hs.counted p hp
    · show ((s.clients.emplace hdl .new).update hdl client).handles.Nodup
      rw [update_handles]
      exact hnd
    · intro h hh
      show h ∉ ((s.clients.emplace hdl .new).update hdl client).handles
      rw [update_handles, hkeys.mem_iff, List.mem_cons, not_or]
      exact ⟨fun he => hgone (he ▸ hh), hs.apart h hh⟩
  have hok : ConnectionOk (s.opened hdl client) con := by
    refine Or.inr fun h hh => ⟨(hcon h hh).1, ?_⟩
    show h ∉ ((s.clients.emplace hdl .new).update hdl client).handles
    rw [update_handles, hkeys.mem_iff, List.mem_cons, not_or]
    exact ⟨hne h hh, (hcon h hh).2⟩
  rw [hrun]
  split
  · exact ⟨htopics, hinv⟩
  · exact ⟨(addClient_topics _ con).trans htopics, addClient_inv hinv hok⟩

theorem onConnectionFail_spec {s : PubSub} (hs : Inv s) :
    s.onConnectionFail.topics = s.topics ∧ Inv s.onConnectionFail := by
  unfold onConnectionFail
  split <;> exact ⟨rfl, hs.counted, hs.handles, hs.connecting, hs.apart, hs.running⟩

theorem onConnectionClose_spec {s s' : PubSub} (hs : Inv s)
    {hdl : Handle} {con : GetConnection} (hcon : FreshConnection s con)
    (h : s.onConnectionClose hdl con = some s') : s'.topics = s.topics ∧ Inv s' := by
  unfold onConnectionClose at h
  split at h
  · exact nomatch h
  · next c hfind =>
    simp only [] at h
    rw [if_neg (by simp [hs.running])] at h
    rw [← Option.some.inj h]
    have hsub := erase_handles hdl s.clients
    have hinv : Inv { s with clients := s.clients.erase hdl } :=
      ⟨fun p hp => hs.counted p (List.mem_of_mem_filter hp), hs.handles.sublist hsub, hs.connecting,
        fun k hk hm => hs.apart k hk (hsub.subset hm), hs.running⟩
    obtain ⟨h1, h2⟩ := relisten_spec c.listeners hinv
      (Or.inr fun k hk => ⟨(hcon k hk).1, fun hm => (hcon k hk).2 (hsub.subset hm)⟩)
    refine ⟨?_, h2⟩
    rw [h1]
    show (s.clients.erase hdl).topics + (s.requests : Multiset QString)
      + (c.topics : Multiset QString) = _
    rw [add_right_comm, erase_topics hs.handles hfind]
    rfl

/-! ## Steps and runs -/

theorem listenUnlessListening_spec {s : PubSub} {con : GetConnection} (topic : QString)
    (hs : Inv s) (hcon : ConnectionOk s con) :
    (s.listenUnlessListening topic con).1.topics
        = s.topics + ((s.listenUnlessListening topic con).2 : Multiset QString) ∧
      Inv (s.listenUnlessListening topic con).1 := by
  unfold listenUnlessListening
  split
  · exact ⟨by simp, hs⟩
  · obtain ⟨h1, h2, -⟩ := listenToTopic_spec topic hs hcon
    exact ⟨h1, h2⟩

/-- A listening event adds the topic that was passed on, if one was. -/
theorem guardFresh_spec {s s' : PubSub} {con : GetConnection} {r : PubSub × List QString}
    {eff : Effect} (h : s.guardFresh con r = some (s', eff))
    (hr : ConnectionOk s con → r.1.topics = s.topics + (r.2 : Multiset QString) ∧ Inv r.1) :
    s'.topics + (eff.returned : Multiset QString) = s.topics + (eff.requested : Multiset QString) ∧
      Inv s' := by
  unfold guardFresh at h
  split at h
  · next hf =>
    cases h
    obtain ⟨h1, h2⟩ := hr (Or.inr hf)
    exact ⟨by simp [h1], h2⟩
  · exact nomatch h

/-- **One step.** Topics come from callers and go where `unlistenPrefix` returns them. -/
theorem step_topics {s s' : PubSub} {e : Event} {eff : Effect} (hs : Inv s)
    (h : s.step e = some (s', eff)) :
    s'.topics + (eff.returned : Multiset QString) = s.topics + (eff.requested : Multiset QString) ∧
      Inv s' := by
  cases e with
  | setAccountData token userID =>
    cases h
    exact ⟨rfl, hs.counted, hs.handles, hs.connecting, hs.apart, hs.running⟩
  | listenToTopic topic con =>
    refine guardFresh_spec h fun hcon => ?_
    obtain ⟨h1, h2, -⟩ := listenToTopic_spec topic hs hcon
    exact ⟨h1, h2⟩
  | listenToWhispers con =>
    refine guardFresh_spec h fun hcon => ?_
    unfold listenToWhispers
    split
    · exact ⟨by simp, hs⟩
    · obtain ⟨h1, h2, -⟩ := listenToTopic_spec ("whispers.".toList ++ s.userID) hs hcon
      exact ⟨h1, h2⟩
  | listenToChannelModerationActions channelID con =>
    simp only [step] at h
    split at h
    · exact nomatch h
    · refine guardFresh_spec h fun hcon => ?_
      unfold listenToChannelModerationActions
      split
      · exact ⟨by simp, hs⟩
      · exact listenUnlessListening_spec _ hs hcon
  | listenToAutomod channelID con =>
    simp only [step] at h
    split at h
    · exact nomatch h
    · refine guardFresh_spec h fun hcon => ?_
      unfold listenToAutomod
      split
      · exact ⟨by simp, hs⟩
      · exact listenUnlessListening_spec _ hs hcon
  | listenToChannelPointRewards channelID con =>
    simp only [step] at h
    split at h
    · exact nomatch h
    · exact guardFresh_spec h fun hcon => listenUnlessListening_spec _ hs hcon
  | unlistenPrefix hdl p =>
    simp only [step] at h
    split at h
    · exact nomatch h
    · next c hfind =>
      cases h
      obtain ⟨h1, h2⟩ := unlistenPrefixOn_spec hs hfind p
      exact ⟨by simpa using h1, h2⟩
  | unlistenAllModerationActions =>
    cases h
    obtain ⟨h1, h2⟩ := unlistenLoop_spec "chat_moderator_actions.".toList s.clients hs hs.handles
      fun _ hq => hq
    exact ⟨h1.trans (add_zero _).symm, h2⟩
  | unlistenAutomod =>
    cases h
    obtain ⟨h1, h2⟩ := unlistenLoop_spec "automod-queue.".toList s.clients hs hs.handles
      fun _ hq => hq
    exact ⟨h1.trans (add_zero _).symm, h2⟩
  | unlistenWhispers =>
    cases h
    obtain ⟨h1, h2⟩ := unlistenLoop_spec "whispers.".toList s.clients hs hs.handles fun _ hq => hq
    exact ⟨h1.trans (add_zero _).symm, h2⟩
  | connectionOpen hdl con =>
    simp only [step] at h
    split at h
    · next hc =>
      cases h
      obtain ⟨hmem, hfresh⟩ := hc
      have hinv : Inv { s with connecting := s.connecting.erase hdl } :=
        ⟨hs.counted, hs.handles, hs.connecting.erase hdl,
          fun k hk => hs.apart k (List.mem_of_mem_erase hk), hs.running⟩
      obtain ⟨h1, h2⟩ := onConnectionOpen_spec hinv (hs.apart hdl hmem) hs.connecting.not_mem_erase
        (fun k hk => ⟨fun hm => (hfresh k hk).1 (List.mem_of_mem_erase hm), (hfresh k hk).2⟩)
        (fun k hk he => (hfresh k hk).1 (he ▸ hmem))
      exact ⟨congrArg (· + 0) h1, h2⟩
    · exact nomatch h
  | connectionFail hdl =>
    simp only [step] at h
    split at h
    · cases h
      have hinv : Inv { s with connecting := s.connecting.erase hdl } :=
        ⟨hs.counted, hs.handles, hs.connecting.erase hdl,
          fun k hk => hs.apart k (List.mem_of_mem_erase hk), hs.running⟩
      obtain ⟨h1, h2⟩ := onConnectionFail_spec hinv
      exact ⟨congrArg (· + 0) h1, h2⟩
    · exact nomatch h
  | connectionClose hdl con =>
    simp only [step] at h
    split at h
    · next hfresh =>
      obtain ⟨s₁, hclose, heq⟩ := Option.map_eq_some_iff.mp h
      cases heq
      obtain ⟨h1, h2⟩ := onConnectionClose_spec hs hfresh hclose
      exact ⟨congrArg (· + 0) h1, h2⟩
    · exact nomatch h
  | retryTimer k con =>
    simp only [step] at h
    split at h
    · next hc =>
      cases h
      have hinv : Inv { s with retryTimers := s.retryTimers.eraseIdx k } :=
        ⟨hs.counted, hs.handles, hs.connecting, hs.apart, hs.running⟩
      refine ⟨?_, addClient_inv hinv (Or.inr hc.2)⟩
      rw [addClient_topics]
      rfl
    · exact nomatch h

theorem step_inv (s : PubSub) (l : Event × Effect) (s' : PubSub) (hs : Inv s) (h : Step s l s') :
    Inv s' :=
  (step_topics hs h).2

/-- The topics that callers passed to `listenToTopic` during a run. -/
def requested (ls : List (Event × Effect)) : Multiset QString :=
  (ls.map fun l => (l.2.requested : Multiset QString)).sum

/-- The topics that `unlistenPrefix` returned during a run. -/
def returned (ls : List (Event × Effect)) : Multiset QString :=
  (ls.map fun l => (l.2.returned : Multiset QString)).sum

/--
**No topic is lost and none is made up.** Whatever order callers and connections act in, the topics
of the clients and of the backlog are those that were asked for less those that `unlistenPrefix`
returned, and every client counts its listeners and has at most `maxListens` of them.
-/
theorem run_topics_conserved {s : PubSub} {ls : List (Event × Effect)} (h : Run Step new ls s) :
    s.topics = requested ls - returned ls ∧ returned ls ≤ requested ls ∧
      ∀ p ∈ s.clients, p.2.numListens = p.2.listeners.length ∧
        p.2.listeners.length ≤ PubSubClient.maxListens := by
  have hinv : Inv s := h.invariant step_inv inv_new
  have hbal : s.topics + returned ls = new.topics + requested ls :=
    h.balance (q := topics) step_inv (fun _ _ _ hs hstep => (step_topics hs hstep).1) inv_new
  rw [show new.topics = 0 from rfl, zero_add] at hbal
  refine ⟨?_, ?_, fun p hp => ⟨(hinv.counted p hp).count, (hinv.counted p hp).bound⟩⟩
  · rw [← hbal, add_tsub_cancel_right]
  · rw [← hbal]
    exact Multiset.le_add_left _ _

/-- A topic goes to the backlog, to a client, and back to the backlog. -/
theorem run_topics_conserved_reopen :
    ∃ s, Run Step new
        [(.listenToTopic ['a'] (some 0), { requested := [['a']] }), (.connectionOpen 0 none, {}),
          (.connectionClose 0 (some 1), {})] s ∧
      s.requests = [['a']] ∧ s.topics = {['a']} - 0 := by
  obtain ⟨s, hs, hreq⟩ : ∃ s, Run Step new
      [(.listenToTopic ['a'] (some 0), { requested := [['a']] }), (.connectionOpen 0 none, {}),
        (.connectionClose 0 (some 1), {})] s ∧ s.requests = [['a']] :=
    ⟨_, .cons rfl (.cons rfl (.cons rfl (.nil _))), rfl⟩
  exact ⟨s, hs, hreq, (run_topics_conserved hs).1⟩

end PubSub

end Dankerino
