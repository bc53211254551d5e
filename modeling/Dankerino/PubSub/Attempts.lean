import Dankerino.PubSub.Connections

/-!
# The backlog and the number of connections

`addClient` sets `addingClient` before it calls `get_connection`, and returns on an error with the
flag still set. Nothing clears the flag then, since only an attempt that opens or fails does that:
the backlog is stranded for good (`Stuck`). Without such an error the backlog is always served
(`run_served_iff`).

`maxConnections` is not looked at by any function. So a run stays below it exactly if no step asks
for one connection more (`run_limit_iff`).
-/

namespace Dankerino

open Infra

namespace PubSub

open ClientMap

/-! ## Attempts -/

/-- At most one attempt, under the flag; a backlog has the flag or a timer to wait for. -/
structure Queue (s : PubSub) : Prop where
  attempt : s.connecting ≠ [] → s.addingClient = true
  single : s.connecting.length ≤ 1
  due : s.requests ≠ [] → s.addingClient = true ∨ s.retryTimers ≠ []

/-- The flag of `addClient` is set, but no attempt is under way that could clear it. -/
def Stuck (s : PubSub) : Prop := s.addingClient = true ∧ s.connecting = []

/-- The step calls `get_connection` and gets an error. -/
def ConnectionError (s : PubSub) (e : Event) : Prop := s.NeedsConnection e ∧ e.answer = none

/-- The backlog has something to wait for, and the flag says whether an attempt is under way. -/
def Served (s : PubSub) : Prop :=
  (s.requests ≠ [] → s.connecting ≠ [] ∨ s.retryTimers ≠ []) ∧
    (s.addingClient = true ↔ s.connecting ≠ [])

theorem queue_new : Queue new :=
  ⟨fun h => absurd rfl h, Nat.zero_le _, fun h => absurd rfl h⟩

/-- Of a single attempt nothing is left when it opens or fails. -/
theorem Queue.erase_eq_nil {s : PubSub} (hq : Queue s) {hdl : Handle} (h : hdl ∈ s.connecting) :
    s.connecting.erase hdl = [] := by
  rw [← List.length_eq_zero_iff, List.length_erase_of_mem h]
  have hle := hq.single
  omega

theorem Queue.served_iff {s : PubSub} (hq : Queue s) : Served s ↔ ¬ Stuck s := by
  constructor
  · rintro ⟨-, hflag⟩ ⟨hadd, hnil⟩
    exact hflag.mp hadd hnil
  · intro hns
    have hflag : s.addingClient = true → s.connecting ≠ [] := fun hadd hnil => hns ⟨hadd, hnil⟩
    exact ⟨fun hreq => (hq.due hreq).imp_left hflag, hflag, hq.attempt⟩

theorem addClient_queue {s : PubSub} (hatt : s.connecting ≠ [] → s.addingClient = true)
    (hone : s.connecting.length ≤ 1) (con : GetConnection) : Queue (s.addClient con) := by
  refine ⟨fun _ => addClient_addingClient s con, ?_, fun _ => Or.inl (addClient_addingClient s con)⟩
  rw [addClient_connecting]
  split
  · exact hone
  · next hadd =>
    have hnil : s.connecting = [] := by
      by_contra hne
      exact hadd (hatt hne)
    rw [hnil, List.nil_append]
    cases con with
    | none => exact Nat.zero_le _
    | some hdl => exact Nat.le_refl _

/-- `addClient` strands the backlog by an error, if it gets so far. -/
theorem addClient_stuck {s : PubSub} (hatt : s.connecting ≠ [] → s.addingClient = true)
    (con : GetConnection) :
    Stuck (s.addClient con) ↔ Stuck s ∨ s.addingClient = false ∧ con = none := by
  unfold Stuck
  rw [addClient_addingClient, addClient_connecting]
  cases hadd : s.addingClient with
  | true => simp
  | false =>
    have hnil : s.connecting = [] := by
      by_contra hne
      rw [hatt hne] at hadd
      exact nomatch hadd
    cases con <;> simp [hnil]

theorem opened_requests (s : PubSub) (hdl : Handle) (client : PubSubClient) :
    (s.opened hdl client).requests.isEmpty = true ↔ s.requests.length ≤ PubSubClient.maxListens := by
  rw [List.isEmpty_iff]
  show s.requests.drop _ = [] ↔ _
  rw [List.drop_eq_nil_iff]
  omega

/-- **One step** keeps the queue in order, and strands the backlog exactly by an error. -/
theorem step_queue {s s' : PubSub} {e : Event} {eff : Effect} (hs : Inv s) (hq : Queue s)
    (h : s.step e = some (s', eff)) :
    Queue s' ∧ (Stuck s' ↔ Stuck s ∨ s.ConnectionError e) := by
  cases step_does hs h with
  | opened hdl con he hmem hcon =>
    subst he
    have hnil := hq.erase_eq_nil hmem
    have hns : ¬ Stuck s := fun hst => List.ne_nil_of_mem hmem hst.2
    let s₁ : PubSub := { s with connecting := s.connecting.erase hdl }
    obtain ⟨client, -, hrun⟩ := onConnectionOpen_cases s₁ hdl con
    have hatt : (s₁.opened hdl client).connecting ≠ [] → (s₁.opened hdl client).addingClient = true :=
      fun hne => absurd hnil hne
    have hone : (s₁.opened hdl client).connecting.length ≤ 1 := by
      show (s.connecting.erase hdl).length ≤ 1
      simp [hnil]
    have hrest := opened_requests s₁ hdl client
    rw [show PubSub.onConnectionOpen { s with connecting := s.connecting.erase hdl } hdl con = _ from hrun]
    split
    · next hempty =>
      refine ⟨⟨hatt, hone, fun hreq => absurd (List.isEmpty_iff.mp hempty) hreq⟩, ?_⟩
      have hle : s.requests.length ≤ PubSubClient.maxListens := hrest.mp hempty
      constructor
      · exact fun hst => (nomatch hst.1)
      · rintro (hst | ⟨hneeds, -⟩)
        · exact absurd hst hns
        · exact absurd hle (Nat.not_le.mpr hneeds)
    · next hempty =>
      refine ⟨addClient_queue hatt hone con, ?_⟩
      have hneeds : s.NeedsConnection (.connectionOpen hdl con) :=
        Nat.not_le.mp fun hle => hempty (hrest.mpr hle)
      rw [addClient_stuck hatt]
      constructor
      · rintro (hst | ⟨-, hnone⟩)
        · exact nomatch hst.1
        · exact Or.inr ⟨hneeds, hnone⟩
      · rintro (hst | ⟨-, hnone⟩)
        · exact absurd hst hns
        · exact Or.inr ⟨rfl, hnone⟩
  | failed hdl he hmem =>
    subst he
    have hnil := hq.erase_eq_nil hmem
    have hns : ¬ Stuck s := fun hst => List.ne_nil_of_mem hmem hst.2
    have hne : ¬ s.ConnectionError (.connectionFail hdl) := fun hce => Nat.not_lt_zero _ hce.1.2
    unfold onConnectionFail
    split
    · next hempty =>
      refine ⟨⟨fun hc => absurd hnil hc, by simp [hnil],
        fun hreq => absurd (List.isEmpty_iff.mp hempty) hreq⟩, ?_⟩
      exact ⟨fun hst => (nomatch hst.1), fun hor => (hor.elim hns hne).elim⟩
    · refine ⟨⟨fun hc => absurd hnil hc, by simp [hnil], fun _ => Or.inr (by simp)⟩, ?_⟩
      exact ⟨fun hst => (nomatch hst.1), fun hor => (hor.elim hns hne).elim⟩
  | retried k con he hk hcon =>
    subst he
    let s₁ : PubSub := { s with retryTimers := s.retryTimers.eraseIdx k }
    have hatt : s₁.connecting ≠ [] → s₁.addingClient = true := hq.attempt
    exact ⟨addClient_queue hatt hq.single con, addClient_stuck hatt con⟩
  | listened hneeds hpassed hcon =>
    obtain ⟨-, hreq, htimers, hadd, hconn⟩ :=
      listenAll_spec e.answer (s.passedTopics e) { s with clients := s.clientsLeft e }
    simp only [] at hreq htimers hadd hconn
    unfold ConnectionError
    rw [hneeds]
    by_cases hlt : (s.clientsLeft e).room < (s.passedTopics e).length
    · -- what does not fit asks for a connection
      have haddc : (listenAll e.answer (s.passedTopics e) { s with clients := s.clientsLeft e }).addingClient
          = true := by
        rw [hadd]
        simp [hlt]
      have hconnc : (listenAll e.answer (s.passedTopics e) { s with clients := s.clientsLeft e }).connecting
          = (s.addClient e.answer).connecting := by
        rw [hconn, addClient_connecting]
        cases hflag : s.addingClient <;> simp [hlt]
      have hqa := addClient_queue hq.attempt hq.single e.answer
      refine ⟨⟨fun _ => haddc, hconnc ▸ hqa.single, fun _ => Or.inl haddc⟩, ?_⟩
      have hst := addClient_stuck hq.attempt e.answer
      unfold Stuck at hst ⊢
      rw [haddc, hconnc]
      rw [addClient_addingClient] at hst
      rw [hst]
      simp [hlt]
    · have hdrop : (s.passedTopics e).drop (s.clientsLeft e).room = [] :=
        List.drop_eq_nil_iff.mpr (Nat.not_lt.mp hlt)
      rw [hdrop, List.append_nil] at hreq
      simp only [hlt, decide_false, Bool.or_false, and_false, if_false] at hadd hconn
      refine ⟨⟨?_, ?_, ?_⟩, ?_⟩
      · rw [hconn, hadd]
        exact hq.attempt
      · rw [hconn]
        exact hq.single
      · rw [hreq, hadd, htimers]
        exact hq.due
      · unfold Stuck
        rw [hadd, hconn]
        simp [hlt]
  | other token userID clients msgs hneeds hkeys htopics hleft hmsgs =>
    refine ⟨⟨hq.attempt, hq.single, hq.due⟩, ?_⟩
    exact ⟨Or.inl, fun hor => hor.elim id fun hce => absurd hce.1 hneeds⟩

/-! ## The backlog over a run -/

/--
**The backlog is served** at the end of a run exactly if `get_connection` gave no error in it: then
a non-empty backlog waits for an attempt or a timer, and `addingClient` says whether an attempt is
under way.
-/
theorem run_served_iff {s : PubSub} {ls : List (Event × Effect)} (h : Run Step new ls s) :
    Served s ↔ Run (fun s l s' => Step s l s' ∧ ¬ s.ConnectionError l.1) new ls s := by
  have hinv : ∀ s l s', Inv s ∧ Queue s → Step s l s' → Inv s' ∧ Queue s' :=
    fun s l s' hs hstep => ⟨step_inv s l s' hs.1 hstep, (step_queue hs.1 hs.2 hstep).1⟩
  have hq : Queue s := (h.invariant hinv ⟨inv_new, queue_new⟩).2
  rw [hq.served_iff]
  refine h.not_fault_iff hinv ?_ ⟨inv_new, queue_new⟩ fun hst => (nomatch hst.1)
  exact fun s l s' hs hstep => (step_queue hs.1 hs.2 hstep).2

/-- A queued topic waits for the connection attempt that its request started. -/
theorem run_served_iff_listen :
    ∃ s, Run Step new [(.listenToTopic ['a'] (some 0), { requested := [['a']] })] s ∧ Served s ∧
      s.requests = [['a']] := by
  have hrun : Run Step new [(.listenToTopic ['a'] (some 0), { requested := [['a']] })]
      (new.listenToTopic ['a'] (some 0)) := .cons rfl (.nil _)
  refine ⟨_, hrun, (run_served_iff hrun).mpr (.cons ⟨rfl, ?_⟩ (.nil _)), rfl⟩
  exact fun hce => (nomatch hce.2)

/-- After an error of `get_connection` the topic waits for nothing. -/
theorem stranded_by_connection_error :
    ¬ ∀ (ls : List (Event × Effect)) (s : PubSub), Run Step new ls s → Served s := by
  intro hall
  have hserved := hall [(.listenToTopic ['a'] none, { requested := [['a']] })]
    (new.listenToTopic ['a'] none) (.cons rfl (.nil _))
  exact hserved.2.mp rfl rfl

/-! ## The number of connections -/

/-- Live clients and attempts in flight. -/
def connections (s : PubSub) : Nat := s.clients.length + s.connecting.length

/-- The step gets one more connection although the others are `maxConnections` already. -/
def Exceeds (s : PubSub) (e : Event) : Prop :=
  s.NeedsConnection e ∧ e.answer ≠ none ∧
    maxConnections ≤ (s.clientsLeft e).length + s.connecting.length

theorem length_handles (clients : ClientMap) : clients.handles.length = clients.length :=
  List.length_map _

theorem clientsLeft_length_le (s : PubSub) (e : Event) :
    (s.clientsLeft e).length ≤ s.clients.length := by
  unfold clientsLeft
  split
  · exact List.length_filter_le _ _
  · exact Nat.le_refl _

theorem addClient_connections {s : PubSub} (con : GetConnection) :
    (s.addClient con).connections
      = s.connections + if s.addingClient = false ∧ con ≠ none then 1 else 0 := by
  unfold connections
  rw [addClient_clients, addClient_connecting]
  cases s.addingClient with
  | true => simp
  | false =>
    cases con with
    | none => simp
    | some hdl => simp [Nat.add_assoc]

/-- **One step** adds a connection exactly when it calls `get_connection` with success. -/
theorem step_connections {s s' : PubSub} {e : Event} {eff : Effect} (hs : Inv s)
    (h : s.step e = some (s', eff)) :
    s.connections = s'.connections + 1 ∧ ¬ s.NeedsConnection e ∨
      (s.NeedsConnection e ∧ e.answer ≠ none) ∧
        s'.connections = (s.clientsLeft e).length + s.connecting.length + 1 ∨
      ¬ (s.NeedsConnection e ∧ e.answer ≠ none) ∧
        s'.connections = (s.clientsLeft e).length + s.connecting.length := by
  cases step_does hs h with
  | opened hdl con he hmem hcon =>
    subst he
    right
    let s₁ : PubSub := { s with connecting := s.connecting.erase hdl }
    obtain ⟨client, -, hrun⟩ := onConnectionOpen_cases s₁ hdl con
    have hopened : (s₁.opened hdl client).connections = s.connections := by
      have hclients : (s₁.opened hdl client).clients.length = s.clients.length + 1 := by
        show ((s.clients.emplace hdl .new).update hdl client).length = _
        rw [← length_handles, update_handles,
          (emplace_handles hdl .new s.clients (hs.apart hdl hmem)).length_eq, List.length_cons,
          length_handles]
      have hconn : (s₁.opened hdl client).connecting.length + 1 = s.connecting.length := by
        show (s.connecting.erase hdl).length + 1 = _
        rw [List.length_erase_of_mem hmem]
        have hpos := List.length_pos_of_mem hmem
        omega
      unfold connections
      omega
    have hrest := opened_requests s₁ hdl client
    rw [show PubSub.onConnectionOpen { s with connecting := s.connecting.erase hdl } hdl con = _ from hrun]
    split
    · next hempty =>
      refine Or.inr ⟨fun hneeds => ?_, hopened⟩
      exact absurd (hrest.mp hempty) (Nat.not_le.mpr hneeds.1)
    · next hempty =>
      have hneeds : s.NeedsConnection (.connectionOpen hdl con) :=
        Nat.not_le.mp fun hle => hempty (hrest.mpr hle)
      have hadd : (s₁.opened hdl client).addingClient = false := rfl
      rw [addClient_connections, hopened, hadd]
      by_cases hcon : con = none
      · exact Or.inr ⟨fun hn => hn.2 hcon, by simp [hcon]; rfl⟩
      · exact Or.inl ⟨⟨hneeds, hcon⟩, by simp [hcon]; rfl⟩
  | failed hdl he hmem =>
    subst he
    refine Or.inl ⟨?_, fun hneeds => Nat.not_lt_zero _ hneeds.2⟩
    have hpos := List.length_pos_of_mem hmem
    have hlen := List.length_erase_of_mem hmem
    have hfail : ({ s with connecting := s.connecting.erase hdl } : PubSub).onConnectionFail.connections
        = s.clients.length + (s.connecting.erase hdl).length := by
      unfold onConnectionFail
      split <;> rfl
    rw [hfail]
    unfold connections
    omega
  | retried k con he hk hcon =>
    subst he
    right
    rw [addClient_connections]
    by_cases hneeds : s.addingClient = false ∧ con ≠ none
    · exact Or.inl ⟨hneeds, by rw [if_pos hneeds]; rfl⟩
    · exact Or.inr ⟨hneeds, by rw [if_neg hneeds]; rfl⟩
  | listened hneeds hpassed hcon =>
    right
    obtain ⟨hkeys, -, -, -, hconn⟩ :=
      listenAll_spec e.answer (s.passedTopics e) { s with clients := s.clientsLeft e }
    have hclients := congrArg List.length hkeys
    rw [length_handles, length_handles] at hclients
    unfold connections
    rw [hclients]
    by_cases hneed : s.NeedsConnection e
    · rw [if_pos (hneeds.mp hneed)] at hconn
      rw [hconn]
      cases e.answer with
      | none => exact Or.inr ⟨fun hn => hn.2 rfl, by simp⟩
      | some hdl => exact Or.inl ⟨⟨hneed, by simp⟩, by simp [Nat.add_assoc]⟩
    · rw [if_neg fun hn => hneed (hneeds.mpr hn)] at hconn
      rw [hconn]
      exact Or.inr ⟨fun hn => hneed hn.1, rfl⟩
  | other token userID clients msgs hneeds hkeys htopics hleft hmsgs =>
    refine Or.inr (Or.inr ⟨fun hn => hneeds hn.1, ?_⟩)
    rw [hleft]
    unfold connections
    show clients.length + _ = _
    rw [← length_handles clients, hkeys, length_handles]

theorem step_limit {s s' : PubSub} {e : Event} {eff : Effect} (hs : Inv s)
    (hle : s.connections ≤ maxConnections) (h : s.step e = some (s', eff)) :
    s'.connections ≤ maxConnections ↔ ¬ s.Exceeds e := by
  have hleft := clientsLeft_length_le s e
  unfold connections at hle
  unfold Exceeds
  rcases step_connections hs h with ⟨hcount, hneeds⟩ | ⟨hneeds, hcount⟩ | ⟨hneeds, hcount⟩
  · unfold connections at hcount ⊢
    exact ⟨fun _ hex => hneeds hex.1, fun _ => by omega⟩
  · rw [hcount]
    constructor
    · rintro hlim ⟨-, -, hfull⟩
      omega
    · intro hnot
      by_contra hlim
      exact hnot ⟨hneeds.1, hneeds.2, by omega⟩
  · rw [hcount]
    exact ⟨fun _ hex => hneeds ⟨hex.1, hex.2.1⟩, fun _ => by omega⟩

/--
**The limit on connections** holds in every state of a run exactly if no step gets a connection
beyond it. No function looks at `maxConnections`.
-/
theorem run_limit_iff {s : PubSub} {ls : List (Event × Effect)} :
    Run (fun s l s' => Step s l s' ∧ s'.connections ≤ maxConnections) new ls s ↔
      Run (fun s l s' => Step s l s' ∧ ¬ s.Exceeds l.1) new ls s := by
  refine Run.guarded_iff step_inv ?_ inv_new (Nat.zero_le _)
  exact fun s l s' hs hle hstep => step_limit hs hle hstep

/-- Eleven attempts fail and each leaves a timer. Then each timer opens a connection. -/
theorem eleven_connections :
    ¬ ∀ (ls : List (Event × Effect)) (s : PubSub), Run Step new ls s →
      s.connections ≤ maxConnections := by
  intro hall
  let events : List Event :=
    ((List.range 11).flatMap fun hdl => [.listenToTopic ['a'] (some hdl), .connectionFail hdl])
      ++ (List.range 11).flatMap fun hdl => [.retryTimer 0 (some hdl), .connectionOpen hdl none]
  have hcount : (exec step new events).map (fun r => r.1.connections) = some 11 := by decide
  obtain ⟨⟨s, effects⟩, hexec, hcount⟩ := Option.map_eq_some_iff.mp hcount
  have hle := hall _ s (Run.of_exec hexec)
  rw [hcount] at hle
  exact absurd hle (by decide)

end PubSub

end Dankerino
