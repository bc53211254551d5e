import Dankerino.Infra.Run
import Dankerino.Seventv.EventApi

/-!
# Which channels are joined

Connections only move channels between the clients and `pendingChannels`: `step_channels` says for
each event what it does to the list of all channels, up to order.

`joinChannel` adds a channel without looking for it, and `partChannel` looks for it in the clients
only. So a channel that is joined twice stays twice, and one that is parted while it waits is
joined later (`parted_while_pending`). A run keeps to the last calls of its channels exactly if
neither happens (`run_kept_iff`).
-/

namespace Dankerino

open Infra

namespace SeventvEventApi

open OrderedMap

/-- The channels joined on the clients, with repetitions. -/
def joined (clients : OrderedMap Handle SeventvEventApiClient) : List QString :=
  clients.flatMap fun p => p.2.channels

/-- All channels: those of the clients and those that wait. -/
def channels (s : SeventvEventApi) : List QString := joined s.clients ++ s.pendingChannels

theorem joined_cons (p : Handle × SeventvEventApiClient)
    (clients : OrderedMap Handle SeventvEventApiClient) :
    joined (p :: clients) = p.2.channels ++ joined clients := rfl

theorem joined_perm {clients clients' : OrderedMap Handle SeventvEventApiClient}
    (h : clients.Perm clients') : (joined clients).Perm (joined clients') :=
  h.flatMap_right _

/-! ## The invariant -/

structure Inv (s : SeventvEventApi) : Prop where
  keys : s.clients.keys.Nodup
  connecting : s.connecting.Nodup
  apart : ∀ hdl ∈ s.connecting, hdl ∉ s.clients.keys
  running : s.stopping = false

theorem inv_new : Inv new :=
  ⟨List.nodup_nil, List.nodup_nil, fun _ h => (List.not_mem_nil h).elim, rfl⟩

/-- `addClient` would not need `get_connection`, or its answer is usable. -/
def ConnectionOk (s : SeventvEventApi) (con : GetConnection) : Prop :=
  s.addingClient = true ∨ FreshConnection s con

/-! ## Joining and parting -/

theorem addClient_spec {s : SeventvEventApi} {con : GetConnection} (hs : Inv s)
    (hcon : ConnectionOk s con) :
    (s.addClient con).channels = s.channels ∧ Inv (s.addClient con) ∧
      (s.addClient con).addingClient = true := by
  unfold addClient
  by_cases hadd : s.addingClient
  · rw [if_pos hadd]
    exact ⟨rfl, hs, hadd⟩
  · rw [if_neg hadd]
    cases con with
    | none => exact ⟨rfl, ⟨hs.keys, hs.connecting, hs.apart, hs.running⟩, rfl⟩
    | some hdl =>
      obtain ⟨hnew, hkeys⟩ := hcon.resolve_left hadd hdl rfl
      refine ⟨rfl, ⟨hs.keys, ?_, ?_, hs.running⟩, rfl⟩
      · refine List.nodup_append.mpr ⟨hs.connecting, List.nodup_singleton _, ?_⟩
        rintro a ha b hb rfl
        rw [List.mem_singleton.mp hb] at ha
        exact hnew ha
      · intro k hk
        rcases List.mem_append.mp hk with hk | hk
        · exact hs.apart k hk
        · rw [List.mem_singleton.mp hk]
          exact hkeys

theorem tryJoinLoop_spec {channel : QString} : ∀ {clients r : OrderedMap Handle SeventvEventApiClient},
    tryJoinLoop channel clients = some r →
      r.keys = clients.keys ∧ (joined r).Perm (channel :: joined clients)
  | [], _, h => nomatch h
  | (k, c) :: rest, r, h => by
    unfold tryJoinLoop at h
    split at h
    · next c' hc =>
      cases h
      refine ⟨rfl, ?_⟩
      rw [joined_cons, joined_cons, SeventvEventApiClient.join_channels hc, List.append_assoc]
      exact List.perm_middle
    · obtain ⟨r', hrest, rfl⟩ := Option.map_eq_some_iff.mp h
      obtain ⟨hkeys, hperm⟩ := tryJoinLoop_spec hrest
      refine ⟨congrArg (k :: ·) hkeys, ?_⟩
      rw [joined_cons, joined_cons]
      exact (hperm.append_left _).trans List.perm_middle

/-- `joinChannel` adds the channel to a client or to those that wait. -/
theorem joinChannel_spec {s : SeventvEventApi} {con : GetConnection} (channel : QString) (hs : Inv s)
    (hcon : ConnectionOk s con) :
    (s.joinChannel channel con).channels.Perm (channel :: s.channels) ∧
      Inv (s.joinChannel channel con) ∧ ConnectionOk (s.joinChannel channel con) con := by
  unfold joinChannel
  split
  · next s' h =>
    obtain ⟨clients, hloop, rfl⟩ := Option.map_eq_some_iff.mp h
    obtain ⟨hkeys, hperm⟩ := tryJoinLoop_spec hloop
    refine ⟨hperm.append_right _, ⟨?_, hs.connecting, ?_, hs.running⟩, hcon.imp_right ?_⟩
    · show clients.keys.Nodup
      rw [hkeys]
      exact hs.keys
    · intro k hk
      show k ∉ clients.keys
      rw [hkeys]
      exact hs.apart k hk
    · intro hf k hk
      refine ⟨(hf k hk).1, ?_⟩
      show k ∉ clients.keys
      rw [hkeys]
      exact (hf k hk).2
  · obtain ⟨heq, hinv, hadd⟩ := addClient_spec hs hcon
    refine ⟨?_, ⟨hinv.keys, hinv.connecting, hinv.apart, hinv.running⟩, Or.inl hadd⟩
    show (joined (s.addClient con).clients ++ ((s.addClient con).pendingChannels ++ [channel])).Perm _
    rw [← List.append_assoc]
    show ((s.addClient con).channels ++ [channel]).Perm _
    rw [heq]
    exact List.perm_append_singleton _ _

theorem rejoin_spec {con : GetConnection} : ∀ (cs : List QString) {s : SeventvEventApi}, Inv s →
    ConnectionOk s con →
    (rejoin con cs s).channels.Perm (cs ++ s.channels) ∧ Inv (rejoin con cs s)
  | [], _, hs, _ => ⟨List.Perm.refl _, hs⟩
  | channel :: rest, s, hs, hcon => by
    obtain ⟨hone, hinv, hok⟩ := joinChannel_spec channel hs hcon
    obtain ⟨hall, hinv'⟩ := rejoin_spec rest hinv hok
    refine ⟨?_, hinv'⟩
    show (rejoin con rest (s.joinChannel channel con)).channels.Perm _
    exact hall.trans ((hone.append_left rest).trans List.perm_middle)

theorem partLoop_keys (channel : QString) (clients : OrderedMap Handle SeventvEventApiClient) :
    (partLoop channel clients).keys = clients.keys := by
  induction clients with
  | nil => rfl
  | cons p rest ih =>
    obtain ⟨k, c⟩ := p
    unfold partLoop
    split
    · rfl
    · exact congrArg (k :: ·) ih

/-- One listener for the channel goes, if some client has one. -/
theorem joined_partLoop (channel : QString) (clients : OrderedMap Handle SeventvEventApiClient) :
    joined (partLoop channel clients) = (joined clients).erase channel := by
  induction clients with
  | nil => rfl
  | cons p rest ih =>
    obtain ⟨k, c⟩ := p
    unfold partLoop
    by_cases h : c.isJoinedChannel channel
    · rw [if_pos h, joined_cons, joined_cons]
      exact (List.erase_append_left _ (SeventvEventApiClient.isJoinedChannel_iff.mp h)).symm
    · rw [if_neg h, joined_cons, joined_cons, ih]
      rw [SeventvEventApiClient.isJoinedChannel_iff] at h
      exact (List.erase_append_right _ h).symm

/-! ## Connection events -/

/-- A client with room for them takes the channels that it is given. -/
theorem takePending_spec : ∀ (n : Nat) (pending : List QString) (client : SeventvEventApiClient),
    client.channels.length + n ≤ SeventvEventApiClient.maxListens →
    ∃ pending' client', takePending n pending client = (pending', client', true) ∧
      (client'.channels ++ pending').Perm (client.channels ++ pending)
  | 0, pending, client, _ => ⟨pending, client, rfl, List.Perm.refl _⟩
  | n + 1, pending, client, hroom => by
    unfold takePending
    rcases List.eq_nil_or_concat pending with rfl | ⟨front, last, rfl⟩
    · exact ⟨[], client, rfl, List.Perm.refl _⟩
    · have hjoin : client.join last = some { channels := client.channels ++ [last] } :=
        SeventvEventApiClient.join_of_lt (by omega)
      obtain ⟨pending', client', heq, hperm⟩ := takePending_spec n front
        { channels := client.channels ++ [last] } (by simp only [List.length_append, List.length_singleton]; omega)
      refine ⟨pending', client', ?_, hperm.trans ?_⟩
      · simp only [List.concat_eq_append, List.getLast?_concat, List.dropLast_concat, hjoin]
        exact heq
      · rw [List.concat_eq_append, List.append_assoc]
        exact List.perm_append_comm.append_left _

theorem onConnectionOpen_spec {s : SeventvEventApi} (hs : Inv s) {hdl : Handle} {con : GetConnection}
    (hnew : hdl ∉ s.clients.keys) (hgone : hdl ∉ s.connecting)
    (hcon : FreshConnection s con) (hne : ∀ h ∈ con, h ≠ hdl) :
    (s.onConnectionOpen hdl con).channels.Perm s.channels ∧ Inv (s.onConnectionOpen hdl con) := by
  obtain ⟨pending, client, htake, hperm⟩ := takePending_spec
    (min s.pendingChannels.length SeventvEventApiClient.maxListens) s.pendingChannels .new
    (by simp [SeventvEventApiClient.new])
  let s' : SeventvEventApi := { s with
    addingClient := false
    connectBackoff := .new
    clients := (s.clients.emplace hdl .new).update hdl client
    pendingChannels := pending }
  have hkeys : s'.clients.keys.Perm (hdl :: s.clients.keys) := by
    show (OrderedMap.update _ _ _).keys.Perm _
    rw [update_keys]
    exact emplace_keys .new hnew
  have hchannels : s'.channels.Perm s.channels := by
    have hjoined : (joined s'.clients).Perm (client.channels ++ joined s.clients) :=
      joined_perm (update_emplace_perm .new client hnew)
    have hmiddle : ((client.channels ++ joined s.clients) ++ pending).Perm
        (joined s.clients ++ (client.channels ++ pending)) := by
      rw [← List.append_assoc]
      exact List.perm_append_comm.append_right _
    exact (hjoined.append_right _).trans (hmiddle.trans (hperm.append_left _))
  have hinv : Inv s' := by
    refine ⟨hkeys.nodup_iff.mpr (List.nodup_cons.mpr ⟨hnew, hs.keys⟩), hs.connecting, ?_, hs.running⟩
    intro k hk
    rw [hkeys.mem_iff, List.mem_cons, not_or]
    exact ⟨fun he => hgone (he ▸ hk), hs.apart k hk⟩
  have hok : ConnectionOk s' con := by
    refine Or.inr fun k hk => ⟨(hcon k hk).1, ?_⟩
    rw [hkeys.mem_iff, List.mem_cons, not_or]
    exact ⟨hne k hk, (hcon k hk).2⟩
  have hrun : s.onConnectionOpen hdl con
      = if true = false ∨ s'.pendingChannels.isEmpty = true then s' else s'.addClient con := by
    unfold onConnectionOpen
    simp only [htake]
    rfl
  rw [hrun]
  split
  · exact ⟨hchannels, hinv⟩
  · obtain ⟨heq, hinv', -⟩ := addClient_spec hinv hok
    exact ⟨heq ▸ hchannels, hinv'⟩

theorem onConnectionFail_spec {s : SeventvEventApi} (hs : Inv s) :
    s.onConnectionFail.channels = s.channels ∧ Inv s.onConnectionFail := by
  unfold onConnectionFail
  split <;> exact ⟨rfl, hs.keys, hs.connecting, hs.apart, hs.running⟩

theorem onConnectionClose_spec {s s' : SeventvEventApi} (hs : Inv s) {hdl : Handle}
    {con : GetConnection} (hcon : FreshConnection s con) (h : s.onConnectionClose hdl con = some s') :
    s'.channels.Perm s.channels ∧ Inv s' := by
  unfold onConnectionClose at h
  split at h
  · exact nomatch h
  · next c hfind =>
    simp only [] at h
    rw [if_neg (by simp [hs.running])] at h
    rw [← Option.some.inj h]
    have hsub := erase_keys s.clients hdl
    have hinv : Inv { s with clients := s.clients.erase hdl } :=
      ⟨hs.keys.sublist hsub, hs.connecting, fun k hk hm => hs.apart k hk (hsub.subset hm), hs.running⟩
    obtain ⟨hperm, hinv'⟩ := rejoin_spec c.channels hinv
      (Or.inr fun k hk => ⟨(hcon k hk).1, fun hm => (hcon k hk).2 (hsub.subset hm)⟩)
    refine ⟨hperm.trans ?_, hinv'⟩
    show (c.channels ++ (joined (s.clients.erase hdl) ++ s.pendingChannels)).Perm _
    rw [← List.append_assoc]
    exact ((joined_perm (perm_erase hs.keys hfind)).symm).append_right _

/-! ## Steps -/

/-- What callers do to the channels. -/
def Event.apply (s : SeventvEventApi) : Event → List QString
  | .joinChannel channel _ => channel :: s.channels
  | .partChannel channel => (joined s.clients).erase channel ++ s.pendingChannels
  | _ => s.channels

/-- **One step** changes the channels by the call that was made, and connections change nothing. -/
theorem step_channels {s s' : SeventvEventApi} {e : Event} (hs : Inv s) (h : s.step e = some s') :
    s'.channels.Perm (e.apply s) ∧ Inv s' := by
  cases e with
  | joinChannel channel con =>
    simp only [step] at h
    split at h
    · next hcon =>
      cases h
      obtain ⟨hperm, hinv, -⟩ := joinChannel_spec channel hs (Or.inr hcon)
      exact ⟨hperm, hinv⟩
    · exact nomatch h
  | partChannel channel =>
    cases h
    constructor
    · show (joined (partLoop channel s.clients) ++ s.pendingChannels).Perm _
      rw [joined_partLoop]
      exact List.Perm.refl _
    · refine ⟨?_, hs.connecting, ?_, hs.running⟩
      · show (partLoop channel s.clients).keys.Nodup
        rw [partLoop_keys]
        exact hs.keys
      · intro k hk
        show k ∉ (partLoop channel s.clients).keys
        rw [partLoop_keys]
        exact hs.apart k hk
  | connectionOpen hdl con =>
    simp only [step] at h
    split at h
    · next hc =>
      cases h
      obtain ⟨hmem, hfresh⟩ := hc
      have hinv : Inv { s with connecting := s.connecting.erase hdl } :=
        ⟨hs.keys, hs.connecting.erase hdl, fun k hk => hs.apart k (List.mem_of_mem_erase hk), hs.running⟩
      exact onConnectionOpen_spec hinv (hs.apart hdl hmem) hs.connecting.not_mem_erase
        (fun k hk => ⟨fun hm => (hfresh k hk).1 (List.mem_of_mem_erase hm), (hfresh k hk).2⟩)
        (fun k hk he => (hfresh k hk).1 (he ▸ hmem))
    · exact nomatch h
  | connectionFail hdl =>
    simp only [step] at h
    split at h
    · cases h
      have hinv : Inv { s with connecting := s.connecting.erase hdl } :=
        ⟨hs.keys, hs.connecting.erase hdl, fun k hk => hs.apart k (List.mem_of_mem_erase hk), hs.running⟩
      obtain ⟨heq, hinv'⟩ := onConnectionFail_spec hinv
      exact ⟨List.Perm.of_eq heq, hinv'⟩
    · exact nomatch h
  | connectionClose hdl con =>
    simp only [step] at h
    split at h
    · next hcon => exact onConnectionClose_spec hs hcon h
    · exact nomatch h
  | retryTimer k con =>
    simp only [step] at h
    split at h
    · next hc =>
      cases h
      have hinv : Inv { s with retryTimers := s.retryTimers.eraseIdx k } :=
        ⟨hs.keys, hs.connecting, hs.apart, hs.running⟩
      obtain ⟨heq, hinv', -⟩ := addClient_spec hinv (Or.inr hc.2)
      exact ⟨List.Perm.of_eq heq, hinv'⟩
    · exact nomatch h

/-! ## The last call for a channel -/

inductive Call
  | join
  | part
deriving DecidableEq, Repr

/-- The channel that a caller joins or parts. -/
def Event.call : Event → Option (QString × Call)
  | .joinChannel channel _ => some (channel, .join)
  | .partChannel channel => some (channel, .part)
  | _ => none

/-- The last call for the channel among events that are given newest first. -/
def lastCall (channel : QString) : List Event → Option Call
  | [] => none
  | e :: earlier =>
    match e.call with
    | some (c, call) => if c = channel then some call else lastCall channel earlier
    | none => lastCall channel earlier

/-- A step together with the events so far, newest first. -/
def HistoryStep (t : SeventvEventApi × List Event) (e : Event) (t' : SeventvEventApi × List Event) :
    Prop :=
  t.1.step e = some t'.1 ∧ t'.2 = e :: t.2

/-- Joined on exactly one client, or waiting exactly once. -/
def JoinedOnce (s : SeventvEventApi) (channel : QString) : Prop :=
  (joined s.clients).count channel = 1 ∧ s.pendingChannels.count channel = 0 ∨
    (joined s.clients).count channel = 0 ∧ s.pendingChannels.count channel = 1

/-- Neither joined nor waiting. -/
def Parted (s : SeventvEventApi) (channel : QString) : Prop :=
  channel ∉ joined s.clients ∧ channel ∉ s.pendingChannels

/-- Every channel is where its last call put it. -/
structure Kept (t : SeventvEventApi × List Event) : Prop where
  join : ∀ channel, lastCall channel t.2 = some .join → JoinedOnce t.1 channel
  part : ∀ channel, lastCall channel t.2 = some .part → Parted t.1 channel

/-- A channel is joined only if it is not there, and not parted while it waits. -/
def Careful (s : SeventvEventApi) : Event → Prop
  | .joinChannel channel _ => channel ∉ s.channels
  | .partChannel channel => channel ∉ s.pendingChannels
  | _ => True

theorem joinedOnce_iff {s : SeventvEventApi} {channel : QString} :
    JoinedOnce s channel ↔ s.channels.count channel = 1 := by
  unfold JoinedOnce channels
  rw [List.count_append]
  omega

theorem parted_iff {s : SeventvEventApi} {channel : QString} :
    Parted s channel ↔ s.channels.count channel = 0 := by
  unfold Parted channels
  rw [List.count_eq_zero, List.mem_append, not_or]

/-- The invariant, and a channel that was never called for is not there. -/
structure Called (t : SeventvEventApi × List Event) : Prop where
  inv : Inv t.1
  never : ∀ channel, lastCall channel t.2 = none → t.1.channels.count channel = 0

theorem called_new : Called (new, []) := ⟨inv_new, fun _ _ => rfl⟩

/-- What an event does to the count of a channel. -/
theorem count_apply {s : SeventvEventApi} {e : Event} {channel : QString}
    (h : ∀ call, e.call ≠ some (channel, call)) :
    (e.apply s).count channel = s.channels.count channel := by
  cases e with
  | joinChannel c con =>
    have hne : c ≠ channel := fun he => h .join (by rw [← he]; rfl)
    exact List.count_cons_of_ne hne
  | partChannel c =>
    have hne : channel ≠ c := fun he => h .part (by rw [he]; rfl)
    show ((joined s.clients).erase c ++ s.pendingChannels).count channel = _
    rw [List.count_append, List.count_erase_of_ne hne]
    exact (List.count_append ..).symm
  | _ => rfl

theorem lastCall_cons {e : Event} {es : List Event} {channel : QString}
    (h : ∀ call, e.call ≠ some (channel, call)) : lastCall channel (e :: es) = lastCall channel es := by
  cases hcall : e.call with
  | none => simp only [lastCall, hcall]
  | some p =>
    obtain ⟨c, call⟩ := p
    have hne : ¬c = channel := by
      rintro rfl
      exact h call hcall
    simp only [lastCall, hcall, if_neg hne]

theorem lastCall_self {e : Event} {es : List Event} {channel : QString} {call : Call}
    (h : e.call = some (channel, call)) : lastCall channel (e :: es) = some call := by
  simp only [lastCall, h, if_true]

theorem historyStep_called (t : SeventvEventApi × List Event) (e : Event)
    (t' : SeventvEventApi × List Event) (ht : Called t) (h : HistoryStep t e t') : Called t' := by
  obtain ⟨s, es⟩ := t
  obtain ⟨s', es'⟩ := t'
  obtain ⟨hstep, rfl⟩ := h
  obtain ⟨hperm, hinv⟩ := step_channels ht.inv hstep
  refine ⟨hinv, fun channel hnone => ?_⟩
  have hother : ∀ call, e.call ≠ some (channel, call) := by
    intro call hcall
    rw [lastCall_self hcall] at hnone
    exact nomatch hnone
  rw [lastCall_cons hother] at hnone
  rw [hperm.count_eq, count_apply hother]
  exact ht.never channel hnone

/-- How often a channel is there after its last call. -/
def Call.places : Call → Nat
  | .join => 1
  | .part => 0

theorem kept_iff {s : SeventvEventApi} {es : List Event} :
    Kept (s, es) ↔
      ∀ channel call, lastCall channel es = some call → s.channels.count channel = call.places := by
  constructor
  · intro hk channel call hlast
    cases call with
    | join => exact joinedOnce_iff.mp (hk.join channel hlast)
    | part => exact parted_iff.mp (hk.part channel hlast)
  · intro hall
    exact ⟨fun channel hlast => joinedOnce_iff.mpr (hall channel .join hlast),
      fun channel hlast => parted_iff.mpr (hall channel .part hlast)⟩

/-- Only the channel that is called for can get out of place. -/
theorem kept_cons_iff {s s' : SeventvEventApi} {es : List Event} {e : Event} (hk : Kept (s, es))
    (hperm : s'.channels.Perm (e.apply s)) :
    Kept (s', e :: es) ↔
      ∀ channel call, e.call = some (channel, call) → s'.channels.count channel = call.places := by
  rw [kept_iff] at hk ⊢
  constructor
  · intro hk' channel call hcall
    exact hk' channel call (lastCall_self hcall)
  · intro hcalled channel call hlast
    by_cases hother : ∀ call, e.call ≠ some (channel, call)
    · rw [lastCall_cons hother] at hlast
      rw [hperm.count_eq, count_apply hother]
      exact hk channel call hlast
    · simp only [not_forall, not_not] at hother
      obtain ⟨call', hcall⟩ := hother
      rw [lastCall_self hcall, Option.some.injEq] at hlast
      rw [← hlast]
      exact hcalled channel call' hcall

/-- No channel is there twice while the last calls are kept to. -/
theorem count_le_one {s : SeventvEventApi} {es : List Event} (ht : Called (s, es))
    (hk : Kept (s, es)) (channel : QString) : s.channels.count channel ≤ 1 := by
  rw [kept_iff] at hk
  cases hlast : lastCall channel es with
  | none =>
    have hzero : s.channels.count channel = 0 := ht.never channel hlast
    omega
  | some call =>
    rw [hk channel call hlast]
    cases call with
    | join => exact Nat.le_refl 1
    | part => exact Nat.zero_le 1

/-- **One step** keeps the channels where their last calls put them exactly if it is careful. -/
theorem historyStep_kept (t : SeventvEventApi × List Event) (e : Event)
    (t' : SeventvEventApi × List Event) (ht : Called t) (hk : Kept t) (h : HistoryStep t e t') :
    Kept t' ↔ Careful t.1 e := by
  obtain ⟨s, es⟩ := t
  obtain ⟨s', es'⟩ := t'
  obtain ⟨hstep, rfl⟩ := h
  obtain ⟨hperm, -⟩ := step_channels ht.inv hstep
  rw [kept_cons_iff hk hperm]
  cases e with
  | joinChannel channel con =>
    have hcount : s'.channels.count channel = s.channels.count channel + 1 := by
      rw [hperm.count_eq]
      exact List.count_cons_self
    constructor
    · intro hcalled
      have hone := hcalled channel .join rfl
      rw [hcount] at hone
      exact List.count_eq_zero.mp (Nat.succ.inj hone)
    · intro hcare c call hcall
      cases hcall
      rw [hcount, List.count_eq_zero.mpr hcare]
      rfl
  | partChannel channel =>
    have hcount : s'.channels.count channel
        = (joined s.clients).count channel - 1 + s.pendingChannels.count channel := by
      rw [hperm.count_eq]
      show ((joined s.clients).erase channel ++ s.pendingChannels).count channel = _
      rw [List.count_append, List.count_erase_self]
    have hle := count_le_one ht hk channel
    rw [channels, List.count_append] at hle
    constructor
    · intro hcalled
      have hnone := hcalled channel .part rfl
      rw [hcount] at hnone
      exact List.count_eq_zero.mp (Nat.eq_zero_of_add_eq_zero_left hnone)
    · intro hcare c call hcall
      cases hcall
      rw [hcount, List.count_eq_zero.mpr hcare]
      show (joined s.clients).count channel - 1 + 0 = 0
      omega
  | _ => exact ⟨fun _ => trivial, fun _ _ _ hcall => (nomatch hcall)⟩

/-! ## Runs -/

/--
**The last call counts** in every state of a run exactly if each step is careful: no channel is joined
that is there already, and none is parted while it waits for a connection.
-/
theorem run_kept_iff {t : SeventvEventApi × List Event} {ls : List Event} :
    Run (fun t e t' => HistoryStep t e t' ∧ Kept t') (new, []) ls t ↔
      Run (fun t e t' => HistoryStep t e t' ∧ Careful t.1 e) (new, []) ls t := by
  have hstart : Kept (new, []) := ⟨fun _ h => (nomatch h), fun _ h => (nomatch h)⟩
  exact Run.guarded_iff historyStep_called historyStep_kept called_new hstart

/-- A channel that is parted before its connection opens is joined all the same. -/
theorem parted_while_pending :
    ¬ ∀ (ls : List Event) (t : SeventvEventApi × List Event), Run HistoryStep (new, []) ls t → Kept t := by
  intro hall
  let s₁ : SeventvEventApi := new.joinChannel ['a'] (some 0)
  let s₂ : SeventvEventApi := s₁.partChannel ['a']
  let s₃ : SeventvEventApi := { s₂ with connecting := [] }.onConnectionOpen 0 none
  let join : Event := .joinChannel ['a'] (some 0)
  let part : Event := .partChannel ['a']
  let opened : Event := .connectionOpen 0 none
  have h₁ : HistoryStep (new, []) join (s₁, [join]) := ⟨rfl, rfl⟩
  have h₂ : HistoryStep (s₁, [join]) part (s₂, [part, join]) := ⟨rfl, rfl⟩
  have h₃ : HistoryStep (s₂, [part, join]) opened (s₃, [opened, part, join]) := ⟨rfl, rfl⟩
  have hrun : Run HistoryStep (new, []) [join, part, opened] (s₃, [opened, part, join]) :=
    .cons h₁ (.cons h₂ (.cons h₃ (.nil _)))
  have hparted := (hall _ _ hrun).part ['a'] rfl
  exact hparted.1 (by decide)

end SeventvEventApi

end Dankerino
