import Dankerino.Infra.Run
import Dankerino.Qt.QString
import Mathlib.Data.List.Basic
import Mathlib.Logic.Function.Basic

/-!
# Refreshing the live status

`bulkRefreshLiveStatus` of `TwitchIrcServer`, and what comes of its requests. The channels that are
open when it is called are numbered, and their number is their address. The map from room ids to
addresses is shared by all batches. Of the status of a stream only `live` is modelled.

A call on a channel that was destroyed is recorded like any other.
-/

namespace Dankerino

open Infra

/-! ## Batches -/

/-- The loop of `splitListIntoBatches`. -/
def splitLoop {α : Type*} (batchSize : Nat) : Nat → List α → List (List α)
  | 0, _ => []
  | batchCount + 1, list =>
    let batch := list.take batchSize
    if batch.isEmpty then [] else batch :: splitLoop batchSize batchCount (list.drop batchSize)

def splitListIntoBatches {α : Type*} (batchSize : Nat) (list : List α) : List (List α) :=
  splitLoop batchSize ((list.length + batchSize - 1) / batchSize) list

theorem splitLoop_nil {α : Type*} (batchSize batchCount : Nat) :
    splitLoop batchSize batchCount ([] : List α) = [] := by
  cases batchCount with
  | zero => rfl
  | succ batchCount => rw [splitLoop, List.take_nil]; rfl

theorem flatten_splitLoop {α : Type*} {batchSize : Nat} (hpos : 0 < batchSize) :
    ∀ (batchCount : Nat) (list : List α), list.length ≤ batchCount * batchSize →
      (splitLoop batchSize batchCount list).flatten = list := by
  intro batchCount
  induction batchCount with
  | zero =>
    intro list hlength
    rw [Nat.zero_mul] at hlength
    exact (List.length_eq_zero_iff.mp (Nat.le_zero.mp hlength)).symm
  | succ batchCount ih =>
    intro list hlength
    rw [Nat.succ_mul] at hlength
    rw [splitLoop]
    by_cases hempty : (list.take batchSize).isEmpty = true
    · rw [if_pos hempty]
      rcases List.take_eq_nil_iff.mp (List.isEmpty_iff.mp hempty) with hzero | rfl
      · omega
      · rfl
    · rw [if_neg hempty, List.flatten_cons, ih _ (by rw [List.length_drop]; omega),
        List.take_append_drop]

/-- Every id is in one batch. -/
theorem flatten_splitListIntoBatches {α : Type*} {batchSize : Nat} (hpos : 0 < batchSize)
    (list : List α) : (splitListIntoBatches batchSize list).flatten = list := by
  apply flatten_splitLoop hpos
  have hdiv := Nat.div_add_mod (list.length + batchSize - 1) batchSize
  have hmod := Nat.mod_lt (list.length + batchSize - 1) hpos
  rw [Nat.mul_comm] at hdiv
  omega

/-- A batch is not empty, and not too long. -/
theorem length_of_mem_splitLoop {α : Type*} {batchSize : Nat} {batch : List α} :
    ∀ (batchCount : Nat) (list : List α), batch ∈ splitLoop batchSize batchCount list →
      batch ≠ [] ∧ batch.length ≤ batchSize := by
  intro batchCount
  induction batchCount with
  | zero =>
    intro list hmem
    exact absurd hmem List.not_mem_nil
  | succ batchCount ih =>
    intro list hmem
    rw [splitLoop] at hmem
    by_cases hempty : (list.take batchSize).isEmpty = true
    · rw [if_pos hempty] at hmem
      exact absurd hmem List.not_mem_nil
    · rw [if_neg hempty] at hmem
      rcases List.mem_cons.mp hmem with rfl | hrest
      · exact ⟨fun hnil => hempty (List.isEmpty_iff.mpr hnil), List.length_take_le _ _⟩
      · exact ih _ hrest

/-- There is a batch behind another only if the list did not end before. -/
theorem length_of_mem_dropLast_splitLoop {α : Type*} {batchSize : Nat} {batch : List α} :
    ∀ (batchCount : Nat) (list : List α), batch ∈ (splitLoop batchSize batchCount list).dropLast →
      batch.length = batchSize := by
  intro batchCount
  induction batchCount with
  | zero =>
    intro list hmem
    exact absurd hmem List.not_mem_nil
  | succ batchCount ih =>
    intro list hmem
    rw [splitLoop] at hmem
    by_cases hempty : (list.take batchSize).isEmpty = true
    · rw [if_pos hempty] at hmem
      exact absurd hmem List.not_mem_nil
    · rw [if_neg hempty] at hmem
      cases hrest : splitLoop batchSize batchCount (list.drop batchSize) with
      | nil =>
        rw [hrest] at hmem
        exact absurd hmem List.not_mem_nil
      | cons next rest =>
        rw [hrest, List.dropLast_cons_cons, ← hrest] at hmem
        rcases List.mem_cons.mp hmem with rfl | hbehind
        · -- the next batch starts with an element behind this one
          have hlt : batchSize < list.length := by
            by_contra hle
            rw [List.drop_eq_nil_of_le (Nat.le_of_not_lt hle), splitLoop_nil] at hrest
            cases hrest
          exact List.length_take_of_le (Nat.le_of_lt hlt)
        · exact ih _ hbehind

/-- The batches are the list in order; none is empty, and only the last one may be short. -/
theorem splitListIntoBatches_partition {α : Type*} {batchSize : Nat} (hpos : 1 ≤ batchSize)
    (list : List α) :
    (splitListIntoBatches batchSize list).flatten = list ∧
      [] ∉ splitListIntoBatches batchSize list ∧
      (∀ batch ∈ (splitListIntoBatches batchSize list).dropLast, batch.length = batchSize) ∧
      ∀ batch ∈ (splitListIntoBatches batchSize list).getLast?, batch.length ≤ batchSize := by
  refine ⟨flatten_splitListIntoBatches hpos list, fun hmem => ?_, fun batch hmem => ?_, fun batch hlast => ?_⟩
  · exact (length_of_mem_splitLoop _ _ hmem).1 rfl
  · exact length_of_mem_dropLast_splitLoop _ _ hmem
  · exact (length_of_mem_splitLoop _ _ (List.mem_of_getLast? hlast)).2

theorem splitListIntoBatches_seven :
    splitListIntoBatches 3 [1, 2, 3, 4, 5, 6, 7] = [[1, 2, 3], [4, 5, 6], [7]] ∧
      (∀ batch ∈ (splitListIntoBatches 3 [1, 2, 3, 4, 5, 6, 7]).dropLast, batch.length = 3) :=
  ⟨by decide, (splitListIntoBatches_partition (by decide) [1, 2, 3, 4, 5, 6, 7]).2.2.1⟩

namespace LiveStatus

/-! ## Channels and requests -/

structure State where
  /-- The room ids of the channels. -/
  roomIds : List QString
  /-- The channel of the address was not destroyed. -/
  isOpen : Nat → Bool
  live : Nat → Bool
  /-- The map that the handlers share. -/
  twitchChans : QString → Option Nat
  /-- The batches that wait for an answer. -/
  pending : List (List QString)
  /-- The channels that a method was called on. -/
  called : List Nat

/-- The loop that fills the map. A room id that is there already is overwritten. -/
def insertLoop (twitchChans : QString → Option Nat) : Nat → List QString → QString → Option Nat
  | _, [] => twitchChans
  | address, roomId :: roomIds =>
    insertLoop (if roomId.isEmpty then twitchChans else Function.update twitchChans roomId (some address))
      (address + 1) roomIds

/-- `bulkRefreshLiveStatus`, up to the requests. `keys` are the ids in the order of the hash. -/
def bulkRefreshLiveStatus (roomIds : List QString) (live : Nat → Bool) (keys : List QString) : State where
  roomIds := roomIds
  isOpen _ := true
  live := live
  twitchChans := insertLoop (fun _ => none) 0 roomIds
  pending := splitListIntoBatches 100 keys
  called := []

/-- `parseLiveStatus`, which ends with `setLive`. -/
def parseLiveStatus (tc : Nat) (live : Bool) (s : State) : State :=
  { s with live := Function.update s.live tc live, called := s.called ++ [tc] }

/-- The success handler of a batch, for the user ids of the streams. -/
def successCallback : List QString → State → State
  | [], s => s
  | userId :: userIds, s =>
    match s.twitchChans userId with
    | none => successCallback userIds s
    | some tc =>
      successCallback userIds
        (parseLiveStatus tc true { s with twitchChans := Function.update s.twitchChans userId none })

def failureCallback (s : State) : State := s

/-- The handler that is called at the end. -/
def finallyCallback : List QString → State → State
  | [], s => s
  | chID :: batch, s =>
    match s.twitchChans chID with
    | none => finallyCallback batch s
    | some tc => finallyCallback batch (parseLiveStatus tc false s)

/-- What comes of a request. -/
inductive Outcome
  /-- A list of streams, of which these are the user ids. -/
  | streams (userIds : List QString)
  /-- An answer whose `data` is no array. -/
  | malformed
  | error
  | timedOut
deriving DecidableEq, Repr

/-- The handlers that `fetchStreams` sets, as the network calls them. -/
def fetchStreams (batch : List QString) (outcome : Outcome) (s : State) : State :=
  match outcome with
  | .streams userIds => finallyCallback batch (successCallback userIds s)
  | .malformed => finallyCallback batch (failureCallback s)
  | .error => finallyCallback batch (failureCallback s)
  | .timedOut => finallyCallback batch (failureCallback s)

inductive Op
  | close (address : Nat)
  | answer (batch : List QString) (outcome : Outcome)

/-- A channel is closed, or a request ends. -/
inductive Step : State → Op → State → Prop
  | close (s : State) (address : Nat) :
    Step s (.close address) { s with isOpen := Function.update s.isOpen address false }
  | answer (s : State) {batch : List QString} (outcome : Outcome) : batch ∈ s.pending →
    Step s (.answer batch outcome)
      (fetchStreams batch outcome { s with pending := s.pending.erase batch })

/-! ## The handlers -/

/-- The address is that of one of the ids. -/
def AddressOf (s : State) (ids : List QString) (a : Nat) : Prop := ∃ id ∈ ids, s.twitchChans id = some a

theorem addressOf_nil {s : State} {a : Nat} : ¬ AddressOf s [] a := by
  rintro ⟨_, h, -⟩
  exact nomatch h

theorem addressOf_cons {s : State} {id : QString} {ids : List QString} {a : Nat} :
    AddressOf s (id :: ids) a ↔ s.twitchChans id = some a ∨ AddressOf s ids a := by
  simp [AddressOf]

/-- A handler sets the live status of some channels, and calls no others. -/
structure Sets (s s' : State) (isSet : Nat → Prop) (live : Bool) : Prop where
  roomIds : s'.roomIds = s.roomIds
  isOpen : s'.isOpen = s.isOpen
  pending : s'.pending = s.pending
  set : ∀ a, isSet a → s'.live a = live
  other : ∀ a, ¬ isSet a → s'.live a = s.live a
  called : ∃ new, s'.called = s.called ++ new ∧ ∀ a, a ∈ new ↔ isSet a

theorem Sets.refl (s : State) (live : Bool) : Sets s s (fun _ => False) live where
  roomIds := rfl
  isOpen := rfl
  pending := rfl
  set _ h := h.elim
  other _ _ := rfl
  called := ⟨[], (List.append_nil _).symm, fun a => by simp⟩

/-- One more channel before the others. -/
theorem Sets.call {s s' : State} {isSet : Nat → Prop} {live : Bool} {tc : Nat}
    (twitchChans : QString → Option Nat)
    (h : Sets (parseLiveStatus tc live { s with twitchChans }) s' isSet live) :
    Sets s s' (fun a => a = tc ∨ isSet a) live where
  roomIds := h.roomIds
  isOpen := h.isOpen
  pending := h.pending
  set := by
    rintro a ha
    by_cases hset : isSet a
    · exact h.set a hset
    · obtain rfl := ha.resolve_right hset
      rw [h.other a hset]
      exact Function.update_self _ _ _
  other := by
    intro a ha
    rw [not_or] at ha
    rw [h.other a ha.2]
    exact Function.update_of_ne ha.1 _ _
  called := by
    obtain ⟨new, hcalled, hnew⟩ := h.called
    refine ⟨tc :: new, by rw [hcalled, parseLiveStatus, List.append_assoc]; rfl, fun a => ?_⟩
    rw [List.mem_cons, hnew]

theorem Sets.congr {s s' : State} {isSet isSet' : Nat → Prop} {live : Bool} (h : Sets s s' isSet live)
    (heq : ∀ a, isSet a ↔ isSet' a) : Sets s s' isSet' live := by
  obtain rfl : isSet = isSet' := funext fun a => propext (heq a)
  exact h

/-- The streams' channels are set live, and their entries are taken. -/
theorem successCallback_spec (userIds : List QString) : ∀ s : State,
    Sets s (successCallback userIds s) (AddressOf s userIds) true ∧
      ∀ id, (successCallback userIds s).twitchChans id
        = if id ∈ userIds then none else s.twitchChans id := by
  induction userIds with
  | nil =>
    intro s
    exact ⟨(Sets.refl s true).congr fun a => (iff_false_intro addressOf_nil).symm, fun id => rfl⟩
  | cons userId userIds ih =>
    intro s
    rw [successCallback]
    cases htc : s.twitchChans userId with
    | none =>
      obtain ⟨hsets, hmap⟩ := ih s
      refine ⟨hsets.congr fun a => ?_, fun id => ?_⟩
      · rw [addressOf_cons, htc]
        simp
      · dsimp only
        rw [hmap]
        by_cases hid : id = userId
        · simp [hid, htc]
        · simp [hid]
    | some tc =>
      obtain ⟨hsets, hmap⟩ := ih (parseLiveStatus tc true
        { s with twitchChans := Function.update s.twitchChans userId none })
      refine ⟨hsets.call.congr fun a => ?_, fun id => ?_⟩
      · rw [addressOf_cons, htc]
        constructor
        · rintro (rfl | ⟨id, hid, hid'⟩)
          · exact .inl rfl
          · by_cases heq : id = userId
            · subst heq
              exact absurd hid' (by simp [parseLiveStatus])
            · exact .inr ⟨id, hid, by rwa [← Function.update_of_ne heq none s.twitchChans]⟩
        · rintro (heq | ⟨id, hid, hid'⟩)
          · exact .inl (Option.some.inj heq).symm
          · by_cases heq : id = userId
            · rw [heq, htc] at hid'
              exact .inl (Option.some.inj hid').symm
            · refine .inr ⟨id, hid, ?_⟩
              rw [← hid']
              exact Function.update_of_ne heq none s.twitchChans
      · dsimp only
        rw [hmap]
        by_cases hid : id = userId
        · simp [hid, parseLiveStatus]
        · simp [hid, parseLiveStatus]

/-- The channels that are left in the map are set offline. -/
theorem finallyCallback_spec (batch : List QString) : ∀ s : State,
    Sets s (finallyCallback batch s) (AddressOf s batch) false ∧
      (finallyCallback batch s).twitchChans = s.twitchChans := by
  induction batch with
  | nil =>
    intro s
    exact ⟨(Sets.refl s false).congr fun a => (iff_false_intro addressOf_nil).symm, rfl⟩
  | cons chID batch ih =>
    intro s
    rw [finallyCallback]
    cases htc : s.twitchChans chID with
    | none =>
      obtain ⟨hsets, hmap⟩ := ih s
      refine ⟨hsets.congr fun a => ?_, hmap⟩
      rw [addressOf_cons, htc]
      simp
    | some tc =>
      obtain ⟨hsets, hmap⟩ := ih (parseLiveStatus tc false s)
      refine ⟨(Sets.call s.twitchChans hsets).congr fun a => ?_, hmap⟩
      rw [addressOf_cons, htc, Option.some.injEq]
      exact or_congr eq_comm Iff.rfl

/-! ## The map -/

/-- The map has a channel under its own room id. -/
def OwnIds (s : State) : Prop := ∀ id a, s.twitchChans id = some a → s.roomIds[a]? = some id

theorem insertLoop_own (allIds : List QString) : ∀ (roomIds : List QString) (address : Nat)
    (twitchChans : QString → Option Nat), allIds.drop address = roomIds →
    (∀ id a, twitchChans id = some a → allIds[a]? = some id) →
    ∀ id a, insertLoop twitchChans address roomIds id = some a → allIds[a]? = some id := by
  intro roomIds
  induction roomIds with
  | nil =>
    intro address twitchChans _ hown
    exact hown
  | cons roomId roomIds ih =>
    intro address twitchChans hdrop hown
    have hrest : allIds.drop (address + 1) = roomIds := by
      rw [← List.drop_drop, hdrop]
      rfl
    rw [insertLoop]
    refine ih _ _ hrest fun id a hid => ?_
    split at hid
    · exact hown id a hid
    · by_cases heq : id = roomId
      · subst heq
        rw [Function.update_self, Option.some.injEq] at hid
        subst hid
        rw [← List.head?_drop, hdrop]
        rfl
      · rw [Function.update_of_ne heq] at hid
        exact hown id a hid

theorem bulkRefreshLiveStatus_own (roomIds : List QString) (live : Nat → Bool) (keys : List QString) :
    OwnIds (bulkRefreshLiveStatus roomIds live keys) :=
  insertLoop_own roomIds roomIds 0 _ rfl fun _ _ h => nomatch h

theorem OwnIds.of_step {s s' : State} {op : Op} (hown : OwnIds s) (h : Step s op s') : OwnIds s' := by
  cases h with
  | close address => exact hown
  | @answer batch outcome hbatch =>
    have hfinally (t : State) (ht : OwnIds t) : OwnIds (finallyCallback batch t) := by
      intro id a hid
      rw [(finallyCallback_spec batch t).2] at hid
      rw [(finallyCallback_spec batch t).1.roomIds]
      exact ht id a hid
    cases outcome with
    | streams userIds =>
      refine hfinally _ fun id a hid => ?_
      rw [(successCallback_spec userIds _).2] at hid
      rw [(successCallback_spec userIds _).1.roomIds]
      split at hid
      · exact nomatch hid
      · exact hown id a hid
    | malformed => exact hfinally _ hown
    | error => exact hfinally _ hown
    | timedOut => exact hfinally _ hown

/-! ## One answer -/

/-- The status that an open channel should have after a request. -/
def statusAfter (batch : List QString) : Outcome → QString → Bool → Bool
  | .streams userIds, roomId, live => if roomId ∈ batch then decide (roomId ∈ userIds) else live
  | .malformed, _, live => live
  | .error, _, live => live
  | .timedOut, _, live => live

/-- Only open channels are called, and each open channel gets its status. -/
def AsSaid (s : State) (op : Op) (s' : State) : Prop :=
  match op with
  | .close _ => s'.live = s.live ∧ s'.called = s.called
  | .answer batch outcome =>
    (∀ a ∈ s'.called.drop s.called.length, s.isOpen a = true) ∧
      ∀ a roomId, s.roomIds[a]? = some roomId → s.isOpen a = true →
        s'.live a = statusAfter batch outcome roomId (s.live a)

/-- The channels in the map under these ids are open. -/
def AllOpen (s : State) (ids : List QString) : Prop := ∀ a, AddressOf s ids a → s.isOpen a = true

/--
What the handlers do is right. After a failure the channels of the batch that the map has were
offline before. After an answer, the channels that it names outside of the batch were live before,
and those that the map does not have had their status before.
-/
def Harmless (s : State) : Op → Prop
  | .close _ => True
  | .answer batch (.streams userIds) =>
    AllOpen s (userIds ++ batch) ∧
      ∀ a roomId, s.roomIds[a]? = some roomId → s.isOpen a = true →
        if s.twitchChans roomId = some a then
          roomId ∈ userIds → roomId ∉ batch → s.live a = true
        else roomId ∈ batch → s.live a = decide (roomId ∈ userIds)
  | .answer batch .malformed | .answer batch .error | .answer batch .timedOut =>
    AllOpen s batch ∧ ∀ a, AddressOf s batch a → s.live a = false

theorem addressOf_iff {s : State} (hown : OwnIds s) {a : Nat} {roomId : QString}
    (ha : s.roomIds[a]? = some roomId) (ids : List QString) :
    AddressOf s ids a ↔ roomId ∈ ids ∧ s.twitchChans roomId = some a := by
  constructor
  · rintro ⟨id, hid, hmap⟩
    have heq := hown id a hmap
    rw [ha, Option.some.injEq] at heq
    subst heq
    exact ⟨hid, hmap⟩
  · rintro ⟨hid, hmap⟩
    exact ⟨roomId, hid, hmap⟩

/-- Only the handler at the end does something after a failure. -/
theorem asSaid_failure_iff {s : State} (hown : OwnIds s) (batch : List QString) :
    (∀ a ∈ (finallyCallback batch s).called.drop s.called.length, s.isOpen a = true) ∧
        (∀ a roomId, s.roomIds[a]? = some roomId → s.isOpen a = true →
          (finallyCallback batch s).live a = s.live a) ↔
      AllOpen s batch ∧ ∀ a, AddressOf s batch a → s.live a = false := by
  obtain ⟨hsets, -⟩ := finallyCallback_spec batch s
  obtain ⟨new, hcalled, hnew⟩ := hsets.called
  have hopen : (∀ a ∈ (finallyCallback batch s).called.drop s.called.length, s.isOpen a = true) ↔
      AllOpen s batch := by
    rw [hcalled, List.drop_left]
    exact forall_congr' fun a => imp_congr_left (hnew a)
  rw [hopen]
  refine and_congr_right fun hall => ?_
  constructor
  · intro hlive a ha
    obtain ⟨id, hid, hmap⟩ := ha
    rw [← hlive a id (hown id a hmap) (hall a ⟨id, hid, hmap⟩)]
    exact hsets.set a ⟨id, hid, hmap⟩
  · intro hoff a roomId _ _
    by_cases ha : AddressOf s batch a
    · rw [hsets.set a ha, hoff a ha]
    · exact hsets.other a ha

theorem asSaid_streams_iff {s : State} (hown : OwnIds s) (batch userIds : List QString) :
    (∀ a ∈ (finallyCallback batch (successCallback userIds s)).called.drop s.called.length,
        s.isOpen a = true) ∧
        (∀ a roomId, s.roomIds[a]? = some roomId → s.isOpen a = true →
          (finallyCallback batch (successCallback userIds s)).live a
            = statusAfter batch (.streams userIds) roomId (s.live a)) ↔
      Harmless s (.answer batch (.streams userIds)) := by
  obtain ⟨hon, hmap⟩ := successCallback_spec userIds s
  obtain ⟨hoff, -⟩ := finallyCallback_spec batch (successCallback userIds s)
  have hleft (a : Nat) : AddressOf (successCallback userIds s) batch a ↔
      ∃ id ∈ batch, id ∉ userIds ∧ s.twitchChans id = some a := by
    refine exists_congr fun id => and_congr_right fun _ => ?_
    rw [hmap]
    by_cases hid : id ∈ userIds <;> simp [hid]
  have hopen : (∀ a ∈ (finallyCallback batch (successCallback userIds s)).called.drop s.called.length,
      s.isOpen a = true) ↔ AllOpen s (userIds ++ batch) := by
    obtain ⟨newOn, hcalledOn, hnewOn⟩ := hon.called
    obtain ⟨newOff, hcalledOff, hnewOff⟩ := hoff.called
    rw [hcalledOff, hcalledOn, List.append_assoc, List.drop_left]
    refine forall_congr' fun a => imp_congr_left ?_
    rw [List.mem_append, hnewOn, hnewOff, hleft]
    constructor
    · rintro (⟨id, hid, ha⟩ | ⟨id, hid, -, ha⟩)
      · exact ⟨id, List.mem_append_left _ hid, ha⟩
      · exact ⟨id, List.mem_append_right _ hid, ha⟩
    · rintro ⟨id, hid, ha⟩
      by_cases hmem : id ∈ userIds
      · exact .inl ⟨id, hmem, ha⟩
      · exact .inr ⟨id, (List.mem_append.mp hid).resolve_left hmem, hmem, ha⟩
  rw [hopen]
  refine and_congr_right fun _ => forall_congr' fun a => forall_congr' fun roomId =>
    forall_congr' fun ha => forall_congr' fun _ => ?_
  have honIff := addressOf_iff hown ha userIds
  have hoffIff : AddressOf (successCallback userIds s) batch a ↔
      roomId ∈ batch ∧ roomId ∉ userIds ∧ s.twitchChans roomId = some a := by
    rw [hleft]
    constructor
    · rintro ⟨id, hid, hmem, hchan⟩
      have heq := hown id a hchan
      rw [ha, Option.some.injEq] at heq
      subst heq
      exact ⟨hid, hmem, hchan⟩
    · rintro ⟨hid, hmem, hchan⟩
      exact ⟨roomId, hid, hmem, hchan⟩
  -- the handlers set the channel only if the map has it
  have hlive : (finallyCallback batch (successCallback userIds s)).live a
      = if s.twitchChans roomId = some a then
          if roomId ∈ userIds then true else if roomId ∈ batch then false else s.live a
        else s.live a := by
    by_cases hset : AddressOf (successCallback userIds s) batch a
    · obtain ⟨hid, hmem, hchan⟩ := hoffIff.mp hset
      rw [hoff.set a hset, if_pos hchan, if_neg hmem, if_pos hid]
    · rw [hoff.other a hset]
      by_cases hset' : AddressOf s userIds a
      · obtain ⟨hid, hchan⟩ := honIff.mp hset'
        rw [hon.set a hset', if_pos hchan, if_pos hid]
      · rw [hon.other a hset']
        rw [hoffIff] at hset
        rw [honIff] at hset'
        by_cases hchan : s.twitchChans roomId = some a
        · rw [if_pos hchan, if_neg fun hid => hset' ⟨hid, hchan⟩]
          by_cases hid : roomId ∈ batch
          · exact absurd ⟨hid, fun h => hset' ⟨h, hchan⟩, hchan⟩ hset
          · rw [if_neg hid]
        · rw [if_neg hchan]
  rw [hlive, statusAfter]
  by_cases hchan : s.twitchChans roomId = some a <;> by_cases hid : roomId ∈ userIds <;>
    by_cases hbatch : roomId ∈ batch <;> simp [hchan, hid, hbatch]

theorem asSaid_iff {s s' : State} {op : Op} (hown : OwnIds s) (h : Step s op s') :
    AsSaid s op s' ↔ Harmless s op := by
  cases h with
  | close address => exact iff_of_true ⟨rfl, rfl⟩ trivial
  | @answer batch outcome hbatch =>
    have hown' : OwnIds { s with pending := s.pending.erase batch } := hown
    cases outcome with
    | streams userIds => exact asSaid_streams_iff hown' batch userIds
    | malformed => exact asSaid_failure_iff hown' batch
    | error => exact asSaid_failure_iff hown' batch
    | timedOut => exact asSaid_failure_iff hown' batch

/-! ## Runs -/

/--
Every request of a run leaves the open channels with the status they should have and calls no
other channel, exactly if what the handlers did was right each time.
-/
theorem run_asSaid_iff (roomIds : List QString) (live : Nat → Bool) (keys : List QString)
    (ops : List Op) (s' : State) :
    Run (fun s op s' => Step s op s' ∧ AsSaid s op s') (bulkRefreshLiveStatus roomIds live keys) ops s' ↔
      Run (fun s op s' => Step s op s' ∧ Harmless s op) (bulkRefreshLiveStatus roomIds live keys)
        ops s' := by
  have hstep (s : State) (op : Op) (s' : State) : OwnIds s → Step s op s' → OwnIds s' := OwnIds.of_step
  exact Run.and_congr hstep (fun s op s' hown h => asSaid_iff hown h)
    (bulkRefreshLiveStatus_own roomIds live keys)

/-- A live channel is set offline when the request fails. -/
theorem error_sets_offline :
    ∃ s', Run Step (bulkRefreshLiveStatus [['1']] (fun _ => true) [['1']])
        [.answer [['1']] .error] s' ∧
      ¬ Run (fun s op s' => Step s op s' ∧ AsSaid s op s')
        (bulkRefreshLiveStatus [['1']] (fun _ => true) [['1']]) [.answer [['1']] .error] s' := by
  refine ⟨_, Run.single (.answer _ .error (by decide)), ?_⟩
  rintro (_ | ⟨⟨_, hsaid⟩, ⟨⟩⟩)
  have hlive := hsaid.2 0 ['1'] rfl rfl
  exact absurd hlive (by decide)

end LiveStatus

end Dankerino
