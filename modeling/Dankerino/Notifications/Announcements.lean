import Dankerino.Notifications.NotificationController
import Mathlib.Data.Finset.Card
import Mathlib.Data.List.Nodup

/-!
# Which channels are announced

* `Announces` is what a poll should do: a channel of the list that is not open and is reported live
  gets one notification if it was last known not to be live, and none if it was.
* `fakeTwitchChannels` has a name exactly if the last response about that spelling had it live
  (`synced_step`). So a response announces a channel once for each new spelling (`count_checkStreams`).
* `Regular` is the condition that these spellings agree with the channel, and `announces_iff_regular`
  says that the runs that announce are those of regular steps.
-/

namespace Dankerino

open Infra AbstractIrcServer

namespace NotificationController

section

variable (toLower : QString → QString)

/-! ## What is known -/

/-- The last known status of a channel, by a poll or from the open channel. -/
def lastKnown : List Report → QString → Bool
  | [], _ => false
  | .polled batch liveStreams :: history, login =>
    if login ∈ batch.map toLower then decide (login ∈ liveStreams) else lastKnown history login
  | .channel channelName live :: history, login =>
    if login = channelName then live else lastKnown history login

/-- What the last response that covered a name as it is spelled had of it. -/
def lastPolled : List Report → QString → Bool
  | [], _ => false
  | .polled batch liveStreams :: history, name =>
    if name ∈ batch then decide (toLower name ∈ liveStreams) else lastPolled history name
  | .channel _ _ :: history, name => lastPolled history name

/-- How many notifications were sent for the channel. -/
def notifications (login : QString) (s : NotificationController) : Nat :=
  s.sent.countP fun notification => toLower notification.channelName = login

/-- The response reports a channel that is in the list and not open. -/
def Reports (s : NotificationController) (batch liveStreams : List QString) (name : QString) : Prop :=
  name ∈ batch ∧ s.isChannelNotified toLower name ∧ s.isChannelEmpty toLower name ∧
    toLower name ∈ liveStreams

def Announces (s : NotificationController) : Event → NotificationController → Prop
  | .answer batch (some liveStreams), s' => ∀ name, s.Reports toLower batch liveStreams name →
      s'.notifications toLower (toLower name) = s.notifications toLower (toLower name) +
        if lastKnown toLower s.history (toLower name) then 0 else 1
  | _, _ => True

/--
Of a channel that was last known live, the last response about each spelling in the batch had it live.
Of another channel this is so for all spellings but one.
-/
def Regular (s : NotificationController) : Event → Prop
  | .answer batch (some liveStreams) => ∀ name, s.Reports toLower batch liveStreams name →
      if lastKnown toLower s.history (toLower name) then
        ∀ other ∈ batch, toLower other = toLower name → lastPolled toLower s.history other
      else ∃! other, other ∈ batch ∧ toLower other = toLower name ∧
        lastPolled toLower s.history other = false
  | _ => True

/-! ## A batch -/

/-- The names of the channel that are new. -/
def newNames (login : QString) (batch fakeTwitchChannels : List QString) : Finset QString :=
  batch.toFinset.filter fun name => toLower name = login ∧ name ∉ fakeTwitchChannels

variable {toLower} {s : NotificationController}

theorem checkStream_fake (live : Bool) (name : QString) (h : s.fakeTwitchChannels.Nodup) :
    (s.checkStream live name).fakeTwitchChannels.Nodup ∧
      ∀ other, other ∈ (s.checkStream live name).fakeTwitchChannels ↔
        if other = name then live = true else other ∈ s.fakeTwitchChannels := by
  unfold checkStream removeFakeChannel
  cases live with
  | false =>
    by_cases hmem : name ∈ s.fakeTwitchChannels
    · simp only [Bool.not_false, if_pos, hmem]
      refine ⟨h.erase _, fun other => ?_⟩
      rw [h.mem_erase_iff]
      by_cases heq : other = name
      · simp [heq]
      · simp [heq]
    · simp only [Bool.not_false, if_pos, hmem]
      refine ⟨h, fun other => ?_⟩
      by_cases heq : other = name
      · simpa [heq] using hmem
      · simp [heq]
  | true =>
    by_cases hmem : name ∈ s.fakeTwitchChannels
    · simp only [Bool.not_true, Bool.false_eq_true, if_false, hmem, if_true]
      refine ⟨h, fun other => ?_⟩
      by_cases heq : other = name
      · simpa [heq] using hmem
      · simp [heq]
    · simp only [Bool.not_true, Bool.false_eq_true, if_false, hmem]
      refine ⟨List.concat_eq_append ▸ h.concat hmem, fun other => ?_⟩
      by_cases heq : other = name
      · simp [heq]
      · simp [heq]

theorem checkStream_notifications (live : Bool) (name login : QString) :
    (s.checkStream live name).notifications toLower login = s.notifications toLower login +
      if live ∧ toLower name = login ∧ name ∉ s.fakeTwitchChannels then 1 else 0 := by
  unfold checkStream removeFakeChannel notifications
  cases live with
  | false => by_cases hmem : name ∈ s.fakeTwitchChannels <;> simp [hmem]
  | true =>
    by_cases hmem : name ∈ s.fakeTwitchChannels
    · simp [hmem]
    · simp [hmem, List.countP_append, List.countP_cons]

theorem checkStreams_cons (liveStreams : List QString) (name : QString) (batch : List QString)
    (s : NotificationController) :
    s.checkStreams toLower liveStreams (name :: batch)
      = (s.checkStream (decide (toLower name ∈ liveStreams)) name).checkStreams toLower liveStreams
          batch := rfl

theorem checkStreams_fake (liveStreams batch : List QString) (h : s.fakeTwitchChannels.Nodup) :
    (s.checkStreams toLower liveStreams batch).fakeTwitchChannels.Nodup ∧
      ∀ other, other ∈ (s.checkStreams toLower liveStreams batch).fakeTwitchChannels ↔
        if other ∈ batch then toLower other ∈ liveStreams else other ∈ s.fakeTwitchChannels := by
  induction batch generalizing s with
  | nil => exact ⟨h, fun other => by simp [checkStreams]⟩
  | cons name batch ih =>
    rw [checkStreams_cons]
    obtain ⟨hnodup, hone⟩ := checkStream_fake (decide (toLower name ∈ liveStreams)) name h
    obtain ⟨hnodup', hrest⟩ := ih hnodup
    refine ⟨hnodup', fun other => ?_⟩
    rw [hrest, hone]
    by_cases hmem : other ∈ batch
    · simp [hmem]
    · by_cases heq : other = name
      · simp [heq]
      · simp [hmem, heq]

/-- The first name of a batch that is live is new to the rest no more. -/
theorem card_newNames_cons {login name : QString} {batch fake fake' : List QString}
    (hfake : ∀ other, other ∈ fake' ↔ other = name ∨ other ∈ fake) :
    (newNames toLower login (name :: batch) fake).card
      = (if toLower name = login ∧ name ∉ fake then 1 else 0)
        + (newNames toLower login batch fake').card := by
  have hrest : newNames toLower login batch fake' = (newNames toLower login batch fake).erase name := by
    ext other
    simp only [newNames, Finset.mem_filter, Finset.mem_erase, hfake]
    tauto
  rw [hrest]
  by_cases hnew : toLower name = login ∧ name ∉ fake
  · have hcons : newNames toLower login (name :: batch) fake
        = insert name ((newNames toLower login batch fake).erase name) := by
      ext other
      simp only [newNames, Finset.mem_filter, Finset.mem_insert, Finset.mem_erase, List.toFinset_cons]
      by_cases heq : other = name
      · simp [heq, hnew]
      · simp [heq]
    rw [hcons, Finset.card_insert_of_notMem (Finset.notMem_erase _ _), if_pos hnew, Nat.add_comm]
  · have hnot : name ∉ newNames toLower login batch fake :=
      fun hmem => hnew (Finset.mem_filter.mp hmem).2
    have hcons : newNames toLower login (name :: batch) fake = newNames toLower login batch fake := by
      ext other
      simp only [newNames, Finset.mem_filter, Finset.mem_insert, List.toFinset_cons]
      by_cases heq : other = name
      · simp [heq, hnew]
      · simp [heq]
    rw [hcons, Finset.erase_eq_of_notMem hnot, if_neg hnew, Nat.zero_add]

/-- A name of another channel does not matter. -/
theorem newNames_cons_of_ne {login name : QString} {batch fake fake' : List QString}
    (hne : toLower name ≠ login) (hfake : ∀ other, other ≠ name → (other ∈ fake' ↔ other ∈ fake)) :
    newNames toLower login (name :: batch) fake = newNames toLower login batch fake' := by
  ext other
  simp only [newNames, Finset.mem_filter, List.toFinset_cons, Finset.mem_insert]
  by_cases heq : other = name
  · simp [heq, hne]
  · simp [heq, hfake other heq]

/-- A channel that is live is announced once for each new spelling. -/
theorem count_checkStreams {liveStreams : List QString} {login : QString} (hlive : login ∈ liveStreams)
    (batch : List QString) (h : s.fakeTwitchChannels.Nodup) :
    (s.checkStreams toLower liveStreams batch).notifications toLower login
      = s.notifications toLower login + (newNames toLower login batch s.fakeTwitchChannels).card := by
  induction batch generalizing s with
  | nil => rfl
  | cons name batch ih =>
    obtain ⟨hnodup, hone⟩ := checkStream_fake (decide (toLower name ∈ liveStreams)) name h
    rw [checkStreams_cons, ih hnodup, checkStream_notifications]
    by_cases hname : toLower name = login
    · have hfake : ∀ other, other ∈ (s.checkStream (decide (toLower name ∈ liveStreams))
          name).fakeTwitchChannels ↔ other = name ∨ other ∈ s.fakeTwitchChannels := by
        intro other
        rw [hone]
        by_cases heq : other = name
        · simp [heq, hname, hlive]
        · simp [heq]
      rw [card_newNames_cons hfake, ← Nat.add_assoc]
      simp [hname, hlive]
    · have hfake : ∀ other, other ≠ name → (other ∈ (s.checkStream
          (decide (toLower name ∈ liveStreams)) name).fakeTwitchChannels ↔
            other ∈ s.fakeTwitchChannels) := by
        intro other hne
        rw [hone, if_neg hne]
      rw [newNames_cons_of_ne hname hfake]
      simp [hname]

/-! ## What the list of announced channels is -/

variable (toLower) in
/-- The list has the spellings that the last response had live. -/
structure Synced (fakeTwitchChannels : List QString) (history : List Report) : Prop where
  nodup : fakeTwitchChannels.Nodup
  fake : ∀ name, name ∈ fakeTwitchChannels ↔ lastPolled toLower history name = true

theorem synced_nil : Synced toLower [] [] :=
  ⟨List.nodup_nil, fun name => by simp [lastPolled]⟩

theorem setLive_frame (name : QString) (channel : OpenChannel) (newLiveStatus : Bool)
    (s : NotificationController) :
    (s.setLive toLower name channel newLiveStatus).fakeTwitchChannels = s.fakeTwitchChannels ∧
      (s.setLive toLower name channel newLiveStatus).history
        = .channel name newLiveStatus :: s.history := by
  unfold setLive
  by_cases hlive : channel.live = newLiveStatus
  · simp [hlive]
  · cases newLiveStatus <;> simp [hlive]

theorem synced_onAnswer (h : Synced toLower s.fakeTwitchChannels s.history)
    (batch liveStreams : List QString) :
    Synced toLower (s.onAnswer toLower batch (some liveStreams)).fakeTwitchChannels
      (s.onAnswer toLower batch (some liveStreams)).history := by
  obtain ⟨hnodup, hfake⟩ := @checkStreams_fake toLower
    { s with requests := s.requests.erase batch } liveStreams batch h.nodup
  refine ⟨hnodup, fun name => (hfake name).trans ?_⟩
  by_cases hbatch : name ∈ batch
  · simp [onAnswer, lastPolled, hbatch]
  · simpa [onAnswer, lastPolled, hbatch] using h.fake name

theorem synced_step {s' : NotificationController} {e : Event}
    (h : Synced toLower s.fakeTwitchChannels s.history) (hstep : Step toLower s e s') :
    Synced toLower s'.fakeTwitchChannels s'.history := by
  cases hstep with
  | add => exact h
  | remove => exact h
  | toggle channelName =>
    unfold updateChannelNotification
    split
    · exact h
    · exact h
  | insertAt => exact h
  | removeAt => exact h
  | configure => exact h
  | openChannel => exact h
  | closeChannel => exact h
  | setLive name channel newLiveStatus hfind =>
    obtain ⟨hfake, hhistory⟩ := @setLive_frame toLower name channel newLiveStatus s
    rw [hfake, hhistory]
    exact ⟨h.nodup, h.fake⟩
  | poll => exact h
  | answer batch streams hmem =>
    cases streams with
    | none => exact h
    | some liveStreams => exact synced_onAnswer h batch liveStreams

/-! ## The result -/

/-- No spelling is new. -/
theorem card_newNames_eq_zero {login : QString} {batch : List QString}
    (h : Synced toLower s.fakeTwitchChannels s.history) :
    (newNames toLower login batch s.fakeTwitchChannels).card = 0 ↔
      ∀ other ∈ batch, toLower other = login → lastPolled toLower s.history other = true := by
  rw [Finset.card_eq_zero, newNames, Finset.filter_eq_empty_iff]
  simp only [List.mem_toFinset, h.fake, not_and, not_not]

/-- One spelling is new. -/
theorem card_newNames_eq_one {login : QString} {batch : List QString}
    (h : Synced toLower s.fakeTwitchChannels s.history) :
    (newNames toLower login batch s.fakeTwitchChannels).card = 1 ↔
      ∃! other, other ∈ batch ∧ toLower other = login ∧
        lastPolled toLower s.history other = false := by
  rw [Finset.card_eq_one, Finset.singleton_iff_unique_mem]
  simp only [newNames, Finset.mem_filter, List.mem_toFinset, h.fake, Bool.not_eq_true]

theorem announces_iff {s' : NotificationController} {e : Event}
    (h : Synced toLower s.fakeTwitchChannels s.history) (hstep : Step toLower s e s') :
    s.Announces toLower e s' ↔ s.Regular toLower e := by
  cases hstep with
  | add => exact Iff.rfl
  | remove => exact Iff.rfl
  | toggle => exact Iff.rfl
  | insertAt => exact Iff.rfl
  | removeAt => exact Iff.rfl
  | configure => exact Iff.rfl
  | openChannel => exact Iff.rfl
  | closeChannel => exact Iff.rfl
  | setLive => exact Iff.rfl
  | poll => exact Iff.rfl
  | answer batch streams hmem =>
    cases streams with
    | none => exact Iff.rfl
    | some liveStreams =>
      refine forall_congr' fun name => forall_congr' fun hreports => ?_
      have hcount := @count_checkStreams toLower { s with requests := s.requests.erase batch }
        liveStreams (toLower name) hreports.2.2.2 batch h.nodup
      have hcount' : (s.onAnswer toLower batch (some liveStreams)).notifications toLower (toLower name)
          = s.notifications toLower (toLower name)
            + (newNames toLower (toLower name) batch s.fakeTwitchChannels).card := hcount
      rw [hcount', Nat.add_left_cancel_iff]
      cases lastKnown toLower s.history (toLower name) with
      | true => exact card_newNames_eq_zero h
      | false => exact card_newNames_eq_one h

variable (toLower) in
/-- The runs in which every response announces as it should are those whose steps are regular. -/
theorem announces_iff_regular (twitchSetting : List QString) (settings : Settings) (es : List Event)
    (s : NotificationController) :
    Run (fun s e s' => Step toLower s e s' ∧ s.Announces toLower e s')
        (start twitchSetting settings) es s ↔
      Run (fun s e s' => Step toLower s e s' ∧ s.Regular toLower e)
        (start twitchSetting settings) es s := by
  have hkeep : ∀ s e s', Synced toLower s.fakeTwitchChannels s.history → Step toLower s e s' →
      Synced toLower s'.fakeTwitchChannels s'.history := fun _ _ _ h hstep => synced_step h hstep
  exact Run.and_congr hkeep (fun _ _ _ h hstep => announces_iff h hstep) synced_nil

/-- Names that are spelled in one way, and whose channels were not heard of in another way since. -/
theorem regular_of_agrees {batch liveStreams : List QString}
    (hspelling : ∀ name ∈ batch, ∀ other ∈ batch, toLower other = toLower name → other = name)
    (hagrees : ∀ name ∈ batch,
      lastPolled toLower s.history name = lastKnown toLower s.history (toLower name)) :
    s.Regular toLower (.answer batch (some liveStreams)) := by
  rintro name ⟨hname, -⟩
  cases hknown : lastKnown toLower s.history (toLower name) with
  | true =>
    simp only [if_true]
    intro other hother heq
    rw [hspelling name hname other hother heq, hagrees name hname, hknown]
  | false =>
    simp only [Bool.false_eq_true, if_false]
    refine ⟨name, ⟨hname, rfl, by rw [hagrees name hname, hknown]⟩, ?_⟩
    rintro other ⟨hother, heq, -⟩
    exact hspelling name hname other hother heq

end

/-- A channel goes offline while it is open, is closed, and goes live again. -/
theorem not_announced :
    ¬ ∀ (toLower : QString → QString) (twitchSetting : List QString) (settings : Settings)
      (es : List Event) (s : NotificationController) (e : Event) (s' : NotificationController),
      Run (Step toLower) (start twitchSetting settings) es s → Step toLower s e s' →
        s.Announces toLower e s' := by
  intro h
  have hlast := h (List.map Char.toLower) [['f']] ⟨true, false, true, true, true, false, false⟩ _ _
    (.answer [['f']] (some [['f']])) _
    (.cons (.poll _) <|
      .cons (.answer _ [['f']] (some [['f']]) (by decide)) <|
      .cons (.openChannel _ ['f'] ['F'] (by decide)) <|
      .cons (.setLive _ ['f'] ⟨['F'], false⟩ false (by decide)) <|
      .cons (.closeChannel _ ['f']) <|
      .cons (.poll _) <| .nil _)
    (.answer _ [['f']] (some [['f']]) (by decide))
  have hcount := hlast ['f'] ⟨by decide, by decide, by decide, by decide⟩
  revert hcount
  decide

end NotificationController

end Dankerino
