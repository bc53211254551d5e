import Dankerino.PubSub.Conservation

/-!
# Topics that are subscribed to twice

`listenToChannelModerationActions`, `listenToAutomod` and `listenToChannelPointRewards` look for
their topic in the clients before they ask for it. They do not look in the backlog. So a topic
that is asked for twice before a connection opens is queued twice (`duplicate_in_backlog`), and
the connection then subscribes to both copies.

Nothing else makes copies: connection events only move topics, which `step_topics` says. As long
as no call is made for a topic that is waiting in the backlog, all topics stay different.
-/

namespace Dankerino

open Infra

namespace PubSub

/-- The topic that one of the three guarded functions would ask for. -/
def guardedTopic (s : PubSub) : Event → Option QString
  | .listenToChannelModerationActions channelID _ =>
    if s.userID.isEmpty then none
    else some ("chat_moderator_actions.".toList ++ s.userID ++ ".".toList ++ channelID)
  | .listenToAutomod channelID _ =>
    if s.userID.isEmpty then none
    else some ("automod-queue.".toList ++ s.userID ++ ".".toList ++ channelID)
  | .listenToChannelPointRewards channelID _ =>
    some ("community-points-channel-v1.".toList ++ channelID)
  | _ => none

/-- Everything but the two functions that do not look before they ask. -/
def Guarded : Event → Prop
  | .listenToTopic _ _ => False
  | .listenToWhispers _ => False
  | _ => True

/-- The call is not made for a topic that is waiting in the backlog. -/
def NotWaiting (s : PubSub) (e : Event) : Prop := ∀ topic ∈ s.guardedTopic e, topic ∉ s.requests

theorem isListeningToTopic_iff {s : PubSub} {topic : QString} :
    s.isListeningToTopic topic = true ↔ topic ∈ s.clients.topics := by
  unfold isListeningToTopic
  induction s.clients with
  | nil => simp
  | cons p rest ih =>
    rw [List.any_cons, Bool.or_eq_true, ih, ClientMap.topics_cons, Multiset.mem_add,
      PubSubClient.isListeningToTopic_iff, Multiset.mem_coe]

/-- A guarded function asks for at most one topic, which no client has. -/
theorem listenUnlessListening_requested {s : PubSub} {topic : QString} {con : GetConnection}
    (hnew : topic ∉ s.requests) :
    (s.listenUnlessListening topic con).2 = [] ∨
      ((s.listenUnlessListening topic con).2 = [topic] ∧ topic ∉ s.topics) := by
  unfold listenUnlessListening
  split
  · exact Or.inl rfl
  · next h =>
    refine Or.inr ⟨rfl, ?_⟩
    rw [topics, Multiset.mem_add, not_or, Multiset.mem_coe, ← isListeningToTopic_iff]
    exact ⟨h, hnew⟩

theorem guardFresh_requested {s s' : PubSub} {con : GetConnection} {r : PubSub × List QString}
    {eff : Effect} (h : s.guardFresh con r = some (s', eff)) : eff.requested = r.2 := by
  unfold guardFresh at h
  split at h
  · cases h
    rfl
  · exact nomatch h

/-- What one step asks for is at most one topic, and a new one. -/
theorem step_requested {s s' : PubSub} {e : Event} {eff : Effect} (hg : Guarded e)
    (hw : NotWaiting s e) (h : s.step e = some (s', eff)) :
    eff.requested = [] ∨ ∃ topic, eff.requested = [topic] ∧ topic ∉ s.topics := by
  cases e with
  | listenToTopic => exact hg.elim
  | listenToWhispers => exact hg.elim
  | listenToChannelModerationActions channelID con =>
    simp only [step] at h
    split at h
    · cases h
    · rw [guardFresh_requested h]
      unfold listenToChannelModerationActions
      split
      · exact Or.inl rfl
      · next huser =>
        have hnew := hw _ (if_neg huser)
        exact (listenUnlessListening_requested hnew).imp id fun h => ⟨_, h⟩
  | listenToAutomod channelID con =>
    simp only [step] at h
    split at h
    · cases h
    · rw [guardFresh_requested h]
      unfold listenToAutomod
      split
      · exact Or.inl rfl
      · next huser =>
        have hnew := hw _ (if_neg huser)
        exact (listenUnlessListening_requested hnew).imp id fun h => ⟨_, h⟩
  | listenToChannelPointRewards channelID con =>
    simp only [step] at h
    split at h
    · cases h
    · rw [guardFresh_requested h]
      exact (listenUnlessListening_requested (hw _ rfl)).imp id fun h => ⟨_, h⟩
  | setAccountData | unlistenAllModerationActions | unlistenAutomod | unlistenWhispers =>
    cases h
    exact Or.inl rfl
  | unlistenPrefix hdl p =>
    simp only [step] at h
    split at h
    · cases h
    · cases h
      exact Or.inl rfl
  | connectionOpen | connectionFail | retryTimer =>
    simp only [step] at h
    split at h
    · cases h
      exact Or.inl rfl
    · cases h
  | connectionClose hdl con =>
    simp only [step] at h
    split at h
    · obtain ⟨_, -, heq⟩ := Option.map_eq_some_iff.mp h
      cases heq
      exact Or.inl rfl
    · cases h

theorem step_nodup {s s' : PubSub} {e : Event} {eff : Effect} (hs : Inv s) (hnd : s.topics.Nodup)
    (hg : Guarded e) (hw : NotWaiting s e) (h : s.step e = some (s', eff)) : s'.topics.Nodup := by
  have hbal := (step_topics hs h).1
  have hsum : (s'.topics + (eff.returned : Multiset QString)).Nodup := by
    rw [hbal]
    rcases step_requested hg hw h with hreq | ⟨topic, hreq, hnew⟩
    · rw [hreq]
      simpa using hnd
    · rw [hreq, Multiset.coe_singleton, add_comm, Multiset.singleton_add]
      exact Multiset.nodup_cons.mpr ⟨hnew, hnd⟩
  exact Multiset.nodup_of_le (Multiset.le_add_right _ _) hsum

/--
**No topic is subscribed to twice** in a run of guarded calls and connection events none of which
is made for a topic in the backlog.
-/
theorem run_topics_nodup {s : PubSub} {ls : List (Event × Effect)}
    (h : Run (fun s l s' => (Guarded l.1 ∧ NotWaiting s l.1) ∧ Step s l s') new ls s) :
    s.topics.Nodup := by
  have hinv : Inv s ∧ s.topics.Nodup := by
    have hstep : ∀ s l s', Inv s ∧ s.topics.Nodup →
        (Guarded l.1 ∧ NotWaiting s l.1) ∧ Step s l s' → Inv s' ∧ s'.topics.Nodup := by
      rintro s l s' ⟨hs, hnd⟩ ⟨⟨hg, hw⟩, hstep⟩
      exact ⟨step_inv s l s' hs hstep, step_nodup hs hnd hg hw hstep⟩
    exact h.invariant hstep ⟨inv_new, Multiset.nodup_zero⟩
  exact hinv.2

/-- Two different topics, the second one asked for when the first has left the backlog. -/
theorem run_topics_nodup_two :
    ∃ s, Run Step new
        [(.listenToChannelPointRewards ['1'] (some 0),
            { requested := ["community-points-channel-v1.1".toList] }),
          (.connectionOpen 0 none, {}), (.listenToChannelPointRewards ['1'] none, {})] s ∧
      s.topics.Nodup := by
  obtain ⟨s, hs⟩ : ∃ s, Run (fun s l s' => (Guarded l.1 ∧ NotWaiting s l.1) ∧ Step s l s') new
      [(.listenToChannelPointRewards ['1'] (some 0),
          { requested := ["community-points-channel-v1.1".toList] }),
        (.connectionOpen 0 none, {}), (.listenToChannelPointRewards ['1'] none, {})] s := by
    refine ⟨_, .cons ⟨⟨trivial, ?_⟩, rfl⟩ (.cons ⟨⟨trivial, ?_⟩, rfl⟩
      (.cons ⟨⟨trivial, ?_⟩, rfl⟩ (.nil _)))⟩
    · exact fun _ _ h => nomatch h
    · exact fun _ h => nomatch h
    · exact fun _ _ h => nomatch h
  exact ⟨s, hs.mono fun _ _ _ h => h.2, run_topics_nodup hs⟩

/-- The same call made twice before a connection opens queues its topic twice. -/
theorem duplicate_in_backlog :
    ¬ ∀ (ls : List (Event × Effect)) (s : PubSub),
      Run (fun s l s' => Guarded l.1 ∧ Step s l s') new ls s → s.topics.Nodup := by
  intro hall
  let s₁ : PubSub := (new.listenToChannelPointRewards ['1'] (some 0)).1
  let s₂ : PubSub := (s₁.listenToChannelPointRewards ['1'] none).1
  have hs : Run (fun s l s' => Guarded l.1 ∧ Step s l s') new
      [(.listenToChannelPointRewards ['1'] (some 0),
          { requested := ["community-points-channel-v1.1".toList] }),
        (.listenToChannelPointRewards ['1'] none,
          { requested := ["community-points-channel-v1.1".toList] })] s₂ :=
    .cons ⟨trivial, show Step new _ s₁ from rfl⟩ (.cons ⟨trivial, rfl⟩ (.nil _))
  have hreq : s₂.requests = ["community-points-channel-v1.1".toList,
      "community-points-channel-v1.1".toList] := rfl
  have hnd := Multiset.nodup_of_le (Multiset.le_add_left _ s₂.clients.topics) (hall _ s₂ hs)
  rw [hreq] at hnd
  exact absurd hnd (by decide)

end PubSub

end Dankerino
