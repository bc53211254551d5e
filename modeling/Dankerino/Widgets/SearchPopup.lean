import Dankerino.Infra.SortUnique
import Dankerino.Widgets.ChannelView
import Mathlib.Algebra.Order.Group.Int
import Mathlib.Data.List.Lex

/-!
# Searching messages

`SearchPopup` of `widgets/helper/SearchPopup.cpp`. A search over several views joins the messages
that the views' filters let through, removes what has an id that is there already, sorts by time,
and puts what the predicates of the search text accept into a new channel.

Two things get lost on the way. The copies of an id are removed before the predicates are asked, so
the one that is kept may be one that they reject. And the queue of the joined messages is made as
large as they are many, but the channel of the results has the limit of every channel. Otherwise
the search is complete (`search_complete_iff`).
-/

namespace Dankerino

open Infra

/-- `MessagePredicate::appliesTo`. -/
abbrev MessagePredicate := Message → Bool

/-- A view that is searched: `getFilterSet()` and `channel()`. -/
structure SearchedView where
  filterSet : Option FilterSet
  channel : Channel

/-- The limit of a channel's messages. -/
def CHANNEL_LIMIT : Nat := 1000

structure SearchPopup where
  searchChannels : List SearchedView
  channelName : QString
  snapshot : List Message := []

namespace SearchPopup

/-- Whether no predicate fails. -/
def accept (predicates : List MessagePredicate) (message : Message) : Bool :=
  predicates.all (· message)

def filterLoop (predicates : List MessagePredicate) : List Message → Channel → Option Channel
  | [], channel => some channel
  | message :: rest, channel =>
    if accept predicates message then
      match channel.addMessage message none with
      | none => none
      | some (channel, _) => filterLoop predicates rest channel
    else filterLoop predicates rest channel

/-- `SearchPopup::filter`, for the predicates of the text. -/
def filter (today : QDate) (predicates : List MessagePredicate) (channelName : QString)
    (snapshot : List Message) : Option Channel :=
  filterLoop predicates snapshot (.new CHANNEL_LIMIT channelName .none today)

/-- The loop over a view's snapshot. -/
def shown (view : SearchedView) : List Message :=
  view.channel.getMessageSnapshot.filter fun message =>
    match view.filterSet with
    | some filterSet => filterSet.filter message
    | none => true

/-- Qt compares a null string like an empty one. -/
def hasId (id : QString) : Bool := !id.isEmpty

def combinedSnapshot (views : List SearchedView) : List Message := views.flatMap shown

/-- What is left of the copies of an id, in the order of the ids. -/
def withoutCopies (sorting : StdSort Message) (views : List SearchedView) : List Message :=
  unique (sameKey Message.id hasId)
    (sorting.sort (fun a b => QString.less b.id a.id) (combinedSnapshot views))

/-- What is pushed into the queue. -/
def sortedByTime (sorting : StdSort Message) (views : List SearchedView) : List Message :=
  sorting.sort (fun a b => decide (a.serverReceivedTime < b.serverReceivedTime))
    (withoutCopies sorting views)

def buildSnapshot (sorting : StdSort Message) (popup : SearchPopup) : Option (List Message) :=
  match popup.searchChannels with
  | [view] => some view.channel.getMessageSnapshot
  | views =>
    let combined := sortedByTime sorting views
    match (LimitedQueue.new combined.length).pushFront combined with
    | none => none
    | some (queue, _) => some queue.getSnapshot

/-- `SearchPopup::search`, with the channel that it makes. The snapshot is kept for the next search. -/
def search (sorting : StdSort Message) (today : QDate) (popup : SearchPopup)
    (predicates : List MessagePredicate) : Option (SearchPopup × Channel) :=
  let snapshot := if popup.snapshot.length = 0 then popup.buildSnapshot sorting else some popup.snapshot
  match snapshot with
  | none => none
  | some snapshot =>
    match filter today predicates popup.channelName snapshot with
    | none => none
    | some channel => some ({ popup with snapshot := snapshot }, channel)

/-- A search for each text that the input has had. -/
def searchAll (sorting : StdSort Message) (today : QDate) :
    SearchPopup → List (List MessagePredicate) → Option SearchPopup
  | popup, [] => some popup
  | popup, predicates :: texts =>
    match popup.search sorting today predicates with
    | none => none
    | some (popup, _) => searchAll sorting today popup texts

/-! ## What a search is for -/

/-- What the result should be made of. -/
def found (views : List SearchedView) (predicates : List MessagePredicate) : List Message :=
  (combinedSnapshot views).filter (accept predicates)

/--
A result with the messages in ascending order of time: all without an id, one for each id, and no
others.
-/
structure Complete (found result : List Message) : Prop where
  ascending : result.Pairwise fun a b => a.serverReceivedTime ≤ b.serverReceivedTime
  withoutId : (result.filter fun m => !hasId m.id).Perm (found.filter fun m => !hasId m.id)
  once : ((result.filter fun m => hasId m.id).map Message.id).Nodup
  noneOmitted : ∀ m ∈ found, ∃ m' ∈ result, m'.id = m.id
  noOthers : ∀ m ∈ result, m ∈ found

/-- How many messages a complete result has. -/
def distinctCount (found : List Message) : Nat :=
  (found.filter fun m => !hasId m.id).length
    + ((found.filter fun m => hasId m.id).map Message.id).dedup.length

/-- The predicates say the same about copies. -/
def CopiesAgree (views : List SearchedView) (predicates : List MessagePredicate) : Prop :=
  ∀ a ∈ combinedSnapshot views, ∀ b ∈ combinedSnapshot views,
    hasId a.id = true → a.id = b.id → accept predicates a = accept predicates b

theorem Complete.length_eq {found result : List Message} (h : Complete found result) :
    result.length = distinctCount found := by
  have hids : ((result.filter fun m => hasId m.id).map Message.id).Perm
      ((found.filter fun m => hasId m.id).map Message.id).dedup := by
    refine (List.perm_ext_iff_of_nodup h.once (List.nodup_dedup _)).mpr fun id => ?_
    simp only [List.mem_dedup, List.mem_map, List.mem_filter]
    constructor
    · rintro ⟨m, ⟨hm, hid⟩, rfl⟩
      exact ⟨m, ⟨h.noOthers m hm, hid⟩, rfl⟩
    · rintro ⟨m, ⟨hm, hid⟩, rfl⟩
      obtain ⟨m', hm', heq⟩ := h.noneOmitted m hm
      exact ⟨m', ⟨hm', by rw [heq]; exact hid⟩, heq⟩
  have hsplit := (List.filter_append_perm (fun m : Message => hasId m.id) result).length_eq
  rw [List.length_append] at hsplit
  have hlen := hids.length_eq
  rw [List.length_map] at hlen
  unfold distinctCount
  rw [← hsplit, ← hlen, h.withoutId.length_eq, Nat.add_comm]

/-! ## The channel of the results -/

theorem filterLoop_spec (predicates : List MessagePredicate) (snapshot : List Message) :
    ∀ channel : Channel, 0 < channel.messages.limit →
      ∃ channel', filterLoop predicates snapshot channel = some channel' ∧
        channel'.messages.items
          = (channel.messages.items ++ snapshot.filter (accept predicates)).rtake
              channel.messages.limit := by
  induction snapshot with
  | nil =>
    intro channel _
    refine ⟨channel, rfl, ?_⟩
    rw [List.filter_nil, List.append_nil, rtake_of_length_le channel.messages.length_items_le]
  | cons message rest ih =>
    intro channel hpos
    unfold filterLoop
    cases hacc : accept predicates message with
    | false =>
      rw [List.filter_cons_of_neg (by simp [hacc])]
      exact ih channel hpos
    | true =>
      obtain ⟨⟨channel₁, signals⟩, hadd⟩ := Channel.exists_addMessage hpos message none
      obtain ⟨rfl, -⟩ := Channel.addMessage_spec hadd
      obtain ⟨channel', hrun, hitems⟩ :=
        ih { channel with messages := (channel.messages.pushBack message).1 } hpos
      refine ⟨channel', ?_, ?_⟩
      · simp only [hadd, if_true]
        exact hrun
      · rw [hitems, LimitedQueue.pushBack_items]
        show ((channel.messages.items ++ [message]).rtake channel.messages.limit
          ++ rest.filter (accept predicates)).rtake channel.messages.limit = _
        rw [rtake_append_rtake, List.append_assoc, List.filter_cons_of_pos hacc, List.singleton_append]

/-- `filter` keeps the last ones of what the predicates accept. -/
theorem filter_spec (today : QDate) (predicates : List MessagePredicate) (channelName : QString)
    (snapshot : List Message) :
    ∃ channel, filter today predicates channelName snapshot = some channel ∧
      channel.getMessageSnapshot = (snapshot.filter (accept predicates)).rtake CHANNEL_LIMIT :=
  filterLoop_spec predicates snapshot (.new CHANNEL_LIMIT channelName .none today)
    (Nat.succ_pos 999)

/-! ## The joined snapshot -/

theorem less_antisymm {s t : QString} (h : QString.less s t = false) (h' : QString.less t s = false) :
    s = t := by
  unfold QString.less at h h'
  rw [decide_eq_false_iff_not, not_lt] at h h'
  exact QString.flatMap_utf16Units_injective (le_antisymm h' h)

theorem less_irrefl (s : QString) : QString.less s s = false := by
  unfold QString.less
  rw [decide_eq_false_iff_not]
  exact lt_irrefl _

theorem strictWeak_id : StrictWeak fun a b : Message => QString.less b.id a.id :=
  (strictWeak_of_key (fun m : Message => m.id.flatMap QString.utf16Units)
    fun _ _ => decide_eq_true_iff).swap

theorem strictWeak_time :
    StrictWeak fun a b : Message => decide (a.serverReceivedTime < b.serverReceivedTime) :=
  strictWeak_of_key Message.serverReceivedTime fun _ _ => decide_eq_true_iff

section Sorting

variable (sorting : StdSort Message) (views : List SearchedView)

theorem sorted_by_id :
    (sorting.sort (fun a b => QString.less b.id a.id) (combinedSnapshot views)).Pairwise
      fun a b => QString.less a.id b.id = false :=
  sorting.sorted _ _ strictWeak_id

theorem sortedByTime_perm : (sortedByTime sorting views).Perm (withoutCopies sorting views) :=
  sorting.perm _ _

theorem mem_combinedSnapshot {m : Message} (hm : m ∈ sortedByTime sorting views) :
    m ∈ combinedSnapshot views := by
  have hkept : m ∈ withoutCopies sorting views := (sortedByTime_perm sorting views).mem_iff.mp hm
  exact (sorting.perm _ _).mem_iff.mp ((unique_sublist _ _).subset hkept)

/-- Messages without an id all stay. -/
theorem sortedByTime_withoutId :
    ((sortedByTime sorting views).filter fun m => !hasId m.id).Perm
      ((combinedSnapshot views).filter fun m => !hasId m.id) := by
  refine ((sortedByTime_perm sorting views).filter _).trans ?_
  unfold withoutCopies
  rw [unique_filter]
  exact (sorting.perm _ _).filter _

/-- An id stays once. -/
theorem sortedByTime_once :
    (((sortedByTime sorting views).filter fun m => hasId m.id).map Message.id).Nodup := by
  refine (((sortedByTime_perm sorting views).filter _).map Message.id).nodup_iff.mpr ?_
  have hdistinct : (withoutCopies sorting views).Pairwise fun a b =>
      hasId a.id = true → a.id ≠ b.id :=
    unique_distinct (fun _ _ => less_antisymm) (sorted_by_id sorting views)
  refine List.pairwise_map.mpr (List.Pairwise.imp_of_mem ?_ (hdistinct.sublist List.filter_sublist))
  intro a b ha _ hab
  exact hab (List.mem_filter.mp ha).2

/-- Of every message, one with its id stays. -/
theorem exists_mem_sortedByTime {m : Message} (hm : m ∈ combinedSnapshot views) :
    ∃ m' ∈ sortedByTime sorting views, m'.id = m.id := by
  have hsorted : m ∈ sorting.sort (fun a b => QString.less b.id a.id) (combinedSnapshot views) :=
    (sorting.perm _ _).mem_iff.mpr hm
  obtain ⟨m', hm', heq⟩ : ∃ m' ∈ withoutCopies sorting views, m'.id = m.id :=
    exists_mem_unique hsorted
  exact ⟨m', (sortedByTime_perm sorting views).mem_iff.mpr hm', heq⟩

/-- If the predicates agree on copies, then what they accept of the joined snapshot is complete. -/
theorem complete_of_copiesAgree {predicates : List MessagePredicate}
    (hagree : CopiesAgree views predicates) :
    Complete (found views predicates) ((sortedByTime sorting views).filter (accept predicates)) where
  ascending := by
    have htime : (sortedByTime sorting views).Pairwise fun a b =>
        decide (b.serverReceivedTime < a.serverReceivedTime) = false :=
      sorting.sorted _ _ strictWeak_time
    refine (htime.sublist List.filter_sublist).imp fun {a b} h => ?_
    rw [decide_eq_false_iff_not] at h
    exact not_lt.mp h
  withoutId := by
    unfold found
    rw [List.filter_filter, List.filter_filter]
    have hcomm (l : List Message) :
        l.filter (fun m => !hasId m.id && accept predicates m)
          = (l.filter fun m => !hasId m.id).filter (accept predicates) := by
      rw [List.filter_filter]
      exact List.filter_congr fun m _ => Bool.and_comm ..
    rw [hcomm, hcomm]
    exact (sortedByTime_withoutId sorting views).filter _
  once := by
    refine (sortedByTime_once sorting views).sublist (List.Sublist.map _ ?_)
    exact List.Sublist.filter _ List.filter_sublist
  noneOmitted := by
    intro m hm
    obtain ⟨hcombined, hacc⟩ := List.mem_filter.mp hm
    cases hid : hasId m.id with
    | true =>
      obtain ⟨m', hm', heq⟩ := exists_mem_sortedByTime sorting views hcombined
      have hsame := hagree m hcombined m' (mem_combinedSnapshot sorting views hm') hid heq.symm
      exact ⟨m', List.mem_filter.mpr ⟨hm', by rw [← hsame]; exact hacc⟩, heq⟩
    | false =>
      have hstays : m ∈ (sortedByTime sorting views).filter fun m => !hasId m.id :=
        (sortedByTime_withoutId sorting views).mem_iff.mpr
          (List.mem_filter.mpr ⟨hcombined, by simp [hid]⟩)
      exact ⟨m, List.mem_filter.mpr ⟨(List.mem_filter.mp hstays).1, hacc⟩, rfl⟩
  noOthers := by
    intro m hm
    obtain ⟨hm, hacc⟩ := List.mem_filter.mp hm
    exact List.mem_filter.mpr ⟨mem_combinedSnapshot sorting views hm, hacc⟩

end Sorting

/-- With a sort that puts what is rejected first, an id with a rejected copy is not found. -/
theorem accept_of_preferring {views : List SearchedView} {predicates : List MessagePredicate}
    {m b : Message}
    (hm : m ∈ sortedByTime (.preferring fun m => !accept predicates m) views)
    (hid : hasId m.id = true) (hb : b ∈ combinedSnapshot views) (heq : b.id = m.id)
    (hacc : accept predicates m = true) : accept predicates b = true := by
  have hkept := (sortedByTime_perm (.preferring fun m => !accept predicates m) views).mem_iff.mp hm
  have hfirst := unique_first (fun _ _ => less_antisymm)
    (sorted_by_id (.preferring fun m => !accept predicates m) views)
    (StdSort.pairwise_preferring (fun m => !accept predicates m) strictWeak_id _)
    hkept hid ((StdSort.perm _ _ _).mem_iff.mpr hb) heq
  rcases hfirst with rfl | h | h | h
  · exact hacc
  · rw [heq, less_irrefl] at h
    exact (nomatch h)
  · simp [hacc] at h
  · simpa using h

/-! ## Searches -/

section Search

variable (sorting : StdSort Message) (today : QDate) {popup : SearchPopup}

theorem buildSnapshot_eq (h2 : 2 ≤ popup.searchChannels.length) :
    popup.buildSnapshot sorting = some (sortedByTime sorting popup.searchChannels) := by
  unfold buildSnapshot
  split
  · next view hone =>
    rw [hone, List.length_singleton] at h2
    omega
  · obtain ⟨queue, hpush, -, hitems⟩ := LimitedQueue.pushFront_eq
      (LimitedQueue.new (sortedByTime sorting popup.searchChannels).length)
      (sortedByTime sorting popup.searchChannels)
    simp only [hpush]
    show some queue.items = _
    rw [hitems]
    simp [LimitedQueue.new, LimitedQueue.items]

/-- The popup has not joined a snapshot yet, or it has joined this one. -/
def Fresh (popup : SearchPopup) : Prop :=
  popup.snapshot = [] ∨ popup.snapshot = sortedByTime sorting popup.searchChannels

theorem search_spec (h2 : 2 ≤ popup.searchChannels.length) (hfresh : popup.Fresh sorting)
    (predicates : List MessagePredicate) :
    ∃ channel, popup.search sorting today predicates
        = some ({ popup with snapshot := sortedByTime sorting popup.searchChannels }, channel) ∧
      channel.getMessageSnapshot
        = ((sortedByTime sorting popup.searchChannels).filter (accept predicates)).rtake
            CHANNEL_LIMIT := by
  have hsnapshot : (if popup.snapshot.length = 0 then popup.buildSnapshot sorting
      else some popup.snapshot) = some (sortedByTime sorting popup.searchChannels) := by
    split
    · exact buildSnapshot_eq sorting h2
    · next hne =>
      rcases hfresh with h | h
      · exact absurd (by rw [h]; rfl) hne
      · rw [h]
  obtain ⟨channel, hfilter, hitems⟩ := filter_spec today predicates popup.channelName
    (sortedByTime sorting popup.searchChannels)
  refine ⟨channel, ?_, hitems⟩
  unfold search
  simp only [hsnapshot, hfilter]

theorem searchAll_spec (texts : List (List MessagePredicate)) : ∀ {popup : SearchPopup},
    2 ≤ popup.searchChannels.length → popup.Fresh sorting →
    ∃ popup', popup.searchAll sorting today texts = some popup' ∧
      popup'.searchChannels = popup.searchChannels ∧ popup'.Fresh sorting := by
  induction texts with
  | nil => exact fun {popup} _ hfresh => ⟨popup, rfl, rfl, hfresh⟩
  | cons predicates texts ih =>
    intro popup h2 hfresh
    obtain ⟨channel, hsearch, -⟩ := search_spec sorting today h2 hfresh predicates
    obtain ⟨popup', hrest, hviews, hfresh'⟩ :=
      @ih { popup with snapshot := sortedByTime sorting popup.searchChannels } h2 (.inr rfl)
    refine ⟨popup', ?_, hviews, hfresh'⟩
    unfold searchAll
    simp only [hsearch]
    exact hrest

end Search

/--
Whatever sort the library has, a search over two or more views is complete exactly if at most 1000
messages are found and no predicate tells two copies of a message apart.
-/
theorem search_complete_iff (today : QDate) (views : List SearchedView) (h2 : 2 ≤ views.length)
    (channelName : QString) (texts : List (List MessagePredicate))
    (predicates : List MessagePredicate) :
    (∀ sorting : StdSort Message, ∃ popup popup' channel,
      searchAll sorting today ⟨views, channelName, []⟩ texts = some popup ∧
      popup.search sorting today predicates = some (popup', channel) ∧
      Complete (found views predicates) channel.getMessageSnapshot) ↔
    distinctCount (found views predicates) ≤ CHANNEL_LIMIT ∧ CopiesAgree views predicates := by
  have hresult (sorting : StdSort Message) : ∃ popup popup' channel,
      searchAll sorting today ⟨views, channelName, []⟩ texts = some popup ∧
      popup.search sorting today predicates = some (popup', channel) ∧
      channel.getMessageSnapshot
        = ((sortedByTime sorting views).filter (accept predicates)).rtake CHANNEL_LIMIT := by
    obtain ⟨popup, hall, hviews, hfresh⟩ :=
      @searchAll_spec sorting today texts ⟨views, channelName, []⟩ h2 (.inl rfl)
    obtain ⟨channel, hsearch, hitems⟩ :=
      search_spec sorting today (by rw [hviews]; exact h2) hfresh predicates
    rw [hviews] at hitems
    exact ⟨popup, _, channel, hall, hsearch, hitems⟩
  have hcomplete (sorting : StdSort Message) : (∃ popup popup' channel,
      searchAll sorting today ⟨views, channelName, []⟩ texts = some popup ∧
      popup.search sorting today predicates = some (popup', channel) ∧
      Complete (found views predicates) channel.getMessageSnapshot) ↔
      Complete (found views predicates)
        (((sortedByTime sorting views).filter (accept predicates)).rtake CHANNEL_LIMIT) := by
    obtain ⟨popup, popup', channel, hall, hsearch, hitems⟩ := hresult sorting
    constructor
    · rintro ⟨popup₁, popup₁', channel₁, hall₁, hsearch₁, hc⟩
      obtain rfl := Option.some.inj (hall.symm.trans hall₁)
      obtain ⟨-, rfl⟩ := Prod.mk.inj (Option.some.inj (hsearch.symm.trans hsearch₁))
      rw [← hitems]
      exact hc
    · intro hc
      rw [← hitems] at hc
      exact ⟨popup, popup', channel, hall, hsearch, hc⟩
  simp only [hcomplete]
  constructor
  · intro hall
    refine ⟨?_, fun a ha b hb hid heq => ?_⟩
    · rw [← (hall (.preferring fun _ => true)).length_eq, length_rtake]
      exact Nat.min_le_left _ _
    · have hsame {a b : Message} (ha : a ∈ combinedSnapshot views) (hb : b ∈ combinedSnapshot views)
          (hid : hasId a.id = true) (heq : a.id = b.id) (hacc : accept predicates a = true) :
          accept predicates b = true := by
        obtain ⟨m, hm, hma⟩ := (hall (.preferring fun m => !accept predicates m)).noneOmitted a
          (List.mem_filter.mpr ⟨ha, hacc⟩)
        obtain ⟨hm, hmacc⟩ := List.mem_filter.mp ((rtake_suffix _ _).subset hm)
        exact accept_of_preferring hm (by rw [hma]; exact hid) hb (by rw [hma, heq]) hmacc
      exact Bool.eq_iff_iff.mpr
        ⟨hsame ha hb hid heq, hsame hb ha (by rw [← heq]; exact hid) heq.symm⟩
  · rintro ⟨hcount, hagree⟩ sorting
    have hc := complete_of_copiesAgree sorting views hagree
    rwa [rtake_of_length_le (by rw [hc.length_eq]; exact hcount)]

/-! ## Two views of one channel -/

/-- A view without filters whose channel holds a message a number of times. -/
def replicated (n : Nat) (hn : n ≤ CHANNEL_LIMIT) (m : Message) : SearchedView where
  filterSet := none
  channel := {
    name := []
    type := .none
    lastDate := 0
    messages := ⟨CHANNEL_LIMIT, ⟨CHANNEL_LIMIT, List.replicate n m, by simpa using hn⟩, rfl⟩ }

/-- The message that both views show is found once. -/
theorem search_complete_same_channel :
    distinctCount (found [replicated 1 (by decide) ⟨0, ['a'], [], [], 5, 0⟩,
      replicated 1 (by decide) ⟨0, ['a'], [], [], 5, 0⟩] []) = 1 ∧
    ∀ sorting : StdSort Message, ∃ popup popup' channel,
      searchAll sorting 0 ⟨[replicated 1 (by decide) ⟨0, ['a'], [], [], 5, 0⟩,
        replicated 1 (by decide) ⟨0, ['a'], [], [], 5, 0⟩], [], []⟩ [[]] = some popup ∧
      popup.search sorting 0 [] = some (popup', channel) ∧
      Complete (found [replicated 1 (by decide) ⟨0, ['a'], [], [], 5, 0⟩,
        replicated 1 (by decide) ⟨0, ['a'], [], [], 5, 0⟩] []) channel.getMessageSnapshot :=
  ⟨by decide, (search_complete_iff 0 _ (by decide) [] [[]] []).mpr
    ⟨by decide, fun _ _ _ _ _ _ => rfl⟩⟩

/-- Of 1001 system messages, one is not shown. -/
theorem search_omits_beyond_limit :
    ¬ ∀ sorting : StdSort Message, ∃ popup popup' channel,
      searchAll sorting 0 ⟨[replicated 501 (by decide) (.makeSystemMessage 0),
        replicated 500 (by decide) (.makeSystemMessage 1)], [], []⟩ [] = some popup ∧
      popup.search sorting 0 [] = some (popup', channel) ∧
      Complete (found [replicated 501 (by decide) (.makeSystemMessage 0),
        replicated 500 (by decide) (.makeSystemMessage 1)] []) channel.getMessageSnapshot := by
  intro hall
  obtain ⟨popup, popup', channel, hfirst, hsearch, hc⟩ := hall (.preferring fun _ => true)
  obtain rfl := Option.some.inj hfirst
  obtain ⟨channel', hsearch', hitems⟩ :=
    @search_spec (.preferring fun _ => true) 0 ⟨[replicated 501 (by decide) (.makeSystemMessage 0),
      replicated 500 (by decide) (.makeSystemMessage 1)], [], []⟩ (by decide) (.inl rfl) []
  obtain ⟨-, rfl⟩ := Prod.mk.inj (Option.some.inj (hsearch.symm.trans hsearch'))
  have hle : channel.getMessageSnapshot.length ≤ CHANNEL_LIMIT := by
    rw [hitems, length_rtake]
    exact Nat.min_le_left _ _
  rw [hc.length_eq] at hle
  revert hle
  decide +kernel

end SearchPopup

end Dankerino
