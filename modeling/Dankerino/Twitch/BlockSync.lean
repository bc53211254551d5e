import Dankerino.Infra.Run
import Dankerino.Twitch.TwitchBlocks
import Mathlib.Data.Finset.Card
import Mathlib.Data.List.Nodup

/-!
# The block list and the server

Requests are sent, the server processes each at some moment, and the responses come in any order.

* `Mirrors`: with nothing outstanding, the sets of the account have exactly the users that are blocked
  on the server.
* `Regular` is the condition of a delivery: where nothing else about a user is outstanding, the
  response says of the user what the server has.
* `mirrors_of_regular`: runs of regular deliveries mirror, and after another one the sets stay wrong.

A list of more than `Helix.first` users is cut, and the reload forgets the users that were blocked
after the list was made: `truncated` and `not_mirrored`.
-/

namespace Dankerino

open Infra

namespace BlockSync

inductive Request
  | loadBlocks
  | blockUser (userId : QString)
  | unblockUser (userId : QString)
deriving DecidableEq

inductive Answer
  | loaded (blocks : List HelixBlock)
  | blocked (userId : QString)
  | unblocked (userId : QString)
deriving DecidableEq

end BlockSync

structure BlockSync where
  account : TwitchBlocks := {}
  /-- What the server has not processed. -/
  sent : List BlockSync.Request
  /-- What has not been delivered. -/
  answered : List BlockSync.Answer := []
  /-- The users that are blocked on the server. -/
  blocked : Finset QString

namespace BlockSync

/-- The users that the request or its response is about. -/
def Request.About : Request → QString → Prop
  | .loadBlocks, _ => True
  | .blockUser userId, u => u = userId
  | .unblockUser userId, u => u = userId

def Answer.About : Answer → QString → Prop
  | .loaded _, _ => True
  | .blocked userId, u => u = userId
  | .unblocked userId, u => u = userId

/-- Whether the response has the user as blocked. -/
def Answer.Says : Answer → QString → Prop
  | .loaded blocks, u => u ∈ blocks.map HelixBlock.userId
  | .blocked _, _ => True
  | .unblocked _, _ => False

/-! ## The server -/

/-- The users that are blocked after the request. -/
def Request.process : Request → Finset QString → Finset QString
  | .loadBlocks, blocked => blocked
  | .blockUser userId, blocked => insert userId blocked
  | .unblockUser userId, blocked => blocked.erase userId

/-- A list has at most as many of the blocked users as were asked for. -/
def Request.Answers : Request → Finset QString → Answer → Prop
  | .loadBlocks, blocked, .loaded blocks =>
    (∃ root, Helix.loadBlocks root = some blocks) ∧ (blocks.map HelixBlock.userId).Nodup ∧
      (∀ u ∈ blocks.map HelixBlock.userId, u ∈ blocked) ∧ blocks.length ≤ Helix.first
  | .blockUser userId, _, .blocked userId' => userId' = userId
  | .unblockUser userId, _, .unblocked userId' => userId' = userId
  | _, _, _ => False

/-! ## The account -/

def deliver : Answer → TwitchBlocks → TwitchBlocks
  | .loaded blocks => TwitchBlocks.loadBlocks blocks
  | .blocked userId => TwitchBlocks.blockUser userId
  | .unblocked userId => TwitchBlocks.unblockUser userId

/-- The account becomes the current one. -/
def login (blocked : Finset QString) : BlockSync where
  sent := [.loadBlocks]
  blocked := blocked

inductive Event
  | send (request : Request)
  | process (request : Request) (answer : Answer)
  | deliver (answer : Answer)

inductive Step : BlockSync → Event → BlockSync → Prop
  | send (s : BlockSync) (request : Request) :
    Step s (.send request) { s with sent := s.sent ++ [request] }
  | process (s : BlockSync) (request : Request) (answer : Answer) (hsent : request ∈ s.sent)
    (hanswers : request.Answers s.blocked answer) :
    Step s (.process request answer)
      { s with sent := s.sent.erase request
               answered := s.answered ++ [answer]
               blocked := request.process s.blocked }
  | deliver (s : BlockSync) (answer : Answer) (hanswered : answer ∈ s.answered) :
    Step s (.deliver answer)
      { s with answered := s.answered.erase answer
               account := BlockSync.deliver answer s.account }

/-- All responses have been delivered. -/
def Delivered (s : BlockSync) : Prop := s.sent = [] ∧ s.answered = []

def Mirrors (s : BlockSync) : Prop := s.Delivered → ∀ u, s.account.Has u (u ∈ s.blocked)

/-- Something about the user is outstanding. -/
def Outstanding (sent : List Request) (answered : List Answer) (u : QString) : Prop :=
  (∃ request ∈ sent, request.About u) ∨ ∃ answer ∈ answered, answer.About u

/-- The last response about a user says what the server has. -/
def Regular (s : BlockSync) : Event → Prop
  | .deliver answer => ∀ u, answer.About u → ¬ Outstanding s.sent (s.answered.erase answer) u →
      (answer.Says u ↔ u ∈ s.blocked)
  | _ => True

/-! ## What a step does to a user -/

section User

variable {request : Request} {answer : Answer} {u : QString}

theorem deliver_of_about (h : answer.About u) (account : TwitchBlocks) :
    (deliver answer account).Has u (answer.Says u) := by
  cases answer with
  | loaded blocks => exact account.loadBlocks_has blocks u
  | blocked userId =>
    obtain rfl : u = userId := h
    exact account.blockUser_self u
  | unblocked userId =>
    obtain rfl : u = userId := h
    exact account.unblockUser_self u

theorem deliver_of_not_about (h : ¬ answer.About u) (account : TwitchBlocks) (b : Prop) :
    (deliver answer account).Has u b ↔ account.Has u b := by
  cases answer with
  | loaded blocks => exact absurd trivial h
  | blocked userId => exact TwitchBlocks.blockUser_of_ne h
  | unblocked userId => exact TwitchBlocks.unblockUser_of_ne h

/-- A response is about the users that its request was about. -/
theorem about_iff {blocked : Finset QString} (h : request.Answers blocked answer) :
    answer.About u ↔ request.About u := by
  cases request with
  | loadBlocks =>
    cases answer with
    | loaded blocks => exact Iff.rfl
    | blocked userId => exact h.elim
    | unblocked userId => exact h.elim
  | blockUser userId =>
    cases answer with
    | loaded blocks => exact h.elim
    | blocked userId' =>
      obtain rfl : userId' = userId := h
      exact Iff.rfl
    | unblocked userId' => exact h.elim
  | unblockUser userId =>
    cases answer with
    | loaded blocks => exact h.elim
    | blocked userId' => exact h.elim
    | unblocked userId' =>
      obtain rfl : userId' = userId := h
      exact Iff.rfl

theorem process_of_not_about (h : ¬ request.About u) (blocked : Finset QString) :
    u ∈ request.process blocked ↔ u ∈ blocked := by
  cases request with
  | loadBlocks => exact Iff.rfl
  | blockUser userId => simp [Request.process, show u ≠ userId from h]
  | unblockUser userId => simp [Request.process, show u ≠ userId from h]

end User

/-! ## Runs of regular deliveries -/

/-- The sets have the user as the server does. -/
def Right (s : BlockSync) (u : QString) : Prop := s.account.Has u (u ∈ s.blocked)

def Pending (s : BlockSync) (u : QString) : Prop := Outstanding s.sent s.answered u

/-- What is not right will be looked at again. -/
def Tracked (s : BlockSync) (u : QString) : Prop := s.Right u ∨ s.Pending u

theorem Outstanding.erase_sent {sent : List Request} {answered : List Answer} {u : QString}
    {request : Request} (h : Outstanding sent answered u) (hnot : ¬ request.About u) :
    Outstanding (sent.erase request) answered u := by
  rcases h with ⟨r, hr, hu⟩ | h
  · have hne : r ≠ request := fun heq => hnot (heq ▸ hu)
    exact .inl ⟨r, (List.mem_erase_of_ne hne).mpr hr, hu⟩
  · exact .inr h

theorem Outstanding.erase_answered {sent : List Request} {answered : List Answer} {u : QString}
    {answer : Answer} (h : Outstanding sent answered u) (hnot : ¬ answer.About u) :
    Outstanding sent (answered.erase answer) u := by
  rcases h with h | ⟨a, ha, hu⟩
  · exact .inl h
  · have hne : a ≠ answer := fun heq => hnot (heq ▸ hu)
    exact .inr ⟨a, (List.mem_erase_of_ne hne).mpr ha, hu⟩

theorem Outstanding.mono {sent sent' : List Request} {answered answered' : List Answer} {u : QString}
    (h : Outstanding sent answered u) (hsent : sent ⊆ sent') (hanswered : answered ⊆ answered') :
    Outstanding sent' answered' u := by
  rcases h with ⟨r, hr, hu⟩ | ⟨a, ha, hu⟩
  · exact .inl ⟨r, hsent hr, hu⟩
  · exact .inr ⟨a, hanswered ha, hu⟩

theorem tracked_step {s s' : BlockSync} {e : Event} {u : QString} (h : s.Tracked u)
    (hstep : Step s e s') (hregular : s.Regular e) : s'.Tracked u := by
  cases hstep with
  | send request =>
    rcases h with hright | hpending
    · exact .inl hright
    · exact .inr (hpending.mono (List.subset_append_left ..) (List.Subset.refl _))
  | process request answer hsent hanswers =>
    by_cases hu : request.About u
    · exact .inr (.inr ⟨answer, by simp, (about_iff hanswers).mpr hu⟩)
    rcases h with hright | hpending
    · exact .inl (hright.congr (process_of_not_about hu _).symm)
    · exact .inr ((hpending.erase_sent hu).mono (List.Subset.refl _) (List.subset_append_left ..))
  | deliver answer hanswered =>
    by_cases hu : answer.About u
    · by_cases hout : Outstanding s.sent (s.answered.erase answer) u
      · exact .inr hout
      · exact .inl ((deliver_of_about hu _).congr (hregular u hu hout))
    rcases h with hright | hpending
    · exact .inl ((deliver_of_not_about hu _ _).mpr hright)
    · exact .inr (hpending.erase_answered hu)

theorem tracked_login (blocked : Finset QString) (u : QString) : (login blocked).Tracked u :=
  .inr (.inl ⟨.loadBlocks, List.mem_singleton_self _, trivial⟩)

theorem mirrors_of_tracked {s : BlockSync} (h : ∀ u, s.Tracked u) : s.Mirrors := by
  rintro ⟨hsent, hanswered⟩ u
  rcases h u with hright | hpending
  · exact hright
  · simp [Pending, Outstanding, hsent, hanswered] at hpending

/-! ## After another delivery -/

def Event.isSend : Event → Bool
  | .send _ => true
  | _ => false

/-- The outstanding requests and responses are dealt with, and nothing is sent. -/
def Rest (s : BlockSync) (e : Event) (s' : BlockSync) : Prop := Step s e s' ∧ e.isSend = false

/-- The sets have the user wrong, and nothing will change that. -/
def Lost (s : BlockSync) (u : QString) : Prop := ¬ s.Right u ∧ ¬ s.Pending u

theorem lost_rest {s s' : BlockSync} {e : Event} {u : QString} (h : s.Lost u) (hrest : Rest s e s') :
    s'.Lost u := by
  obtain ⟨hwrong, hpending⟩ := h
  obtain ⟨hstep, hsend⟩ := hrest
  cases hstep with
  | send request => cases hsend
  | process request answer hsent hanswers =>
    have hu : ¬ request.About u := fun hu => hpending (.inl ⟨request, hsent, hu⟩)
    refine ⟨fun hright => hwrong (hright.congr (process_of_not_about hu _)), ?_⟩
    rintro (⟨r, hr, hru⟩ | ⟨a, ha, hau⟩)
    · exact hpending (.inl ⟨r, List.mem_of_mem_erase hr, hru⟩)
    · rcases List.mem_append.mp ha with ha | ha
      · exact hpending (.inr ⟨a, ha, hau⟩)
      · obtain rfl := List.mem_singleton.mp ha
        exact hu ((about_iff hanswers).mp hau)
  | deliver answer hanswered =>
    have hu : ¬ answer.About u := fun hu => hpending (.inr ⟨answer, hanswered, hu⟩)
    refine ⟨fun hright => hwrong ((deliver_of_not_about hu _ _).mp hright), fun hafter => ?_⟩
    exact hpending (hafter.mono (List.Subset.refl _) List.erase_subset)

theorem lost_of_not_regular {s s' : BlockSync} {answer : Answer} (hstep : Step s (.deliver answer) s')
    (hnot : ¬ s.Regular (.deliver answer)) : ∃ u, s'.Lost u := by
  cases hstep with
  | deliver _ hanswered =>
    simp only [Regular, not_forall] at hnot
    obtain ⟨u, hu, hout, hdiffer⟩ := hnot
    exact ⟨u, fun hright => hdiffer ((deliver_of_about hu s.account).iff hright), hout⟩

theorem Lost.not_mirrors {s : BlockSync} {u : QString} (h : s.Lost u) (hdelivered : s.Delivered) :
    ¬ s.Mirrors :=
  fun hmirrors => h.1 (hmirrors hdelivered u)

/-- The server has a response to every request. -/
theorem exists_answer (request : Request) (blocked : Finset QString) :
    ∃ answer, request.Answers blocked answer := by
  cases request with
  | loadBlocks =>
    have hroot : Helix.loadBlocks [("data".toList, .array [])] = some [] := rfl
    exact ⟨.loaded [], ⟨_, hroot⟩, List.nodup_nil, by simp, Nat.zero_le _⟩
  | blockUser userId => exact ⟨.blocked userId, rfl⟩
  | unblockUser userId => exact ⟨.unblocked userId, rfl⟩

/-- How often something has to be processed or delivered. A request is both. -/
def outstandingCount (s : BlockSync) : Nat := 2 * s.sent.length + s.answered.length

theorem exists_rest {s : BlockSync} (h : ¬ s.Delivered) :
    ∃ e s', Rest s e s' ∧ s'.outstandingCount < s.outstandingCount := by
  cases hsent : s.sent with
  | cons request sent =>
    obtain ⟨answer, hanswers⟩ := exists_answer request s.blocked
    have hmem : request ∈ s.sent := by simp [hsent]
    refine ⟨_, _, ⟨.process s request answer hmem hanswers, rfl⟩, ?_⟩
    simp only [outstandingCount, hsent, List.erase_cons_head, List.length_append, List.length_cons,
      List.length_nil]
    omega
  | nil =>
    cases hanswered : s.answered with
    | nil => exact absurd ⟨hsent, hanswered⟩ h
    | cons answer answered =>
      have hmem : answer ∈ s.answered := by simp [hanswered]
      refine ⟨_, _, ⟨.deliver s answer hmem, rfl⟩, ?_⟩
      simp [outstandingCount, hanswered]

/-- What is outstanding can be dealt with. -/
theorem exists_delivered (s : BlockSync) : ∃ es s', Run Rest s es s' ∧ s'.Delivered := by
  induction hn : s.outstandingCount using Nat.strong_induction_on generalizing s with
  | _ n ih =>
    by_cases hdelivered : s.Delivered
    · exact ⟨[], s, .nil s, hdelivered⟩
    obtain ⟨e, s₁, hrest, hlt⟩ := exists_rest hdelivered
    obtain ⟨es, s', hrun, hend⟩ := ih _ (hn ▸ hlt) s₁ rfl
    exact ⟨e :: es, s', .cons hrest hrun, hend⟩

/-! ## The result -/

/--
Runs of regular deliveries mirror the server. A delivery that is not regular leads to a state from
which what is outstanding can be delivered, and however that goes the sets are wrong in the end.
-/
theorem mirrors_of_regular {blocked : Finset QString} {es : List Event} {s : BlockSync}
    (hrun : Run (fun s e s' => Step s e s' ∧ s.Regular e) (login blocked) es s) :
    s.Mirrors ∧ ∀ answer s', Step s (.deliver answer) s' → ¬ s.Regular (.deliver answer) →
      (∃ es' s'', Run Rest s' es' s'' ∧ s''.Delivered) ∧
      ∀ es' s'', Run Rest s' es' s'' → s''.Delivered → ¬ s''.Mirrors := by
  have hkeep : ∀ s e s', (∀ u, s.Tracked u) → Step s e s' ∧ s.Regular e → ∀ u, s'.Tracked u :=
    fun _ _ _ h hstep u => tracked_step (h u) hstep.1 hstep.2
  have htracked := hrun.invariant hkeep (tracked_login blocked)
  refine ⟨mirrors_of_tracked htracked, fun answer s' hstep hnot => ?_⟩
  obtain ⟨u, hlost⟩ := lost_of_not_regular hstep hnot
  refine ⟨exists_delivered s', fun es' s'' hrest hdelivered => ?_⟩
  have hstays : ∀ s e s', s.Lost u → Rest s e s' → s'.Lost u := fun _ _ _ h hr => lost_rest h hr
  exact (hrest.invariant hstays hlost).not_mirrors hdelivered

/-- Another user is blocked after the list was loaded. -/
theorem mirrors_of_regular_block : ∃ s : BlockSync, s.Delivered ∧ s.Mirrors ∧
    s.account.ignoresUserIds_ = {"44".toList, "22".toList} := by
  have hroot : Helix.loadBlocks [("data".toList, .array [.object [("user_id".toList,
      .string "22".toList)]])] = some [⟨"22".toList, [], []⟩] := rfl
  have hlist : Request.loadBlocks.Answers {"22".toList} (.loaded [⟨"22".toList, [], []⟩]) :=
    ⟨⟨_, hroot⟩, by simp, by simp, by simp [Helix.first]⟩
  have hend := @mirrors_of_regular {"22".toList} _ _ <|
    .cons ⟨.process _ .loadBlocks _ (List.mem_singleton_self _) hlist, trivial⟩ <|
    .cons ⟨.deliver _ (.loaded [⟨"22".toList, [], []⟩]) (List.mem_singleton_self _),
      by intro u _ _; simp [Answer.Says, login, Request.process]⟩ <|
    .cons ⟨.send _ (.blockUser "44".toList), trivial⟩ <|
    .cons ⟨.process _ (.blockUser "44".toList) (.blocked "44".toList) (List.mem_singleton_self _) rfl,
      trivial⟩ <|
    .cons ⟨.deliver _ (.blocked "44".toList) (List.mem_singleton_self _),
      by rintro u rfl _; simp [Answer.Says, Request.process]⟩ <| .nil _
  exact ⟨_, ⟨rfl, rfl⟩, hend.1, by decide⟩

/-! ## Deliveries that are not regular -/

theorem exists_not_listed {blocked : Finset QString} (hmany : Helix.first < blocked.card)
    {blocks : List HelixBlock} (hlength : blocks.length ≤ Helix.first) :
    ∃ u ∈ blocked, u ∉ blocks.map HelixBlock.userId := by
  have hcard : (blocks.map HelixBlock.userId).toFinset.card < blocked.card := by
    calc (blocks.map HelixBlock.userId).toFinset.card
        ≤ (blocks.map HelixBlock.userId).length := List.toFinset_card_le _
      _ = blocks.length := List.length_map _
      _ < blocked.card := lt_of_le_of_lt hlength hmany
  obtain ⟨u, hu, hnot⟩ := Finset.exists_mem_notMem_of_card_lt_card hcard
  exact ⟨u, hu, fun h => hnot (List.mem_toFinset.mpr h)⟩

/-- Only the list is loaded. -/
inductive Loading (blocked : Finset QString) : BlockSync → Prop
  | asked : Loading blocked (login blocked)
  | answered (blocks : List HelixBlock) (hlength : blocks.length ≤ Helix.first) :
    Loading blocked { sent := [], answered := [.loaded blocks], blocked := blocked }
  | lost (s : BlockSync) (u : QString) (h : s.Lost u) : Loading blocked s

theorem loading_rest {blocked : Finset QString} (hmany : Helix.first < blocked.card) {s s' : BlockSync}
    {e : Event} (h : Loading blocked s) (hrest : Rest s e s') : Loading blocked s' := by
  cases h with
  | lost _ u h => exact .lost _ u (lost_rest h hrest)
  | asked =>
    obtain ⟨hstep, hsend⟩ := hrest
    cases hstep with
    | send request => cases hsend
    | deliver answer hanswered => cases hanswered
    | process request answer hmem hanswers =>
      obtain rfl : request = .loadBlocks := List.mem_singleton.mp hmem
      cases answer with
      | blocked userId => exact hanswers.elim
      | unblocked userId => exact hanswers.elim
      | loaded blocks => exact .answered blocks hanswers.2.2.2
  | answered blocks hlength =>
    obtain ⟨hstep, hsend⟩ := hrest
    cases hstep with
    | send request => cases hsend
    | process request answer hmem => cases hmem
    | deliver answer hanswered =>
      obtain rfl : answer = .loaded blocks := List.mem_singleton.mp hanswered
      obtain ⟨u, hu, hnot⟩ := exists_not_listed hmany hlength
      refine .lost _ u ⟨fun hright => ?_, by simp [Pending, Outstanding]⟩
      have hsays := @deliver_of_about (.loaded blocks) u trivial {}
      exact hnot ((hright.iff hsays).mp hu)

/-- A list that is cut leaves the sets wrong. -/
theorem truncated {blocked : Finset QString} (hmany : Helix.first < blocked.card) {es : List Event}
    {s : BlockSync} (hrun : Run Rest (login blocked) es s) (hdelivered : s.Delivered) :
    ¬ s.Mirrors := by
  have hkeep : ∀ s e s', Loading blocked s → Rest s e s' → Loading blocked s' :=
    fun _ _ _ h hrest => loading_rest hmany h hrest
  have hloading := hrun.invariant hkeep .asked
  cases hloading with
  | asked => exact nomatch hdelivered.1
  | answered blocks => exact nomatch hdelivered.2
  | lost _ u h => exact h.not_mirrors hdelivered

/-- The list was made before the user was blocked, and comes later. -/
theorem not_mirrored :
    ¬ ∀ (blocked : Finset QString) (es : List Event) (s : BlockSync),
      Run Step (login blocked) es s → s.Mirrors := by
  intro h
  have hlist : Request.loadBlocks.Answers ∅ (.loaded []) :=
    ⟨⟨[("data".toList, .array [])], rfl⟩, List.nodup_nil, by simp, Nat.zero_le _⟩
  have hmirrors := h ∅ _ _ <|
    .cons (.process (login ∅) .loadBlocks _ (List.mem_singleton_self _) hlist) <|
    .cons (.send _ (.blockUser "44".toList)) <|
    .cons (.process _ (.blockUser "44".toList) (.blocked "44".toList) (List.mem_singleton_self _) rfl) <|
    .cons (.deliver _ (.blocked "44".toList) (by decide)) <|
    .cons (.deliver _ (.loaded []) (List.mem_singleton_self _)) <| .nil _
  have hhas := (hmirrors ⟨rfl, rfl⟩ "44".toList).2
  revert hhas
  decide

end BlockSync

end Dankerino
