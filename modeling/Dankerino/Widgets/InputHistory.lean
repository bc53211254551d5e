import Dankerino.Infra.DraftHistory
import Dankerino.Infra.Run
import Dankerino.Widgets.SplitInput

/-!
# The history of the input

The abstract history with a draft is `DraftHistory`. The input shows what it shows (`shows_history`) as long as
no text is changed when it is called up, and `nextMessage` is not mistaken about where it is.
-/

namespace Dankerino

open Infra

namespace SplitInput

/-! ## The history with a draft -/

/-- What a step is for the history: what the user writes is the draft, as it is shown. -/
def follow (env : InputEnvironment) (s : SplitInput) (h : DraftHistory Units) : Op → DraftHistory Units
  | .edit text => h.edit (shownText env text)
  | .setReply displayName =>
    if s.enableInlineReplying then h.edit (0x40 :: displayName ++ [0x20]) else h
  | .sendMessage keepInput =>
    match s.outgoing env with
    | none => h
    | some message => h.record (s.recorded message) (if keepInput then h.shown else [])
  | .previousMessage => h.previous
  | .nextMessage => h.next

/-- The input shows what the history shows. -/
structure Shows (s : SplitInput) (h : DraftHistory Units) : Prop where
  prevMsg_eq : s.prevMsg = h.entries
  prevIndex_eq : s.prevIndex = h.position
  text_eq : s.text = h.shown

/-- The draft is written at the end only. -/
def AtDraft (s : SplitInput) : Op → Prop
  | .edit _ => s.prevIndex = s.prevMsg.length
  | .setReply _ => s.enableInlineReplying → s.prevIndex = s.prevMsg.length
  | _ => True

/--
What is called up is not changed, and at the end `nextMessage` does not take the draft for the last message
unless it calls up the draft again.
-/
def Meets (env : InputEnvironment) (s : SplitInput) : Op → Prop
  | .previousMessage =>
    ∀ message, s.prevIndex ≠ 0 → atIndex s.prevMsg (s.prevIndex - 1) = some message →
      ¬ Abbreviated env message
  | .nextMessage =>
    (∀ message, atIndex s.prevMsg (s.prevIndex + 1) = some message → ¬ Abbreviated env message) ∧
    (s.prevIndex + 1 = s.prevMsg.length → ¬ Abbreviated env s.currMsg) ∧
    (s.prevIndex = s.prevMsg.length → s.prevMsg.getLast? = some s.text → shownText env s.currMsg = s.text)
  | _ => True

section Steps

variable {env : InputEnvironment} {s s' : SplitInput} {h : DraftHistory Units}

/-- Behind an entry the draft is saved. -/
def Saved (s : SplitInput) (h : DraftHistory Units) : Prop :=
  h.position < h.entries.length → s.currMsg = h.draft

theorem Shows.inRange (hs : Shows s h) : s.InRange := by
  have hle := h.position_le
  refine ⟨?_, ?_⟩
  · rw [hs.prevIndex_eq]
    exact Int.natCast_nonneg _
  · rw [hs.prevIndex_eq, hs.prevMsg_eq]
    exact Int.ofNat_le.mpr hle

theorem Shows.atEnd_iff (hs : Shows s h) : s.prevIndex = s.prevMsg.length ↔ h.AtEnd := by
  rw [hs.prevIndex_eq, hs.prevMsg_eq, DraftHistory.AtEnd, Int.natCast_inj]

/-- The draft is written, and shown. -/
theorem Shows.edit (hs : Shows s h) (hend : s.prevIndex = s.prevMsg.length) {text : Units}
    (htext : s'.text = text) (hmsg : s'.prevMsg = s.prevMsg) (hindex : s'.prevIndex = s.prevIndex) :
    Shows s' (h.edit text) where
  prevMsg_eq := hmsg.trans hs.prevMsg_eq
  prevIndex_eq := hindex.trans hs.prevIndex_eq
  text_eq := htext.trans (DraftHistory.shown_of_atEnd (h := h.edit text) (hs.atEnd_iff.mp hend)).symm

/-- A text that is called up is shown exactly if it is not changed. -/
theorem shows_calledUp_iff {message : Units} (hmsg : s'.prevMsg = h.entries) (hindex : s'.prevIndex = h.position)
    (htext : s'.text = shownText env message) (hshown : h.shown = message) :
    Shows s' h ↔ ¬ Abbreviated env message := by
  rw [← shownText_eq_self_iff]
  constructor
  · intro hs'
    exact htext.symm.trans (hs'.text_eq.trans hshown)
  · intro hsame
    exact ⟨hmsg, hindex, htext.trans (hsame.trans hshown.symm)⟩

theorem shows_edit (hs : Shows s h) (text : Units) (hend : s.prevIndex = s.prevMsg.length) :
    Shows (s.setPlainText env text) (h.edit (shownText env text)) := by
  obtain ⟨reply, hreply⟩ := setPlainText_eq env s text
  rw [hreply]
  exact hs.edit hend rfl rfl rfl

/-- The start of a reply is no abbreviation. -/
theorem shownText_reply (env : InputEnvironment) (displayName : Units) :
    shownText env (0x40 :: displayName ++ [0x20]) = 0x40 :: displayName ++ [0x20] := by
  rw [shownText_eq_self_iff]
  rintro ⟨-, ⟨hreply, -⟩ | hdollar | hunderscore⟩
  · exact absurd (of_decide_eq_true hreply) (by simp [Units.toLower, replyCommand])
  · exact absurd (of_decide_eq_true hdollar) (by simp [Units.toLower])
  · exact absurd (of_decide_eq_true hunderscore) (by simp [Units.toLower])

theorem shows_setReply (hs : Shows s h) (displayName : Units)
    (hend : s.enableInlineReplying → s.prevIndex = s.prevMsg.length) :
    Shows (s.setReply env displayName) (follow env s h (.setReply displayName)) := by
  rw [setReply, follow]
  dsimp only
  split
  · next hinline =>
    obtain ⟨reply, hreply⟩ := setPlainText_eq env { s with replyThread := some displayName }
      (0x40 :: displayName ++ [0x20])
    rw [hreply]
    exact hs.edit (hend hinline) (shownText_reply env displayName) rfl rfl
  · exact ⟨hs.prevMsg_eq, hs.prevIndex_eq, hs.text_eq⟩

theorem shows_sendMessage (hs : Shows s h) (keepInput : Bool) :
    Shows (s.handleSendMessage env keepInput) (follow env s h (.sendMessage keepInput)) := by
  cases houtgoing : s.outgoing env with
  | none =>
    simp only [handleSendMessage, follow, houtgoing]
    exact hs
  | some message =>
    obtain ⟨reply, hreply⟩ := postMessageSend_eq env s message keepInput
    have hentries : s.prevMsg ++ (s.recorded message).toList = h.entries ++ (s.recorded message).toList := by
      rw [hs.prevMsg_eq]
    simp only [handleSendMessage, follow, houtgoing, hreply]
    refine ⟨hentries, congrArg (fun list : List Units => (list.length : Int)) hentries, ?_⟩
    rw [DraftHistory.shown_of_atEnd (h := h.record _ _) rfl, hs.text_eq]
    rfl

/-- Going up shows the entry exactly if it is not changed. -/
theorem shows_previousMessage_iff (hs : Shows s h) (hstep : s.previousMessage env = some s') :
    Shows s' h.previous ↔ Meets env s .previousMessage := by
  by_cases hpos : s.prevIndex = 0
  · have hzero : h.position = 0 := by
      have hindex := hs.prevIndex_eq
      omega
    obtain rfl := Option.some.inj ((previousMessage_zero env hpos).symm.trans hstep)
    rw [DraftHistory.previous_of_zero hzero]
    exact ⟨fun _ _ hne => absurd hpos hne, fun _ => hs⟩
  · obtain ⟨message, hat, reply, hnext⟩ := previousMessage_eq env hs.inRange hpos
    obtain rfl := Option.some.inj (hnext.symm.trans hstep)
    have hindex : s.prevIndex - 1 = (h.previous.position : Nat) := by
      have heq := hs.prevIndex_eq
      simp only [DraftHistory.previous]
      omega
    have hentry : h.previous.entries[h.previous.position]? = some message := by
      rw [hindex, hs.prevMsg_eq, atIndex_natCast] at hat
      exact hat
    refine Iff.trans (shows_calledUp_iff hs.prevMsg_eq hindex rfl (DraftHistory.shown_of_getElem? hentry)) ?_
    constructor
    · intro hnot message' _ hat'
      obtain rfl := Option.some.inj (hat.symm.trans hat')
      exact hnot
    · intro hmeets
      exact hmeets message hpos hat

/-- Before the last message, going down shows the next one exactly if it is not changed. -/
theorem shows_nextMessage_of_lt (hs : Shows s h) (hlt : s.prevIndex + 1 < s.prevMsg.length)
    (hstep : s.nextMessage env = some s') : Shows s' h.next ↔ Meets env s .nextMessage := by
  obtain ⟨message, hat, reply, hnext⟩ := nextMessage_of_lt env hs.inRange hlt
  obtain rfl := Option.some.inj (hnext.symm.trans hstep)
  have hindex : s.prevIndex + 1 = (h.next.position : Nat) := by
    have heq := hs.prevIndex_eq
    rw [hs.prevMsg_eq] at hlt
    simp only [DraftHistory.next]
    omega
  have hentry : h.next.entries[h.next.position]? = some message := by
    rw [hindex, hs.prevMsg_eq, atIndex_natCast] at hat
    exact hat
  refine Iff.trans (shows_calledUp_iff hs.prevMsg_eq hindex rfl (DraftHistory.shown_of_getElem? hentry)) ?_
  constructor
  · intro hnot
    refine ⟨fun message' hat' => ?_, fun hlast => ?_, fun hend => ?_⟩
    · obtain rfl := Option.some.inj (hat.symm.trans hat')
      exact hnot
    · exact absurd hlast (Int.ne_of_lt hlt)
    · omega
  · rintro ⟨hmeets, -, -⟩
    exact hmeets message hat

/-- At the last message, going down shows the draft exactly if what is saved is not changed. -/
theorem shows_nextMessage_of_last (hs : Shows s h) (hsaved : Saved s h)
    (hlast : s.prevIndex + 1 = s.prevMsg.length) (hstep : s.nextMessage env = some s') :
    Shows s' h.next ↔ Meets env s .nextMessage := by
  have hindex := hs.prevIndex_eq
  have hlength := congrArg List.length hs.prevMsg_eq
  have hposition : h.position + 1 = h.entries.length := by omega
  have hne : s.prevMsg ≠ [] := by
    rw [← List.length_pos_iff]
    omega
  obtain ⟨last, hgetLast, hsame, -⟩ := nextMessage_of_le env hs.inRange hne (Int.le_of_eq hlast.symm)
  -- the text is the last message, so that the code takes what it has saved
  have htext : s.text = last := by
    have hentry : h.entries[h.position]? = some last := by
      rw [← hgetLast, List.getLast?_eq_getElem?, hs.prevMsg_eq, ← hposition, Nat.add_sub_cancel]
    exact hs.text_eq.trans (DraftHistory.shown_of_getElem? hentry)
  obtain ⟨reply, hnext⟩ := hsame htext
  obtain rfl := Option.some.inj (hnext.symm.trans hstep)
  have hend : h.next.AtEnd := by
    simp only [DraftHistory.AtEnd, DraftHistory.next, hposition, Nat.min_self]
  have hshown : h.next.shown = s.currMsg :=
    (DraftHistory.shown_of_atEnd hend).trans (hsaved (Nat.lt_of_succ_le (Nat.le_of_eq hposition))).symm
  have hlast' : (s.prevMsg.length : Int) = (h.next.position : Nat) := by
    rw [show h.next.position = h.entries.length from hend, ← hlength]
  refine Iff.trans (shows_calledUp_iff hs.prevMsg_eq hlast' rfl hshown) ?_
  constructor
  · intro hnot
    refine ⟨fun message hat => ?_, fun _ => hnot, fun hend' => ?_⟩
    · rw [hlast, atIndex_natCast, List.getElem?_eq_none (Nat.le_refl _)] at hat
      cases hat
    · omega
  · rintro ⟨-, hmeets, -⟩
    exact hmeets hlast

/-- At the draft, the text is changed exactly if it is taken for the last message and something else is saved. -/
theorem shows_nextMessage_of_end (hs : Shows s h) (hend : s.prevIndex = s.prevMsg.length)
    (hstep : s.nextMessage env = some s') : Shows s' h.next ↔ Meets env s .nextMessage := by
  rw [DraftHistory.next_of_atEnd (hs.atEnd_iff.mp hend)]
  have hmeets_iff : Meets env s .nextMessage ↔
      (s.prevMsg.getLast? = some s.text → shownText env s.currMsg = s.text) := by
    constructor
    · rintro ⟨-, -, hmeets⟩
      exact hmeets hend
    · intro hmeets
      refine ⟨fun message hat => ?_, fun hlast => ?_, fun _ => hmeets⟩
      · rw [hend, ← Int.natCast_succ, atIndex_natCast, List.getElem?_eq_none (Nat.le_succ _)] at hat
        cases hat
      · omega
  rw [hmeets_iff]
  by_cases hne : s.prevMsg = []
  · obtain rfl := Option.some.inj ((nextMessage_nil env hne).symm.trans hstep)
    rw [hne]
    refine ⟨fun _ hlast => ?_, fun _ => hs⟩
    cases hlast
  · obtain ⟨last, hgetLast, hsame, hother⟩ := nextMessage_of_le env hs.inRange hne (by omega)
    rw [hgetLast]
    by_cases htext : s.text = last
    · obtain ⟨reply, hnext⟩ := hsame htext
      obtain rfl := Option.some.inj (hnext.symm.trans hstep)
      constructor
      · intro hs' _
        exact hs'.text_eq.trans hs.text_eq.symm
      · intro hmeets
        exact ⟨hs.prevMsg_eq, hend.symm.trans hs.prevIndex_eq,
          (hmeets (congrArg some htext.symm)).trans hs.text_eq⟩
    · obtain rfl := Option.some.inj ((hother htext).symm.trans hstep)
      constructor
      · intro _ hlast
        exact absurd (Option.some.inj hlast).symm htext
      · intro _
        exact ⟨hs.prevMsg_eq, hend.symm.trans hs.prevIndex_eq, hs.text_eq⟩

theorem shows_nextMessage_iff (hs : Shows s h) (hsaved : Saved s h) (hstep : s.nextMessage env = some s') :
    Shows s' h.next ↔ Meets env s .nextMessage := by
  rcases Int.lt_trichotomy (s.prevIndex + 1) s.prevMsg.length with hlt | hlast | hgt
  · exact shows_nextMessage_of_lt hs hlt hstep
  · exact shows_nextMessage_of_last hs hsaved hlast hstep
  · have hle := hs.inRange.le
    exact shows_nextMessage_of_end hs (by omega) hstep

/-- A step shows what the history shows exactly if it meets the condition. -/
theorem shows_step_iff {op : Op} (hs : Shows s h) (hsaved : Saved s h) (hop : AtDraft s op)
    (hstep : step env s op = some s') : Shows s' (follow env s h op) ↔ Meets env s op := by
  cases op with
  | edit text =>
    obtain rfl := Option.some.inj hstep
    exact iff_of_true (shows_edit hs text hop) trivial
  | setReply displayName =>
    obtain rfl := Option.some.inj hstep
    exact iff_of_true (shows_setReply hs displayName hop) trivial
  | sendMessage keepInput =>
    obtain rfl := Option.some.inj hstep
    exact iff_of_true (shows_sendMessage hs keepInput) trivial
  | previousMessage => exact shows_previousMessage_iff hs hstep
  | nextMessage => exact shows_nextMessage_iff hs hsaved hstep

/-- At the end nothing need be saved. -/
theorem saved_of_atEnd (hend : h.AtEnd) : Saved s h := fun hlt => absurd hend (Nat.ne_of_lt hlt)

theorem saved_previousMessage (hs : Shows s h) (hsaved : Saved s h) (hstep : s.previousMessage env = some s') :
    Saved s' h.previous := by
  have hindex := hs.prevIndex_eq
  by_cases hpos : s.prevIndex = 0
  · obtain rfl := Option.some.inj ((previousMessage_zero env hpos).symm.trans hstep)
    rw [DraftHistory.previous_of_zero (by omega)]
    exact hsaved
  · obtain ⟨message, -, reply, hnext⟩ := previousMessage_eq env hs.inRange hpos
    obtain rfl := Option.some.inj (hnext.symm.trans hstep)
    intro _
    dsimp only
    split
    · next hend => exact hs.text_eq.trans (DraftHistory.shown_of_atEnd (hs.atEnd_iff.mp hend))
    · next hend =>
      have hne : h.position ≠ h.entries.length := fun hend' => hend (hs.atEnd_iff.mpr hend')
      exact hsaved (Nat.lt_of_le_of_ne h.position_le hne)

theorem saved_nextMessage (hs : Shows s h) (hsaved : Saved s h) (hstep : s.nextMessage env = some s') :
    Saved s' h.next := by
  have hindex := hs.prevIndex_eq
  have hlength := congrArg List.length hs.prevMsg_eq
  rcases Int.lt_or_le (s.prevIndex + 1) s.prevMsg.length with hlt | hge
  · obtain ⟨message, -, reply, hnext⟩ := nextMessage_of_lt env hs.inRange hlt
    obtain rfl := Option.some.inj (hnext.symm.trans hstep)
    intro _
    exact hsaved (by omega)
  · refine saved_of_atEnd (Nat.min_eq_right ?_)
    omega

theorem saved_step {op : Op} (hs : Shows s h) (hsaved : Saved s h) (hop : AtDraft s op)
    (hstep : step env s op = some s') : Saved s' (follow env s h op) := by
  cases op with
  | edit text => exact saved_of_atEnd (h := h.edit _) (hs.atEnd_iff.mp hop)
  | setReply displayName =>
    obtain rfl := Option.some.inj hstep
    rw [setReply, follow]
    dsimp only
    split
    · next hinline => exact saved_of_atEnd (h := h.edit _) (hs.atEnd_iff.mp (hop hinline))
    · exact hsaved
  | sendMessage keepInput =>
    obtain rfl := Option.some.inj hstep
    cases houtgoing : s.outgoing env with
    | none =>
      simp only [handleSendMessage, follow, houtgoing]
      exact hsaved
    | some message =>
      simp only [follow, houtgoing]
      exact saved_of_atEnd rfl
  | previousMessage => exact saved_previousMessage hs hsaved hstep
  | nextMessage => exact saved_nextMessage hs hsaved hstep

end Steps

/-! ## Runs -/

/-- A step of the input, and what it is for the history. -/
structure Tracked (before : SplitInput × DraftHistory Units) (label : InputEnvironment × Op)
    (after : SplitInput × DraftHistory Units) : Prop where
  atDraft : AtDraft before.1 label.2
  step_eq : step label.1 before.1 label.2 = some after.1
  follow_eq : after.2 = follow label.1 before.1 before.2 label.2

/-- A step that meets the condition. -/
def Good (before : SplitInput × DraftHistory Units) (label : InputEnvironment × Op)
    (after : SplitInput × DraftHistory Units) : Prop :=
  Tracked before label after ∧ Meets label.1 before.1 label.2

/-- What every step keeps, if it meets the condition. -/
def Tracks (p : SplitInput × DraftHistory Units) : Prop := Shows p.1 p.2 ∧ Saved p.1 p.2

theorem Tracked.keep {before after : SplitInput × DraftHistory Units} {label : InputEnvironment × Op}
    (htracks : Tracks before) (htracked : Tracked before label after) :
    (Shows after.1 after.2 ↔ Meets label.1 before.1 label.2) ∧ Saved after.1 after.2 := by
  obtain ⟨hs, hsaved⟩ := htracks
  obtain ⟨hop, hstep, hfollow⟩ := htracked
  rw [hfollow]
  exact ⟨shows_step_iff hs hsaved hop hstep, saved_step hs hsaved hop hstep⟩

/-- The history that nothing was sent to yet, beside the input. -/
def start (enableInlineReplying : Bool) : SplitInput × DraftHistory Units :=
  (new enableInlineReplying, .empty [])

theorem tracks_start (enableInlineReplying : Bool) : Tracks (start enableInlineReplying) :=
  ⟨⟨rfl, rfl, rfl⟩, saved_of_atEnd rfl⟩

theorem Good.tracks {p p' : SplitInput × DraftHistory Units} {label : InputEnvironment × Op}
    (htracks : Tracks p) (hgood : Good p label p') : Tracks p' :=
  ⟨(hgood.1.keep htracks).1.mpr hgood.2, (hgood.1.keep htracks).2⟩

theorem Tracked.inRange {p p' : SplitInput × DraftHistory Units} {label : InputEnvironment × Op}
    (hin : p.1.InRange) (htracked : Tracked p label p') : p'.1.InRange := by
  obtain ⟨s', hstep, hin'⟩ := exists_step label.1 hin label.2
  obtain rfl := Option.some.inj (hstep.symm.trans htracked.step_eq)
  exact hin'

theorem Tracks.of_run {p p' : SplitInput × DraftHistory Units} {labels : List (InputEnvironment × Op)}
    (htracks : Tracks p) (hrun : Run Good p labels p') : Tracks p' := by
  refine Run.invariant (fun _ _ _ hbefore hgood => ?_) htracks hrun
  exact Good.tracks hbefore hgood

theorem inRange_of_run {p p' : SplitInput × DraftHistory Units} {labels : List (InputEnvironment × Op)}
    (hin : p.1.InRange) (hrun : Run Tracked p labels p') : p'.1.InRange := by
  induction hrun with
  | nil => exact hin
  | cons htracked _ ih => exact ih (htracked.inRange hin)

theorem moves_of_good {p p' : SplitInput × DraftHistory Units} {labels : List (InputEnvironment × Op)}
    (hlabels : ∀ label ∈ labels, label.2 = .previousMessage ∨ label.2 = .nextMessage)
    (hrun : Run Good p labels p') : DraftHistory.Moves p.2 p'.2 := by
  induction hrun with
  | nil p => exact .refl p.2
  | @cons p p₁ p₂ label labels hgood _ ih =>
    rw [List.forall_mem_cons] at hlabels
    obtain ⟨hlabel, hrest⟩ := hlabels
    have hmoves := ih hrest
    rw [hgood.1.follow_eq] at hmoves
    rcases hlabel with hop | hop
    · rw [hop] at hmoves
      exact .previous hmoves
    · rw [hop] at hmoves
      exact .next hmoves

/--
Over every run no index is out of range. The input shows what the history with a draft shows after every step
of a run exactly if every step meets the condition, and then the way up and down leads back to the draft.
-/
theorem shows_history (enableInlineReplying : Bool) :
    (∀ labels p, Run Tracked (start enableInlineReplying) labels p →
      p.1.InRange ∧ ∀ env op, (step env p.1 op).isSome = true) ∧
    (∀ labels p,
      Run (fun before label after => Tracked before label after ∧ Shows after.1 after.2)
          (start enableInlineReplying) labels p ↔
        Run Good (start enableInlineReplying) labels p) ∧
    ∀ labels moves p p', Run Good (start enableInlineReplying) labels p →
      p.1.prevIndex = p.1.prevMsg.length →
      (∀ label ∈ moves, label.2 = .previousMessage ∨ label.2 = .nextMessage) →
      Run Good p moves p' → p'.1.prevIndex = p'.1.prevMsg.length → p'.1.text = p.1.text := by
  refine ⟨fun labels p hrun => ?_, fun labels p => ?_,
    fun labels moves p p' hrun hend hmoves hrun' hend' => ?_⟩
  · have hin : p.1.InRange := inRange_of_run (tracks_start enableInlineReplying).1.inRange hrun
    refine ⟨hin, fun env op => ?_⟩
    obtain ⟨s', hstep, -⟩ := exists_step env hin op
    rw [hstep, Option.isSome_some]
  · refine Run.guarded_steps_iff (fun before label after htracks htracked hmeets => ?_)
      (fun before label after htracks htracked hshows => ?_) (tracks_start enableInlineReplying)
    · have htracks' := Good.tracks htracks ⟨htracked, hmeets⟩
      exact ⟨htracks', htracks'.1⟩
    · exact (htracked.keep htracks).1.mp hshows
  · have htracks := (tracks_start enableInlineReplying).of_run hrun
    have htracks' := htracks.of_run hrun'
    calc p'.1.text
        = p'.2.shown := htracks'.1.text_eq
      _ = p.2.shown := DraftHistory.shown_moves (moves_of_good hmoves hrun')
          (htracks.1.atEnd_iff.mp hend) (htracks'.1.atEnd_iff.mp hend')
      _ = p.1.text := htracks.1.text_eq.symm

/-- In a channel where nobody has whispered, and no command changes what is sent. -/
def quiet : InputEnvironment where
  isTwitchChannel := true
  isTwitch := true
  lastUserThatWhisperedMe := []
  execCommand := id

/-- The position, the history and the text after some steps. -/
def outcome (env : InputEnvironment) (ops : List Op) : Option (Int × List Units × Units) :=
  (ops.foldlM (step env) (new false)).map fun s => (s.prevIndex, s.prevMsg, s.text)

/-- A draft that says what was sent last is lost when the next message is asked for. -/
theorem next_loses_draft :
    outcome quiet [.edit [0x68, 0x69], .sendMessage false, .edit [0x68, 0x69]] =
        some (1, [[0x68, 0x69]], [0x68, 0x69]) ∧
      outcome quiet [.edit [0x68, 0x69], .sendMessage false, .edit [0x68, 0x69], .nextMessage] =
        some (1, [[0x68, 0x69]], []) :=
  ⟨rfl, rfl⟩

end SplitInput

end Dankerino
