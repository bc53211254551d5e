import Dankerino.Qt.Utf16

/-!
# The input of a split

`SplitInput` as far as it keeps the messages that were sent: `handleSendMessage` and `postMessageSend`, the
actions `previousMessage` and `nextMessage`, and `editTextChanged`, which is called whenever the text changes
and may change it once more. After every step the position is in the history or at its end (`exists_step`).
-/

namespace Dankerino

/-- What a step depends on besides the input. -/
structure InputEnvironment where
  /-- `Channel::isTwitchChannel` -/
  isTwitchChannel : Bool
  /-- Whether the channel is a `TwitchChannel`. -/
  isTwitch : Bool
  lastUserThatWhisperedMe : Units
  /-- `CommandController::execCommand` as a dry run -/
  execCommand : Units → Units

structure SplitInput where
  enableInlineReplying : Bool
  prevMsg : List Units
  currMsg : Units
  prevIndex : Int
  /-- The text of `textEdit`. -/
  text : Units
  /-- The display name of who wrote the root of `replyThread_`. -/
  replyThread : Option Units

namespace SplitInput

def new (enableInlineReplying : Bool) : SplitInput where
  enableInlineReplying
  prevMsg := []
  currMsg := []
  prevIndex := 0
  text := []
  replyThread := none

/-- `/r ` -/
def replyCommand : Units := [0x2F, 0x72, 0x20]

/-- `/w ` -/
def whisperCommand : Units := [0x2F, 0x77, 0x20]

/-- `supibot ` -/
def supibot : Units := QString.units "supibot ".toList

/-- `mm_sutilitybot ` -/
def sutilitybot : Units := QString.units "mm_sutilitybot ".toList

/-- `QStringList::at` -/
def atIndex (list : List Units) (i : Int) : Option Units := if i < 0 then none else list[i.toNat]?

section Actions

variable (env : InputEnvironment)

/-- The end of `editTextChanged`, for a text that need not be the one of the text edit. -/
def checkReply (text : Units) (s : SplitInput) : SplitInput :=
  match s.replyThread with
  | none => s
  | some displayName =>
    let replyPrefix := 0x40 :: displayName
    if s.enableInlineReplying && (!replyPrefix.isPrefixOf text ||
        (decide (text.length > replyPrefix.length) && text[replyPrefix.length]? != some 0x20)) then
      { s with replyThread := none }
    else s

/-- `setPlainText` of a text that starts with `/w `, for which `editTextChanged` takes its last branch. -/
def setWhisper (text : Units) (s : SplitInput) : SplitInput :=
  checkReply (env.execCommand text.trimmed) { s with text }

def editTextChanged (s : SplitInput) : SplitInput :=
  let text := s.text
  if text.startsWith replyCommand && env.isTwitchChannel then
    let s :=
      if env.lastUserThatWhisperedMe.isEmpty then s
      else s.setWhisper env (whisperCommand ++ env.lastUserThatWhisperedMe ++ text.drop 2)
    s.checkReply text
  else if text.startsWith [0x2F, 0x24] && env.isTwitchChannel then
    (s.setWhisper env (whisperCommand ++ supibot ++ text.drop 1)).checkReply text
  else if text.startsWith [0x2F, 0x5F] && env.isTwitchChannel then
    (s.setWhisper env (whisperCommand ++ sutilitybot ++ text.drop 1)).checkReply text
  else s.checkReply (env.execCommand text.trimmed)

def setPlainText (text : Units) (s : SplitInput) : SplitInput := editTextChanged env { s with text }

def clearInput (s : SplitInput) : SplitInput :=
  let s := setPlainText env [] { s with currMsg := [] }
  if s.enableInlineReplying then { s with replyThread := none } else s

def postMessageSend (message : Units) (keepInput : Bool) (s : SplitInput) : SplitInput :=
  let s :=
    if (s.prevMsg.isEmpty || s.prevMsg.getLast? != some message) && !message.trimmed.isEmpty then
      { s with prevMsg := s.prevMsg ++ [message] }
    else s
  let s := if keepInput then s else s.clearInput env
  { s with prevIndex := s.prevMsg.length }

/-- The message that `handleSendMessage` sends. -/
def outgoing (s : SplitInput) : Option Units :=
  let oneLine := fun message : Units => message.map fun unit => if unit = 0x0A then 0x20 else unit
  match s.replyThread with
  | none => some (oneLine s.text)
  | some displayName =>
    if !env.isTwitchChannel then some (oneLine s.text)
    else if !env.isTwitch then none
    else
      if s.enableInlineReplying then
        let message := s.text.drop (displayName.length + 1)
        some (oneLine (if message.head? = some 0x20 then message.drop 1 else message))
      else some (oneLine s.text)

def handleSendMessage (keepInput : Bool) (s : SplitInput) : SplitInput :=
  match s.outgoing env with
  | none => s
  | some message => s.postMessageSend env message keepInput

def previousMessage (s : SplitInput) : Option SplitInput :=
  if s.prevMsg.length ≠ 0 ∧ s.prevIndex ≠ 0 then
    let s := if s.prevIndex = s.prevMsg.length then { s with currMsg := s.text } else s
    let s := { s with prevIndex := s.prevIndex - 1 }
    (atIndex s.prevMsg s.prevIndex).map fun message => s.setPlainText env message
  else some s

def nextMessage (s : SplitInput) : Option SplitInput :=
  if s.prevMsg.isEmpty then some s
  else
    let message := s.text
    if s.prevIndex ≠ s.prevMsg.length - 1 ∧ s.prevIndex ≠ s.prevMsg.length then
      let s := { s with prevIndex := s.prevIndex + 1 }
      (atIndex s.prevMsg s.prevIndex).map fun message => s.setPlainText env message
    else
      let s := { s with prevIndex := s.prevMsg.length }
      (atIndex s.prevMsg (s.prevIndex - 1)).map fun last =>
        if message = last then s.setPlainText env s.currMsg
        else if message ≠ s.currMsg then { s with currMsg := message }
        else s

def setReply (displayName : Units) (s : SplitInput) : SplitInput :=
  let s := { s with replyThread := some displayName }
  if s.enableInlineReplying then s.setPlainText env (0x40 :: displayName ++ [0x20]) else s

end Actions

inductive Op
  /-- The user makes the text another one. -/
  | edit (text : Units)
  | setReply (displayName : Units)
  | sendMessage (keepInput : Bool)
  | previousMessage
  | nextMessage

/-- `none` stands for an `at` that is out of range. -/
def step (env : InputEnvironment) (s : SplitInput) : Op → Option SplitInput
  | .edit text => some (s.setPlainText env text)
  | .setReply displayName => some (s.setReply env displayName)
  | .sendMessage keepInput => some (s.handleSendMessage env keepInput)
  | .previousMessage => s.previousMessage env
  | .nextMessage => s.nextMessage env

/-! ## What a step changes -/

/-- What `editTextChanged` makes of a text. -/
def shownText (env : InputEnvironment) (text : Units) : Units :=
  if text.startsWith replyCommand && env.isTwitchChannel then
    if env.lastUserThatWhisperedMe.isEmpty then text
    else whisperCommand ++ env.lastUserThatWhisperedMe ++ text.drop 2
  else if text.startsWith [0x2F, 0x24] && env.isTwitchChannel then whisperCommand ++ supibot ++ text.drop 1
  else if text.startsWith [0x2F, 0x5F] && env.isTwitchChannel then
    whisperCommand ++ sutilitybot ++ text.drop 1
  else text

section Steps

variable (env : InputEnvironment) (s : SplitInput)

/-- The reply is all that may change. -/
theorem checkReply_eq (text : Units) : ∃ replyThread, s.checkReply text = { s with replyThread } := by
  rw [checkReply]
  split
  · exact ⟨s.replyThread, rfl⟩
  · dsimp only
    split
    · exact ⟨none, rfl⟩
    · exact ⟨s.replyThread, rfl⟩

theorem setWhisper_checkReply_eq (whisper text : Units) : ∃ replyThread,
    (s.setWhisper env whisper).checkReply text = { s with text := whisper, replyThread } := by
  obtain ⟨reply, hreply⟩ := checkReply_eq { s with text := whisper } (env.execCommand whisper.trimmed)
  obtain ⟨reply', hreply'⟩ := checkReply_eq (s.setWhisper env whisper) text
  refine ⟨reply', hreply'.trans ?_⟩
  rw [setWhisper, hreply]

/-- The text and the reply are all that changes. -/
theorem setPlainText_eq (text : Units) : ∃ replyThread,
    s.setPlainText env text = { s with text := shownText env text, replyThread } := by
  rw [setPlainText, editTextChanged, shownText]
  dsimp only
  split
  · split
    · exact checkReply_eq _ text
    · exact setWhisper_checkReply_eq env _ _ text
  · split
    · exact setWhisper_checkReply_eq env _ _ text
    · split
      · exact setWhisper_checkReply_eq env _ _ text
      · exact checkReply_eq _ _

/-- A text that `editTextChanged` takes for the start of a whisper. -/
def Abbreviated (env : InputEnvironment) (text : Units) : Prop :=
  env.isTwitchChannel ∧
    (text.startsWith replyCommand ∧ env.lastUserThatWhisperedMe ≠ [] ∨
      text.startsWith [0x2F, 0x24] ∨ text.startsWith [0x2F, 0x5F])

/-- A text does not start with two commands that differ in the second character. -/
theorem not_startsWith {command command' text : Units} {second second' : Nat}
    (h : text.startsWith command = true) (hsecond : command[1]? = some second)
    (hsecond' : command'[1]? = some second') (hne : second ≠ second') : ¬ text.startsWith command' = true := by
  intro h'
  have hread {command : Units} {second : Nat} (h : text.startsWith command = true)
      (hsecond : command[1]? = some second) : (Units.toLower text)[1]? = some second := by
    have hlength : 1 < command.length := (List.getElem?_eq_some_iff.mp hsecond).1
    have hcommand : Units.toLower (text.take command.length) = command := of_decide_eq_true h
    rwa [← hcommand, Units.toLower, List.getElem?_map, List.getElem?_take_of_lt hlength,
      ← List.getElem?_map] at hsecond
  exact hne (Option.some.inj ((hread h hsecond).symm.trans (hread h' hsecond')))

/-- No command is written out as a whisper that starts with it. -/
theorem whisper_ne {command text : Units} {second : Nat} (h : text.startsWith command = true)
    (hsecond : command[1]? = some second) (hne : second ≠ 0x77) (rest : Units) :
    whisperCommand ++ rest ≠ text := by
  rintro rfl
  have hwhisper : Units.startsWith (whisperCommand ++ rest) whisperCommand = true := rfl
  exact not_startsWith h hsecond rfl hne hwhisper

theorem shownText_eq_self_iff (text : Units) : shownText env text = text ↔ ¬ Abbreviated env text := by
  rw [shownText, Abbreviated]
  cases env.isTwitchChannel with
  | false => simp
  | true =>
    simp only [Bool.and_true, true_and]
    by_cases hreply : text.startsWith replyCommand = true
    · by_cases hlast : env.lastUserThatWhisperedMe = []
      · -- nobody has whispered, and it is no other abbreviation
        have hdollar : text.startsWith [0x2F, 0x24] ≠ true := not_startsWith hreply rfl rfl (by decide)
        have hunderscore : text.startsWith [0x2F, 0x5F] ≠ true := not_startsWith hreply rfl rfl (by decide)
        simp [hreply, hlast, hdollar, hunderscore]
      · have hne := whisper_ne hreply rfl (by decide) (env.lastUserThatWhisperedMe ++ text.drop 2)
        simpa [hreply, hlast] using hne
    · by_cases hdollar : text.startsWith [0x2F, 0x24] = true
      · have hne := whisper_ne hdollar rfl (by decide) (supibot ++ text.drop 1)
        simpa [hreply, hdollar] using hne
      · by_cases hunderscore : text.startsWith [0x2F, 0x5F] = true
        · have hne := whisper_ne hunderscore rfl (by decide) (sutilitybot ++ text.drop 1)
          simpa [hreply, hdollar, hunderscore] using hne
        · simp [hreply, hdollar, hunderscore]

/-- The input is empty, and nothing is saved. -/
theorem clearInput_eq : ∃ replyThread,
    s.clearInput env = { s with currMsg := [], text := [], replyThread } := by
  obtain ⟨reply, hreply⟩ := setPlainText_eq env { s with currMsg := [] } []
  rw [clearInput, hreply]
  dsimp only
  split
  · exact ⟨none, rfl⟩
  · exact ⟨reply, rfl⟩

/-- The message that is added to the history. -/
def recorded (message : Units) : Option Units :=
  if (s.prevMsg.isEmpty || s.prevMsg.getLast? != some message) && !message.trimmed.isEmpty then some message
  else none

theorem postMessageSend_eq (message : Units) (keepInput : Bool) : ∃ replyThread,
    s.postMessageSend env message keepInput =
      { s with
        prevMsg := s.prevMsg ++ (s.recorded message).toList
        currMsg := if keepInput then s.currMsg else []
        prevIndex := (s.prevMsg ++ (s.recorded message).toList).length
        text := if keepInput then s.text else []
        replyThread } := by
  have happend : (if (s.prevMsg.isEmpty || s.prevMsg.getLast? != some message) && !message.trimmed.isEmpty then
      { s with prevMsg := s.prevMsg ++ [message] } else s)
        = { s with prevMsg := s.prevMsg ++ (s.recorded message).toList } := by
    rw [recorded]
    split
    · rfl
    · simp
  rw [postMessageSend, happend]
  cases keepInput with
  | true => exact ⟨s.replyThread, rfl⟩
  | false =>
    obtain ⟨reply, hreply⟩ :=
      clearInput_eq env { s with prevMsg := s.prevMsg ++ (s.recorded message).toList }
    refine ⟨reply, ?_⟩
    rw [if_neg Bool.false_ne_true, hreply]
    rfl

end Steps

/-! ## The position -/

/-- The position is in the history or at its end. -/
structure InRange (s : SplitInput) : Prop where
  nonneg : 0 ≤ s.prevIndex
  le : s.prevIndex ≤ s.prevMsg.length

theorem atIndex_of_lt (list : List Units) {i : Int} (hi : 0 ≤ i) (hlt : i < list.length) :
    ∃ h : i.toNat < list.length, atIndex list i = some list[i.toNat] := by
  have hlt' : i.toNat < list.length := by omega
  refine ⟨hlt', ?_⟩
  rw [atIndex, if_neg (Int.not_lt.mpr hi), List.getElem?_eq_getElem hlt']

theorem atIndex_natCast (list : List Units) (i : Nat) : atIndex list i = list[i]? := rfl

section Positions

variable {s : SplitInput} (env : InputEnvironment)

theorem previousMessage_zero (h : s.prevIndex = 0) : s.previousMessage env = some s := by
  rw [previousMessage, if_neg fun hnot => hnot.2 h]

/-- The text that `previousMessage` calls up, and what is saved. -/
theorem previousMessage_eq (h : s.InRange) (hpos : s.prevIndex ≠ 0) :
    ∃ message, atIndex s.prevMsg (s.prevIndex - 1) = some message ∧ ∃ replyThread,
      s.previousMessage env = some
        { s with
          currMsg := if s.prevIndex = s.prevMsg.length then s.text else s.currMsg
          prevIndex := s.prevIndex - 1
          text := shownText env message
          replyThread } := by
  obtain ⟨hnonneg, hle⟩ := h
  obtain ⟨hlt, hat⟩ := atIndex_of_lt s.prevMsg (i := s.prevIndex - 1) (by omega) (by omega)
  have hsaved : (if s.prevIndex = s.prevMsg.length then { s with currMsg := s.text } else s)
      = { s with currMsg := if s.prevIndex = s.prevMsg.length then s.text else s.currMsg } := by
    split <;> rfl
  obtain ⟨reply, hreply⟩ := setPlainText_eq env
    { s with
      currMsg := if s.prevIndex = s.prevMsg.length then s.text else s.currMsg
      prevIndex := s.prevIndex - 1 } s.prevMsg[(s.prevIndex - 1).toNat]
  refine ⟨_, hat, reply, ?_⟩
  have hcond : s.prevMsg.length ≠ 0 ∧ s.prevIndex ≠ 0 := ⟨by omega, hpos⟩
  rw [previousMessage, if_pos hcond]
  simp only [hsaved, hat, Option.map_some, hreply]

theorem nextMessage_nil (h : s.prevMsg = []) : s.nextMessage env = some s := by
  rw [nextMessage, h]
  rfl

/-- The text that `nextMessage` calls up before the last message. -/
theorem nextMessage_of_lt (h : s.InRange) (hlt : s.prevIndex + 1 < s.prevMsg.length) :
    ∃ message, atIndex s.prevMsg (s.prevIndex + 1) = some message ∧ ∃ replyThread,
      s.nextMessage env = some
        { s with prevIndex := s.prevIndex + 1, text := shownText env message, replyThread } := by
  obtain ⟨hnonneg, hle⟩ := h
  obtain ⟨hlt', hat⟩ := atIndex_of_lt s.prevMsg (i := s.prevIndex + 1) (by omega) hlt
  obtain ⟨reply, hreply⟩ := setPlainText_eq env { s with prevIndex := s.prevIndex + 1 }
    s.prevMsg[(s.prevIndex + 1).toNat]
  refine ⟨_, hat, reply, ?_⟩
  have hne : s.prevMsg.isEmpty = false := by
    rw [List.isEmpty_eq_false_iff, ← List.length_pos_iff]
    omega
  have hcond : s.prevIndex ≠ s.prevMsg.length - 1 ∧ s.prevIndex ≠ s.prevMsg.length := ⟨by omega, by omega⟩
  rw [nextMessage, hne, if_neg Bool.false_ne_true]
  dsimp only
  rw [if_pos hcond, hat, Option.map_some, hreply]

/-- At the last message and behind it, `nextMessage` goes by the text. -/
theorem nextMessage_of_le (h : s.InRange) (hne : s.prevMsg ≠ [])
    (hle : s.prevMsg.length ≤ s.prevIndex + 1) :
    ∃ last, s.prevMsg.getLast? = some last ∧
      (s.text = last → ∃ replyThread, s.nextMessage env = some
        { s with prevIndex := s.prevMsg.length, text := shownText env s.currMsg, replyThread }) ∧
      (s.text ≠ last → s.nextMessage env = some
        { s with prevIndex := s.prevMsg.length, currMsg := s.text }) := by
  have hpos := List.length_pos_iff.mpr hne
  obtain ⟨hlt, hat⟩ := atIndex_of_lt s.prevMsg (i := (s.prevMsg.length : Int) - 1) (by omega) (by omega)
  have hlast : s.prevMsg.getLast? = some s.prevMsg[((s.prevMsg.length : Int) - 1).toNat] := by
    have hnat : ((s.prevMsg.length : Int) - 1).toNat = s.prevMsg.length - 1 := by omega
    rw [List.getLast?_eq_getElem?, ← hnat, List.getElem?_eq_getElem hlt]
  have hcond : ¬ (s.prevIndex ≠ s.prevMsg.length - 1 ∧ s.prevIndex ≠ s.prevMsg.length) := by
    have hin := h.le
    omega
  have hempty : s.prevMsg.isEmpty = false := List.isEmpty_eq_false_iff.mpr hne
  refine ⟨_, hlast, fun htext => ?_, fun htext => ?_⟩
  · obtain ⟨reply, hreply⟩ := setPlainText_eq env { s with prevIndex := s.prevMsg.length } s.currMsg
    refine ⟨reply, ?_⟩
    rw [nextMessage, hempty, if_neg Bool.false_ne_true]
    dsimp only
    rw [if_neg hcond, hat, Option.map_some, if_pos htext, hreply]
  · rw [nextMessage, hempty, if_neg Bool.false_ne_true]
    dsimp only
    rw [if_neg hcond, hat, Option.map_some, if_neg htext]
    by_cases hcurr : s.text = s.currMsg
    · rw [if_neg (Classical.not_not.mpr hcurr), hcurr]
    · rw [if_pos hcurr]

end Positions

/-- No `at` is out of range, and the position stays in range. -/
theorem exists_step (env : InputEnvironment) {s : SplitInput} (h : s.InRange) (op : Op) :
    ∃ s', step env s op = some s' ∧ s'.InRange := by
  have hin := h
  obtain ⟨hnonneg, hle⟩ := hin
  cases op with
  | edit text =>
    obtain ⟨reply, hreply⟩ := setPlainText_eq env s text
    exact ⟨_, congrArg some hreply, hnonneg, hle⟩
  | setReply displayName =>
    refine ⟨_, rfl, ?_⟩
    rw [setReply]
    dsimp only
    split
    · obtain ⟨reply, hreply⟩ := setPlainText_eq env { s with replyThread := some displayName }
        (0x40 :: displayName ++ [0x20])
      rw [hreply]
      exact ⟨hnonneg, hle⟩
    · exact ⟨hnonneg, hle⟩
  | sendMessage keepInput =>
    refine ⟨_, rfl, ?_⟩
    rw [handleSendMessage]
    split
    · exact ⟨hnonneg, hle⟩
    · next message hmessage =>
      obtain ⟨reply, hreply⟩ := postMessageSend_eq env s message keepInput
      rw [hreply]
      exact ⟨Int.natCast_nonneg _, Int.le_refl _⟩
  | previousMessage =>
    by_cases hpos : s.prevIndex = 0
    · exact ⟨s, previousMessage_zero env hpos, h⟩
    · obtain ⟨message, -, reply, hstep⟩ := previousMessage_eq env h hpos
      exact ⟨_, hstep, by dsimp only; omega, by dsimp only; omega⟩
  | nextMessage =>
    by_cases hne : s.prevMsg = []
    · exact ⟨s, nextMessage_nil env hne, h⟩
    · rcases Int.lt_or_le (s.prevIndex + 1) s.prevMsg.length with hlt | hge
      · obtain ⟨message, -, reply, hstep⟩ := nextMessage_of_lt env h hlt
        exact ⟨_, hstep, by dsimp only; omega, by dsimp only; omega⟩
      · obtain ⟨last, -, hsame, hother⟩ := nextMessage_of_le env h hne hge
        by_cases htext : s.text = last
        · obtain ⟨reply, hstep⟩ := hsame htext
          exact ⟨_, hstep, Int.natCast_nonneg _, Int.le_refl _⟩
        · exact ⟨_, hother htext, Int.natCast_nonneg _, Int.le_refl _⟩

end SplitInput

end Dankerino
