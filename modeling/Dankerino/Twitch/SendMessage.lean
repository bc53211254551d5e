import Dankerino.Infra.Run
import Dankerino.Qt.QString
import Mathlib.Data.List.Chain

/-!
# Messages that are sent

`prepareMessage`, `sendMessage` and `sendReply` of `TwitchChannel`. Twitch drops a message that is
equal to the one before it, so a text that was just sent is changed: one of its blanks is doubled, or
it gets a suffix. What is given to the connection is recorded.
-/

namespace Dankerino

open Infra

def ZERO_WIDTH_JOINER : QString := ['\u200D']

def ESCAPE_TAG : QString := [Char.ofNat 0xE0002]

def MAGIC_MESSAGE_SUFFIX : QString := [' ', Char.ofNat 0xE0000]

/-- What is read of the emotes, the accounts and the settings. -/
structure SendContext where
  replaceShortCodes : QString → QString
  isLoggedIn : Bool
  allowDuplicateMessages : Bool

/-- What sending reads and changes of a channel, and what was given to the connection. -/
structure SendState where
  mod : Bool
  broadcaster : Bool
  vip : Bool
  lastSentMessage : QString
  /-- The texts, with the message that they reply to. -/
  connection : List (Option QString × QString)

namespace SendState

variable (app : SendContext)

def hasHighRateLimit (s : SendState) : Bool := s.mod || s.broadcaster || s.vip

/-- The text with its short codes, joiners and blanks put right. -/
def normalise (message : QString) : QString :=
  QString.simplified
    (QString.replace (app.replaceShortCodes message) ZERO_WIDTH_JOINER ESCAPE_TAG)

/-- Twitch takes the text as a command and omits its first blank. -/
def ignoreFirstSpace (parsedMessage : QString) : Bool :=
  parsedMessage.head? == some '/' || parsedMessage.head? == some '.'

/-- What makes a text that was just sent a different one. -/
def breakDuplicate (parsedMessage : QString) : QString :=
  let spaceIndex := QString.indexOf parsedMessage ' ' 0
  let spaceIndex :=
    if ignoreFirstSpace parsedMessage then
      -- an index of `-1` has the next search start at the beginning
      QString.indexOf parsedMessage ' ' (spaceIndex.elim 0 (· + 1))
    else spaceIndex
  match spaceIndex with
  | none => parsedMessage ++ MAGIC_MESSAGE_SUFFIX
  | some i => parsedMessage.take i ++ [' ', ' '] ++ parsedMessage.drop (i + 1)

def prepareMessage (s : SendState) (message : QString) : QString :=
  let parsedMessage := normalise app message
  if parsedMessage.isEmpty then []
  else if !s.hasHighRateLimit then
    if app.allowDuplicateMessages then
      if parsedMessage = s.lastSentMessage then breakDuplicate parsedMessage else parsedMessage
    else parsedMessage
  else parsedMessage

/-- What `sendMessage` and `sendReply` share. `canSend` is whether the server lets the text through. -/
def send (replyId : Option QString) (message : QString) (canSend : Bool) (s : SendState) : SendState :=
  if !app.isLoggedIn then s
  else
    let parsedMessage := s.prepareMessage app message
    if parsedMessage.isEmpty then s
    else if canSend then
      { s with
        lastSentMessage := parsedMessage
        connection := s.connection ++ [(replyId, parsedMessage)] }
    else s

def sendMessage (message : QString) (canSend : Bool) (s : SendState) : SendState :=
  send app none message canSend s

def sendReply (message replyId : QString) (canSend : Bool) (s : SendState) : SendState :=
  send app (some replyId) message canSend s

inductive Op
  | sendMessage (message : QString) (canSend : Bool)
  | sendReply (message replyId : QString) (canSend : Bool)

def apply (s : SendState) : Op → SendState
  | .sendMessage message canSend => sendMessage app message canSend s
  | .sendReply message replyId canSend => sendReply app message replyId canSend s

/-- A channel that nothing was sent to. -/
def new (mod broadcaster vip : Bool) : SendState where
  mod := mod
  broadcaster := broadcaster
  vip := vip
  lastSentMessage := []
  connection := []

/-! ## Texts that were just sent -/

theorem length_breakDuplicate (text : QString) :
    text.length < (breakDuplicate text).length := by
  unfold breakDuplicate
  dsimp only
  split
  · simp [MAGIC_MESSAGE_SUFFIX]
  · next i hi =>
    have hlt : i < text.length := by
      split at hi <;>
        · obtain ⟨k, hk, rfl⟩ := Option.map_eq_some_iff.mp hi
          obtain ⟨hk, -⟩ := List.findIdx?_eq_some_iff_getElem.mp hk
          rw [List.length_drop] at hk
          omega
    simp only [List.length_append, List.length_take, List.length_drop, List.length_cons,
      List.length_nil]
    omega

theorem mem_breakDuplicate {text : QString} (h : ' ' ∈ text) : ' ' ∈ breakDuplicate text := by
  unfold breakDuplicate
  dsimp only
  split
  · exact List.mem_append_left _ h
  · simp

/-- Without its first blank the new text is still longer than the old one. -/
theorem length_erase_breakDuplicate (text : QString) :
    (text.erase ' ').length < ((breakDuplicate text).erase ' ').length := by
  have hlonger := length_breakDuplicate text
  by_cases hblank : ' ' ∈ text
  · rw [List.length_erase_of_mem hblank, List.length_erase_of_mem (mem_breakDuplicate hblank)]
    have := List.length_pos_of_mem hblank
    omega
  · -- no blank to double, so there is a suffix of two characters
    have hnone (start : Nat) : QString.indexOf text ' ' start = none := by
      rw [QString.indexOf, Option.map_eq_none_iff, List.findIdx?_eq_none_iff]
      intro c hc
      rw [beq_eq_false_iff_ne]
      rintro rfl
      exact hblank (List.mem_of_mem_drop hc)
    have hsuffix : breakDuplicate text = text ++ MAGIC_MESSAGE_SUFFIX := by
      unfold breakDuplicate
      simp only [hnone, ite_self]
    have hmem : ' ' ∈ text ++ MAGIC_MESSAGE_SUFFIX := by simp [MAGIC_MESSAGE_SUFFIX]
    rw [hsuffix, List.erase_of_not_mem hblank, List.length_erase_of_mem hmem, List.length_append]
    show text.length < text.length + 2 - 1
    omega

section Prepare

variable {app : SendContext} {s : SendState} (hallow : app.allowDuplicateMessages = true)
  (hlimit : s.hasHighRateLimit = false)

include hallow hlimit

theorem prepareMessage_eq (message : QString) : s.prepareMessage app message
    = if normalise app message = [] then []
      else if normalise app message = s.lastSentMessage then breakDuplicate (normalise app message)
      else normalise app message := by
  unfold prepareMessage
  simp [hallow, hlimit]

/-- A text that is prepared is not the last one. -/
theorem prepareMessage_ne {message : QString} (hne : s.prepareMessage app message ≠ []) :
    s.prepareMessage app message ≠ s.lastSentMessage := by
  rw [prepareMessage_eq hallow hlimit] at hne ⊢
  by_cases hempty : normalise app message = []
  · rw [if_pos hempty] at hne
    exact absurd rfl hne
  · rw [if_neg hempty]
    by_cases hlast : normalise app message = s.lastSentMessage
    · rw [if_pos hlast]
      intro heq
      have hlonger := length_breakDuplicate (normalise app message)
      rw [heq, hlast] at hlonger
      exact Nat.lt_irrefl _ hlonger
    · rwa [if_neg hlast]

end Prepare

/-! ## Runs -/

/-- The log ends with the last sent message, and no text in it follows itself. -/
structure NoRepeat (s : SendState) : Prop where
  last : ∀ text ∈ (s.connection.map Prod.snd).getLast?, text = s.lastSentMessage
  chain : (s.connection.map Prod.snd).IsChain (· ≠ ·)
  limit : s.hasHighRateLimit = false

theorem noRepeat_send {app : SendContext} (hallow : app.allowDuplicateMessages = true) {s : SendState}
    (hs : NoRepeat s) (replyId : Option QString) (message : QString) (canSend : Bool) :
    NoRepeat (send app replyId message canSend s) := by
  unfold send
  split
  · exact hs
  · dsimp only
    split
    · exact hs
    · next hempty =>
      split
      · have hne := prepareMessage_ne hallow hs.limit fun heq => hempty (by rw [heq]; rfl)
        refine ⟨?_, ?_, hs.limit⟩
        · intro text htext
          simpa using htext.symm
        · rw [List.map_append]
          refine List.IsChain.append hs.chain (List.IsChain.singleton _) ?_
          intro text htext text' htext'
          obtain rfl := Option.some.inj htext'
          rw [hs.last text htext]
          exact hne.symm
      · exact hs

/--
**No repeated message.** With duplicate messages allowed and no high rate limit, no two texts that
are given to the connection one after the other are the same. A command that equals the last text is
still a different one when the first blank of both is omitted.
-/
theorem run_noRepeat {app : SendContext} (hallow : app.allowDuplicateMessages = true)
    {mod broadcaster vip : Bool} (hlimit : (new mod broadcaster vip).hasHighRateLimit = false)
    (ops : List Op) :
    let s := ops.foldl (apply app) (new mod broadcaster vip)
    (s.connection.map Prod.snd).IsChain (· ≠ ·) ∧
      ∀ message last, (s.connection.map Prod.snd).getLast? = some last → normalise app message = last →
        ignoreFirstSpace last = true →
          (s.prepareMessage app message).erase ' ' ≠ last.erase ' ' := by
  intro s
  have hs : NoRepeat s := by
    refine List.foldlRecOn ops (apply app) ?_ ?_
    · exact ⟨fun _ h => (nomatch h), .nil, hlimit⟩
    · intro s hs op _
      cases op with
      | sendMessage message canSend => exact noRepeat_send hallow hs none message canSend
      | sendReply message replyId canSend => exact noRepeat_send hallow hs (some replyId) message canSend
  refine ⟨hs.chain, ?_⟩
  rintro message last hlast rfl hcommand
  have hne : normalise app message ≠ [] := by
    intro hnil
    rw [hnil] at hcommand
    exact nomatch hcommand
  rw [prepareMessage_eq hallow hs.limit, if_neg hne, if_pos (hs.last _ hlast)]
  intro heq
  have hlonger := length_erase_breakDuplicate (normalise app message)
  rw [heq] at hlonger
  exact Nat.lt_irrefl _ hlonger

/-- A text and a command that are sent twice. -/
theorem run_noRepeat_twice :
    let app : SendContext := ⟨id, true, true⟩
    let s := [.sendMessage "hi".toList true, .sendMessage "hi ".toList true,
      .sendMessage "/me  says hi".toList true, .sendReply "/me says hi".toList ['1'] true].foldl
        (apply app) (new false false false)
    s.connection.map Prod.snd = ["hi".toList, "hi".toList ++ MAGIC_MESSAGE_SUFFIX,
        "/me says hi".toList, "/me says  hi".toList] ∧
      (s.connection.map Prod.snd).IsChain (· ≠ ·) := by
  intro app s
  have hallow : app.allowDuplicateMessages = true := rfl
  have hlimit : (new false false false).hasHighRateLimit = false := rfl
  exact ⟨by decide +kernel, (run_noRepeat hallow hlimit _).1⟩

end SendState

end Dankerino
