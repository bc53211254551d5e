import Dankerino.Infra.StoppedScan
import Dankerino.Twitch.Similarity

/-!
# The messages that a message is compared with

`IrcMessageHandler::similarity` goes back from the newest message. It knows only the time of day of a message,
to the second, and stops at the first message that seems too old. `similarity_iff` says for which times it
compares with the messages that really are young enough.

Instants count milliseconds from some midnight on, and every day has 24 hours.
-/

namespace Dankerino

open Infra

namespace Similarity

/-- When a message was made, and by whom. -/
structure Stamp where
  time : Nat
  loginName : QString
  deriving DecidableEq

structure Message extends Stamp where
  messageText : Units

structure SimilaritySettings where
  hideSimilarMaxMessagesToCheck : Int
  hideSimilarMaxDelay : Int
  hideSimilarBySameUser : Bool

/-- `QTime::currentTime` -/
def currentTime (now : Nat) : Nat := now % 86400000

/-- `QTime::secsTo`. The milliseconds are not looked at. -/
def secsTo (time other : Nat) : Int := ((other / 1000 : Nat) : Int) - (time / 1000 : Nat)

def Stamp.parseTime (stamp : Stamp) : Nat := currentTime stamp.time

section Window

variable (settings : SimilaritySettings) (now : Nat)

/-- The loop stops here. -/
def seemsTooOld (stamp : Stamp) : Bool :=
  secsTo stamp.parseTime (currentTime now) ≥ settings.hideSimilarMaxDelay

/-- The message is of another user, and those do not count. -/
def isSkipped (loginName : QString) (stamp : Stamp) : Bool :=
  settings.hideSimilarBySameUser && loginName != stamp.loginName

/-- The loop, on the messages from the newest to the oldest. -/
def similarityLoop (msg : Message) : Int → ℚ → List Message → ℚ
  | _, similarityPercent, [] => similarityPercent
  | checked, similarityPercent, prevMsg :: messages =>
    if checked ≥ settings.hideSimilarMaxMessagesToCheck then similarityPercent
    else if seemsTooOld settings now prevMsg.toStamp then similarityPercent
    else if isSkipped settings msg.loginName prevMsg.toStamp then
      similarityLoop msg checked similarityPercent messages
    else
      similarityLoop msg (checked + 1)
        (max similarityPercent (relativeSimilarity msg.messageText prevMsg.messageText)) messages

def similarity (msg : Message) (messages : List Message) : ℚ :=
  similarityLoop settings now msg 0 0 messages.reverse

/-! ## What it should be -/

/-- The message is younger than the delay. -/
def isYoung (stamp : Stamp) : Bool := (now : Int) - stamp.time < 1000 * settings.hideSimilarMaxDelay

/-- The most recent messages that count, without those that are too old. -/
def window (loginName : QString) (messages : List Message) : List Message :=
  ((messages.reverse.filter fun m => !isSkipped settings loginName m.toStamp).take
    settings.hideSimilarMaxMessagesToCheck.toNat).filter fun m => isYoung settings now m.toStamp

/-- The greatest similarity with a message of the window, or 0. -/
def IsSimilarity (msg : Message) (messages : List Message) (p : ℚ) : Prop :=
  IsGreatest {x | x = 0 ∨ ∃ m ∈ window settings now msg.loginName messages,
    x = relativeSimilarity msg.messageText m.messageText} p

/-- Of the most recent messages that count, those are young that do not seem too old, with all messages behind. -/
def ClocksAgree (loginName : QString) (stamps : List Stamp) : Prop :=
  ∀ older stamp newer, stamps = older ++ stamp :: newer → isSkipped settings loginName stamp = false →
    (newer.countP fun s => !isSkipped settings loginName s) < settings.hideSimilarMaxMessagesToCheck →
      (isYoung settings now stamp = true ↔ ∀ s ∈ stamp :: newer, seemsTooOld settings now s = false)

end Window

/-! ## The loop -/

section Loop

variable (settings : SimilaritySettings) (now : Nat)

/-- The messages that the loop compares with. -/
def compared (loginName : QString) (messages : List Message) : List Message :=
  visited (fun m => seemsTooOld settings now m.toStamp) (fun m => isSkipped settings loginName m.toStamp)
    settings.hideSimilarMaxMessagesToCheck.toNat messages.reverse

variable {settings now}

/-- The loop takes the maximum over the messages that it visits. -/
theorem similarityLoop_eq (msg : Message) (messages : List Message) : ∀ (checked : Int) (p : ℚ),
    similarityLoop settings now msg checked p messages =
      ((visited (fun m : Message => seemsTooOld settings now m.toStamp)
          (fun m => isSkipped settings msg.loginName m.toStamp)
          (settings.hideSimilarMaxMessagesToCheck - checked).toNat messages).map
        fun m => relativeSimilarity msg.messageText m.messageText).foldl max p := by
  induction messages with
  | nil =>
    intro checked p
    cases (settings.hideSimilarMaxMessagesToCheck - checked).toNat <;> rfl
  | cons m messages ih =>
    intro checked p
    rw [similarityLoop]
    by_cases hchecked : checked ≥ settings.hideSimilarMaxMessagesToCheck
    · have hzero : (settings.hideSimilarMaxMessagesToCheck - checked).toNat = 0 := by omega
      rw [if_pos hchecked, hzero]
      rfl
    · obtain ⟨n, hn⟩ : ∃ n, (settings.hideSimilarMaxMessagesToCheck - checked).toNat = n + 1 :=
        ⟨(settings.hideSimilarMaxMessagesToCheck - checked).toNat - 1, by omega⟩
      have hnext : (settings.hideSimilarMaxMessagesToCheck - (checked + 1)).toNat = n := by omega
      rw [if_neg hchecked, hn, visited]
      split
      · rfl
      · split
        · rw [ih, hn]
        · rw [ih, hnext]
          rfl

variable (settings now) in
/-- The similarity is the greatest one with a message that the loop visits, or 0. -/
theorem isGreatest_similarity (msg : Message) (messages : List Message) :
    IsGreatest {x | x = 0 ∨ ∃ m ∈ compared settings now msg.loginName messages,
      x = relativeSimilarity msg.messageText m.messageText} (similarity settings now msg messages) := by
  have hgreatest := isGreatest_foldl_max ((compared settings now msg.loginName messages).map fun m =>
    relativeSimilarity msg.messageText m.messageText) 0
  rw [similarity, similarityLoop_eq, Int.sub_zero]
  refine ⟨?_, fun x hx => hgreatest.2 ?_⟩
  · exact hgreatest.1.imp_right fun hmem => by
      obtain ⟨m, hm, heq⟩ := List.mem_map.mp hmem
      exact ⟨m, hm, heq.symm⟩
  · refine hx.imp_right fun hmem => ?_
    obtain ⟨m, hm, rfl⟩ := hmem
    exact List.mem_map_of_mem hm

/-! ## When the clocks agree -/

variable {loginName : QString} {stamps : List Stamp}

/-- The condition for the messages from the newest to the oldest. -/
theorem ClocksAgree.agree (h : ClocksAgree settings now loginName stamps) {messages : List Message}
    (hmessages : messages.map Message.toStamp = stamps) :
    Agree (fun m : Message => seemsTooOld settings now m.toStamp) (fun m => isSkipped settings loginName m.toStamp)
      (fun m => isYoung settings now m.toStamp) settings.hideSimilarMaxMessagesToCheck.toNat
      messages.reverse := by
  intro front m back hsplit hskip hcount
  have hstamps : stamps = back.reverse.map Message.toStamp ++
      m.toStamp :: front.reverse.map Message.toStamp := by
    have hreverse := congrArg List.reverse hsplit
    rw [List.reverse_reverse, List.reverse_append, List.reverse_cons, List.append_assoc] at hreverse
    rw [← hmessages, hreverse, List.map_append]
    rfl
  have hbefore : ((front.reverse.map Message.toStamp).countP fun s => !isSkipped settings loginName s) =
      front.countP fun m => !isSkipped settings loginName m.toStamp := by
    rw [List.countP_map, List.countP_reverse]
    rfl
  rw [h _ _ _ hstamps hskip (by dsimp only at hcount; omega)]
  simp only [List.forall_mem_cons, List.forall_mem_map, List.mem_reverse]

/-- One message with a text, the others without one. Whether it is among the messages, the maximum tells. -/
theorem isGreatest_eq_one_iff {text : Units} (htext : text ≠ []) {mark : Message}
    (hmark : mark.messageText = text) {messages : List Message} {p : ℚ}
    (honly : ∀ m ∈ messages, m.messageText = text → m = mark)
    (h : IsGreatest {x | x = 0 ∨ ∃ m ∈ messages, x = relativeSimilarity text m.messageText} p) :
    p = 1 ↔ mark ∈ messages := by
  constructor
  · rintro rfl
    rcases h.1 with hzero | ⟨m, hm, hone⟩
    · exact absurd hzero one_ne_zero
    · have heq := (relativeSimilarity_eq_one_iff _ _).mp hone.symm
      exact honly m hm heq.1.symm ▸ hm
  · intro hmem
    have hself := (relativeSimilarity_eq_one_iff text mark.messageText).mpr ⟨hmark.symm, htext⟩
    apply le_antisymm
    · rcases h.1 with hzero | ⟨m, -, hsimilar⟩
      · exact hzero.trans_le zero_le_one
      · exact hsimilar.trans_le (relativeSimilarity_bounds _ _).2
    · exact h.2 (.inr ⟨mark, hmem, hself.symm⟩)

/-- A message without a text. -/
def blank (stamp : Stamp) : Message := { stamp with messageText := [] }

/--
For given times and users, the similarity is the greatest one with a message of the window, whatever the texts
are, exactly if the clocks agree.
-/
theorem similarity_iff (settings : SimilaritySettings) (now : Nat) (loginName : QString) (stamps : List Stamp) :
    (∀ (msg : Message) (messages : List Message), msg.loginName = loginName →
      messages.map Message.toStamp = stamps →
      IsSimilarity settings now msg messages (similarity settings now msg messages)) ↔
      ClocksAgree settings now loginName stamps := by
  constructor
  · intro h older stamp newer hstamps hskip hcount
    let msg : Message := { time := 0, loginName, messageText := [0x61] }
    let mark : Message := { stamp with messageText := [0x61] }
    let messages := older.map blank ++ mark :: newer.map blank
    have hreverse : messages.reverse = (newer.map blank).reverse ++ mark :: (older.map blank).reverse := by
      simp only [messages, List.reverse_append, List.reverse_cons, List.append_assoc, List.singleton_append]
    have honly : ∀ m ∈ messages.reverse, m.messageText = [0x61] → m = mark := by
      intro m hm htext
      simp only [hreverse, List.mem_append, List.mem_cons, List.mem_reverse, List.mem_map] at hm
      rcases hm with ⟨s, -, rfl⟩ | rfl | ⟨s, -, rfl⟩
      · cases htext
      · rfl
      · cases htext
    have hnot : mark ∉ (newer.map blank).reverse := by
      intro hm
      obtain ⟨s, -, heq⟩ := List.mem_map.mp (List.mem_reverse.mp hm)
      have htext := congrArg Message.messageText heq
      cases htext
    have hfront : ((newer.map blank).reverse.countP fun m => !isSkipped settings loginName m.toStamp) <
        settings.hideSimilarMaxMessagesToCheck.toNat := by
      rw [List.countP_reverse, List.countP_map]
      simp only [Function.comp_def, blank]
      omega
    have hvisited : mark ∈ compared settings now msg.loginName messages ↔
        ∀ m ∈ mark :: (newer.map blank).reverse, seemsTooOld settings now m.toStamp = false := by
      rw [compared, hreverse]
      refine mem_visited_iff _ ?_ hnot hfront
      exact hskip
    have hwindow : mark ∈ window settings now msg.loginName messages ↔ isYoung settings now stamp = true := by
      show mark ∈ firstKept (fun m : Message => isSkipped settings loginName m.toStamp)
        (fun m => isYoung settings now m.toStamp) _ messages.reverse ↔ _
      rw [hreverse]
      refine mem_firstKept_iff _ ?_ hfront
      exact hskip
    have hblank (l : List Stamp) : (l.map blank).map Message.toStamp = l := by
      rw [List.map_map]
      exact List.map_id l
    have hmessages : messages.map Message.toStamp = stamps := by
      rw [hstamps, List.map_append, List.map_cons, hblank, hblank]
    -- the marked message is in both lists or in none, since the maxima are the same
    have hmemWindow := isGreatest_eq_one_iff (List.cons_ne_nil _ _) rfl
      (fun m hm => honly m (mem_of_mem_firstKept hm)) (h msg messages rfl hmessages)
    have hmemCompared := isGreatest_eq_one_iff (List.cons_ne_nil _ _) rfl
      (fun m hm => honly m (mem_of_mem_visited hm)) (isGreatest_similarity settings now msg messages)
    have hone : mark ∈ window settings now msg.loginName messages ↔
        mark ∈ compared settings now msg.loginName messages := hmemWindow.symm.trans hmemCompared
    rw [← hwindow, hone, hvisited]
    simp only [List.forall_mem_cons, List.mem_reverse, List.forall_mem_map]
    rfl
  · intro h msg messages hlogin hmessages
    have hsame : compared settings now msg.loginName messages = window settings now msg.loginName messages := by
      rw [hlogin]
      exact visited_eq_of_agree (h.agree hmessages)
    rw [IsSimilarity, ← hsame]
    exact isGreatest_similarity settings now msg messages

end Loop

/-! ## Around midnight -/

def defaultSettings : SimilaritySettings where
  hideSimilarMaxMessagesToCheck := 3
  hideSimilarMaxDelay := 5
  hideSimilarBySameUser := true

/-- At one minute to midnight. -/
def beforeMidnight : Message where
  time := 86340000
  loginName := "a".toList
  messageText := QString.units "hi".toList

/-- Two minutes later the message seems to be from the future. -/
theorem similarity_midnight :
    similarity defaultSettings 86460000 beforeMidnight [beforeMidnight] = 1 ∧
      ¬ IsSimilarity defaultSettings 86460000 beforeMidnight [beforeMidnight]
        (similarity defaultSettings 86460000 beforeMidnight [beforeMidnight]) := by
  have hwindow : window defaultSettings 86460000 beforeMidnight.loginName [beforeMidnight] = [] := rfl
  have hone : similarity defaultSettings 86460000 beforeMidnight [beforeMidnight] = 1 := by
    have hmem : beforeMidnight ∈ compared defaultSettings 86460000 beforeMidnight.loginName [beforeMidnight] :=
      List.mem_singleton_self beforeMidnight
    refine (isGreatest_eq_one_iff (List.cons_ne_nil _ _) rfl (fun m hm _ => ?_)
      (isGreatest_similarity defaultSettings 86460000 beforeMidnight [beforeMidnight])).mpr hmem
    exact List.mem_singleton.mp (mem_of_mem_visited hm)
  refine ⟨hone, fun h => ?_⟩
  rw [hone, IsSimilarity, hwindow] at h
  rcases h.1 with hzero | ⟨m, hm, -⟩
  · exact absurd hzero one_ne_zero
  · exact absurd hm List.not_mem_nil

end Similarity

end Dankerino
