import Dankerino.Infra.SortUnique
import Dankerino.Qt.Utf16
import Dankerino.Widgets.WindowManager

/-!
# Building a message out of server text

What `TwitchMessageBuilder::build` does with positions and words of the text, and where it uses the
channel as a `TwitchChannel` without asking whether it is one. An access that the source does not
check is a `Fault` where it goes wrong.

Positions are those of `QString`, so a text is a list of UTF-16 code units here.

* `twitchEmotes` reads the tag `emotes`. Its numbers are used as indexes.
* `addWords` walks the words and the emotes, and passes on the texts in between.
* `build` is safe exactly if the numbers stay below the length of the text, and a message with bits
  is in a `TwitchChannel` or has no text (`build_ok_iff`).
-/

namespace Dankerino

open Infra

/-- An access that the source does not check. -/
inductive Fault where
  | outOfRange
  | nullTwitchChannel
deriving DecidableEq, Repr

/-- `operator[]` and `at` of a list. -/
def readAt {α : Type} (l : List α) (i : Nat) : Except Fault α :=
  match l[i]? with
  | some a => .ok a
  | none => .error .outOfRange

/-- `dynamic_cast<TwitchChannel *>`, with the name of the channel. -/
def SplitChannel.asTwitch : SplitChannel → Option QString
  | .twitch name => some name
  | _ => none

/-- `toUInt`. Zero if the text is not a number. -/
def QString.toUInt (s : QString) : Nat :=
  let digits :=
    match QString.trimmed s with
    | '+' :: digits => digits
    | digits => digits
  if digits.isEmpty || !digits.all Char.isDigit then 0
  else if Nat.ofDigitChars 10 digits 0 ≤ 4294967295 then Nat.ofDigitChars 10 digits 0 else 0

structure TwitchEmoteOccurence where
  start : Int
  end_ : Int
  id : QString
  name : Units
deriving DecidableEq, Repr

namespace TwitchMessageBuilder

/-- What `build` uses of the rest of the program. -/
structure Env where
  /-- `QVariant::toInt` of a text -/
  toInt : QString → Int
  /-- the ignored phrases with a replacement -/
  runIgnoreReplaces : Units → List TwitchEmoteOccurence → Units × List TwitchEmoteOccurence
  /-- `Emojis::parse`: a text between emojis, or `none` for an emoji -/
  parseEmojis : Units → List (Option Units)
  sorting : StdSort TwitchEmoteOccurence

/-! ## Twitch emotes -/

/-- Where the characters of the text start. -/
def correctPositions (text : Units) : List Nat :=
  (text.zipIdx.filter fun p => !isLowSurrogate p.1).map Prod.snd

/-- The loop of `appendTwitchEmote`. It returns at the first occurrence that is not a range. -/
def occurenceLoop (text : Units) (correctPositions : List Nat) (id : QString) :
    List QString → List TwitchEmoteOccurence → Except Fault (List TwitchEmoteOccurence)
  | [], vec => .ok vec
  | occurence :: rest, vec =>
    match occurence.splitOn '-' with
    | first :: last :: _ =>
      match readAt correctPositions (QString.toUInt first),
        readAt correctPositions (QString.toUInt last) with
      | .ok start, .ok end_ =>
        if start ≥ end_ || end_ > text.length then .ok vec
        else
          occurenceLoop text correctPositions id rest
            (vec ++ [⟨start, end_, id, (text.drop start).take (end_ - start + 1)⟩])
      | .error fault, _ => .error fault
      | _, .error fault => .error fault
    | _ => .ok vec

def appendTwitchEmote (text : Units) (correctPositions : List Nat) (emote : QString)
    (vec : List TwitchEmoteOccurence) : Except Fault (List TwitchEmoteOccurence) :=
  match emote.splitOn ':' with
  | id :: occurences :: _ => occurenceLoop text correctPositions id (occurences.splitOn ',') vec
  | _ => .ok vec

def emoteLoop (text : Units) : List QString → List TwitchEmoteOccurence →
    Except Fault (List TwitchEmoteOccurence)
  | [], vec => .ok vec
  | emote :: rest, vec =>
    match appendTwitchEmote text (correctPositions text) emote vec with
    | .ok vec => emoteLoop text rest vec
    | .error fault => .error fault

/-- The emotes of the tag `emotes`. -/
def twitchEmotes (text : Units) : Option QString → Except Fault (List TwitchEmoteOccurence)
  | some emotes => emoteLoop text (emotes.splitOn '/') []
  | none => .ok []

/-! ## Words -/

/-- Whether the next emote is inside the word. -/
def doesWordContainATwitchEmote (cursor : Int) (word : Units) : List TwitchEmoteOccurence → Bool
  | [] => false
  | emote :: _ => !(emote.start < cursor || emote.end_ > cursor + word.length)

/-- The texts that go to `addTextOrEmoji`. -/
def textsOf (parseEmojis : Units → List (Option Units)) (text : Units) : List Units :=
  (parseEmojis text).filterMap id

/--
The loop over the emotes of one word. It gives the texts, and the cursor, the rest of the word and
the rest of the emotes, or `none` where it goes on for ever: the next emote starts behind the end of
the word, so no text is left to put in front of it.
-/
def wordLoop (parseEmojis : Units → List (Option Units)) (cursor : Int) (word : Units)
    (emotes : List TwitchEmoteOccurence) :
    List Units × Option (Int × Units × List TwitchEmoteOccurence) :=
  match emotes with
  | [] => ([], some (cursor, word, []))
  | emote :: rest =>
    if !doesWordContainATwitchEmote cursor word (emote :: rest) then
      ([], some (cursor, word, emote :: rest))
    else if emote.start = cursor then
      let left := word.drop emote.name.length
      if left.isEmpty then ([], some (cursor + emote.name.length + 1, [], rest))
      else wordLoop parseEmojis (cursor + emote.name.length) left rest
    else
      let preText := word.take (emote.start - cursor).toNat
      if preText.isEmpty then ([], none)
      else
        let (texts, state) :=
          wordLoop parseEmojis (cursor + preText.length) (word.drop preText.length) (emote :: rest)
        (textsOf parseEmojis preText ++ texts, state)
termination_by emotes.length + word.length
decreasing_by
  · simp only [List.length_cons, List.length_drop]
    omega
  · next hne =>
    simp only [List.isEmpty_iff] at hne
    have hpre : 0 < preText.length := List.length_pos_of_ne_nil hne
    have hle : preText.length ≤ word.length := List.length_take_le' _ _
    have hdrop : (word.drop preText.length).length = word.length - preText.length :=
      List.length_drop ..
    change _ + (word.drop preText.length).length < _
    omega

/-- `addWords`, with the texts that it passes to `addTextOrEmoji`. -/
def addWords (parseEmojis : Units → List (Option Units)) : List Units → Int →
    List TwitchEmoteOccurence → List Units
  | [], _, _ => []
  | word :: words, cursor, emotes =>
    if word.isEmpty then addWords parseEmojis words (cursor + 1) emotes
    else
      match wordLoop parseEmojis cursor word emotes with
      | (texts, none) => texts
      | (texts, some (cursor, word, emotes)) =>
        if word.isEmpty then texts ++ addWords parseEmojis words cursor emotes
        else
          texts ++ textsOf parseEmojis word
            ++ addWords parseEmojis words (cursor + word.length + 1) emotes

/-- The texts of a message whose Twitch emotes are known. -/
def texts (env : Env) (text : Units) (emotes : List TwitchEmoteOccurence) : List Units :=
  let (text, emotes) := env.runIgnoreReplaces text emotes
  let emotes := unique (fun first second => first.start == second.start)
    (env.sorting.sort (fun a b => decide (a.start < b.start)) emotes)
  addWords env.parseEmojis (text.splitOn 0x20) 0 emotes

/-- `bitsLeft`, zero without the tag `bits`. -/
def bitsLeft (env : Env) (bits : Option QString) : Int := (bits.map env.toInt).getD 0

/--
`build`, with the text of the message. Every text may be a cheermote, and while bits are left
`tryParseCheermote` asks the channel.
-/
def build (env : Env) (channel : SplitChannel) (emotes bits : Option QString) (content : QString) :
    Except Fault Units :=
  match twitchEmotes content.units emotes with
  | .error fault => .error fault
  | .ok occurences =>
    if bitsLeft env bits ≠ 0 ∧ channel.asTwitch = none ∧ texts env content.units occurences ≠ [] then
      .error .nullTwitchChannel
    else .ok (env.runIgnoreReplaces content.units occurences).1

/-! ## When building is safe -/

/-- The numbers of the occurrences, up to the first that is not a range, are below the length. -/
def OccurencesInRange (length : Nat) : List QString → Prop
  | [] => True
  | occurence :: rest =>
    match occurence.splitOn '-' with
    | first :: last :: _ =>
      QString.toUInt first < length ∧ QString.toUInt last < length ∧
        (QString.toUInt first < QString.toUInt last → OccurencesInRange length rest)
    | _ => True

/-- The same for all emotes of the tag. -/
def EmotesInRange (length : Nat) (emotes : Option QString) : Prop :=
  ∀ tag ∈ emotes, ∀ emote ∈ tag.splitOn '/',
    match emote.splitOn ':' with
    | _ :: occurences :: _ => OccurencesInRange length (occurences.splitOn ',')
    | _ => True

/-- The emotes that are looked up. -/
def occurences (text : Units) (emotes : Option QString) : List TwitchEmoteOccurence :=
  (twitchEmotes text emotes).toOption.getD []

/-- Whether the message can be built. -/
def BuildSafe (env : Env) (channel : SplitChannel) (emotes bits : Option QString)
    (content : QString) : Prop :=
  EmotesInRange content.length emotes ∧
    (channel.asTwitch = none → bitsLeft env bits ≠ 0 →
      texts env content.units (occurences content.units emotes) = [])

/-! ### Positions -/

theorem length_correctPositions (text : Units) :
    (correctPositions text).length = text.countP fun unit => !isLowSurrogate unit := by
  have hfst : text.zipIdx.map Prod.fst = text := by simp
  calc (correctPositions text).length
      = (text.zipIdx.filter fun p => !isLowSurrogate p.1).length := List.length_map ..
    _ = ((text.zipIdx.map Prod.fst).filter fun unit => !isLowSurrogate unit).length := by
        rw [List.filter_map, List.length_map]
        rfl
    _ = text.countP fun unit => !isLowSurrogate unit := by
        rw [hfst, List.countP_eq_length_filter]

theorem countP_utf16Units (c : Char) :
    (QString.utf16Units c).countP (fun unit => !isLowSurrogate unit) = 1 := by
  have hc : c.toNat < 0xD800 ∨ 0xDFFF < c.toNat ∧ c.toNat < 0x110000 := c.valid
  unfold QString.utf16Units
  split
  · have hnot : isLowSurrogate c.toNat = false := by
      simp only [isLowSurrogate, Bool.and_eq_false_iff, decide_eq_false_iff_not]
      omega
    simp [hnot]
  · have hhigh : isLowSurrogate (0xD800 + (c.toNat - 0x10000) / 0x400) = false := by
      simp only [isLowSurrogate, Bool.and_eq_false_iff, decide_eq_false_iff_not]
      omega
    have hlow : isLowSurrogate (0xDC00 + (c.toNat - 0x10000) % 0x400) = true := by
      simp only [isLowSurrogate, Bool.and_eq_true, decide_eq_true_eq]
      omega
    simp [hhigh, hlow]

/-- A text has as many positions as characters. -/
theorem length_correctPositions_units (s : QString) : (correctPositions s.units).length = s.length := by
  rw [length_correctPositions]
  unfold QString.units
  induction s with
  | nil => rfl
  | cons c s ih => rw [List.flatMap_cons, List.countP_append, countP_utf16Units, ih, List.length_cons,
      Nat.add_comm]

theorem correctPositions_sorted (text : Units) : (correctPositions text).Pairwise (· < ·) := by
  have hall : (text.zipIdx.map Prod.snd).Pairwise (· < ·) := by
    rw [List.zipIdx_map_snd]
    exact List.pairwise_lt_range'
  exact hall.sublist (List.filter_sublist.map _)

theorem lt_of_mem_correctPositions {text : Units} {i : Nat} (h : i ∈ correctPositions text) :
    i < text.length := by
  obtain ⟨⟨unit, k⟩, hmem, rfl⟩ := List.mem_map.mp h
  have hrange := List.mem_zipIdx (List.mem_filter.mp hmem).1
  omega

/-! ### Reading them -/

theorem readAt_of_lt {α : Type} {l : List α} {i : Nat} (h : i < l.length) : readAt l i = .ok l[i] := by
  unfold readAt
  rw [List.getElem?_eq_getElem h]

theorem readAt_of_le {α : Type} {l : List α} {i : Nat} (h : l.length ≤ i) :
    readAt l i = .error .outOfRange := by
  unfold readAt
  rw [List.getElem?_eq_none h]

theorem occurenceLoop_ok_iff (text : Units) (id : QString) (occurences : List QString) :
    ∀ vec, (∃ r, occurenceLoop text (correctPositions text) id occurences vec = .ok r) ↔
      OccurencesInRange (correctPositions text).length occurences := by
  induction occurences with
  | nil => exact fun vec => ⟨fun _ => trivial, fun _ => ⟨vec, rfl⟩⟩
  | cons occurence rest ih =>
    intro vec
    unfold occurenceLoop OccurencesInRange
    split
    · next first last tail hsplit =>
      by_cases hfirst : QString.toUInt first < (correctPositions text).length
      · by_cases hlast : QString.toUInt last < (correctPositions text).length
        · rw [readAt_of_lt hfirst, readAt_of_lt hlast]
          dsimp only
          have hend : (correctPositions text)[QString.toUInt last] < text.length :=
            lt_of_mem_correctPositions (List.getElem_mem hlast)
          -- the positions are ordered like the numbers
          have hlt : (correctPositions text)[QString.toUInt first]
                < (correctPositions text)[QString.toUInt last] ↔
              QString.toUInt first < QString.toUInt last :=
            (correctPositions_sorted text).sortedLT.getElem_lt_getElem_iff
          by_cases hrange : QString.toUInt first < QString.toUInt last
          · have hstart := hlt.mpr hrange
            rw [if_neg (by simp; omega), ih]
            simp [hfirst, hlast, hrange]
          · have hstart := mt hlt.mp hrange
            rw [if_pos (by simp; omega)]
            simp [hfirst, hlast, hrange]
        · rw [readAt_of_lt hfirst, readAt_of_le (Nat.le_of_not_lt hlast)]
          simp [hlast]
      · rw [readAt_of_le (Nat.le_of_not_lt hfirst)]
        simp [hfirst]
    · simp

theorem appendTwitchEmote_ok_iff (text : Units) (emote : QString) (vec : List TwitchEmoteOccurence) :
    (∃ r, appendTwitchEmote text (correctPositions text) emote vec = .ok r) ↔
      match emote.splitOn ':' with
      | _ :: occurences :: _ =>
        OccurencesInRange (correctPositions text).length (occurences.splitOn ',')
      | _ => True := by
  unfold appendTwitchEmote
  split
  · exact occurenceLoop_ok_iff text _ _ vec
  · simp

theorem emoteLoop_ok_iff (text : Units) (emotes : List QString) : ∀ vec,
    (∃ r, emoteLoop text emotes vec = .ok r) ↔ ∀ emote ∈ emotes,
      match emote.splitOn ':' with
      | _ :: occurences :: _ =>
        OccurencesInRange (correctPositions text).length (occurences.splitOn ',')
      | _ => True := by
  induction emotes with
  | nil => simp [emoteLoop]
  | cons emote rest ih =>
    intro vec
    rw [List.forall_mem_cons, ← appendTwitchEmote_ok_iff text emote vec]
    unfold emoteLoop
    split
    · next vec' happend =>
      rw [ih vec']
      simp [happend]
    · next fault happend => simp [happend]

theorem twitchEmotes_ok_iff (content : QString) (emotes : Option QString) :
    (∃ r, twitchEmotes content.units emotes = .ok r) ↔ EmotesInRange content.length emotes := by
  unfold twitchEmotes EmotesInRange
  cases emotes with
  | none => simp
  | some tag =>
    simp only [emoteLoop_ok_iff, length_correctPositions_units, Option.mem_def, Option.some.injEq,
      forall_eq']

/-- A message can be built exactly if it is safe. -/
theorem build_ok_iff (env : Env) (channel : SplitChannel) (emotes bits : Option QString)
    (content : QString) :
    (∃ text, build env channel emotes bits content = .ok text) ↔
      BuildSafe env channel emotes bits content := by
  unfold build BuildSafe
  rw [← twitchEmotes_ok_iff]
  cases hemotes : twitchEmotes content.units emotes with
  | error fault => simp
  | ok found =>
    have hfound : occurences content.units emotes = found := by
      unfold occurences
      rw [hemotes]
      rfl
    rw [hfound]
    simp only []
    split
    · next h =>
      simp only [reduceCtorEq, exists_const, false_iff]
      rintro ⟨-, hsafe⟩
      exact h.2.2 (hsafe h.2.1 h.1)
    · next h =>
      refine ⟨fun _ => ⟨⟨found, rfl⟩, fun hchannel hbits => ?_⟩, fun _ => ⟨_, rfl⟩⟩
      by_contra htexts
      exact h ⟨hbits, hchannel, htexts⟩

end TwitchMessageBuilder

end Dankerino
