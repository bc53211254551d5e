import Dankerino.Emoji.Emojis
import Dankerino.Infra.Regex
import Dankerino.Qt.QChar
import Mathlib.Data.List.Basic

/-!
# Colours in texts from IRC

`IrcMessageBuilder::addWords`: a text from an IRC server has codes in it that change the colour of what is
behind them. `addWords` cuts each word at the matches of a regular expression, and adds the texts in
between with the colour that is in force.

* `addWords_shows`: what a viewer sees is what a reader of the codes, character by character, gives: the
  same texts without the codes, each character in its colour, with blanks behind what follows the last code of a
  word. In front of a code only a bold name and a link in lower case have one.
-/

namespace Dankerino

open Infra

namespace IrcMessageBuilder

/-! ## Codes -/

/-- `IRC_COLORS`, the names of the colours. -/
def ircColors : List String :=
  ["white", "black", "blue", "green", "red", "brown", "purple", "orange", "yellow", "lightgreen",
   "cyan", "lightcyan", "lightblue", "pink", "gray", "lightgray", "#470000", "#472100", "#474700",
   "#324700", "#004700", "#00472c", "#004747", "#002747", "#000047", "#2e0047", "#470047", "#47002a",
   "#740000", "#743a00", "#747400", "#517400", "#007400", "#007449", "#007474", "#004074", "#000074",
   "#4b0074", "#740074", "#740045", "#b50000", "#b56300", "#b5b500", "#7db500", "#00b500", "#00b571",
   "#00b5b5", "#0063b5", "#0000b5", "#7500b5", "#b500b5", "#b5006b", "#ff0000", "#ff8c00", "#ffff00",
   "#b2ff00", "#00ff00", "#00ffa0", "#00ffff", "#008cff", "#0000ff", "#a500ff", "#ff00ff", "#ff0098",
   "#ff5959", "#ffb459", "#ffff71", "#cfff60", "#6fff6f", "#65ffc9", "#6dffff", "#59b4ff", "#5959ff",
   "#c459ff", "#ff66ff", "#ff59bc", "#ff9c9c", "#ffd39c", "#ffff9c", "#e2ff9c", "#9cff9c", "#9cffdb",
   "#9cffff", "#9cd3ff", "#9c9cff", "#dc9cff", "#ff9cff", "#ff94d3", "#000000", "#131313", "#282828",
   "#363636", "#4d4d4d", "#656565", "#818181", "#9f9f9f", "#bcbcbc", "#e2e2e2", "#ffffff"]

def colorCharacter : Char := Char.ofNat 0x0003

def resetCharacter : Char := Char.ofNat 0x000f

/-- `\d{1,2}`. -/
def numberRegex : Regex Char := .seq (.set QChar.isDigit) (.opt (.set QChar.isDigit))

/-- `IRC_COLOR_PARSE_REGEX`: `(\u0003(\d{1,2})?(,(\d{1,2}))?|\u000f)`. -/
def colorRegex : Regex Char :=
  .alt (.seq (.set (· == colorCharacter)) (.seq (.opt numberRegex) (.opt (.seq (.set (· == ',')) numberRegex))))
    (.set (· == resetCharacter))

/-- The second group of a match. -/
def captured2 (code : QString) : QString := code.tail.takeWhile QChar.isDigit

/-- The fourth group of a match. -/
def captured4 (code : QString) : QString := (code.tail.dropWhile QChar.isDigit).tail

/-! ## Elements -/

inductive ElementColor (γ : Type)
  | color (c : γ)
  | link
  | none
deriving DecidableEq

/-- The flags of the elements that are made here. -/
inductive ElementFlag
  | text
  | boldUsername
  | nonBoldUsername
  | lowercaseLink
  | originalLink
  | emojiAll
deriving DecidableEq

/-- A `TextElement`, or the `EmoteElement` of an emoji. -/
structure Element (γ : Type) where
  text : Units
  flag : ElementFlag
  color : ElementColor γ
  trailingSpace : Bool

/-- What the builder gets from other parts of the program. -/
structure Context (γ : Type) where
  /-- `matchLink`. -/
  matchLink : Units → Bool
  /-- The text with its domain in lower case. -/
  lowercaseLinkString : Units → Units
  emojis : EmojiTable
  /-- The color of the name, as `normalizeColor` changes it. -/
  normalizedColor : String → γ
  /-- The color of the text without codes. -/
  defaultColor : γ

structure Builder (γ : Type) where
  elements : List (Element γ)
  /-- The local variable of `addWords`. -/
  textColor : γ
  fg : Int
  bg : Int

variable {γ : Type} (context : Context γ)

/-- `elements.back()->setTrailingSpace(false)`. -/
def withoutTrailingSpace : List (Element γ) → List (Element γ)
  | [] => []
  | [e] => [{ e with trailingSpace := false }]
  | e :: e' :: elements => e :: withoutTrailingSpace (e' :: elements)

def addLink (origLink : Units) : List (Element γ) :=
  [⟨context.lowercaseLinkString origLink, .lowercaseLink, .link, true⟩,
    ⟨origLink, .originalLink, .link, true⟩]

/-- `SharedMessageBuilder::addTextOrEmoji`. -/
def addTextOrEmoji (textColor : γ) : EmojiVariant → List (Element γ)
  | .emote value => [⟨value, .emojiAll, .none, true⟩]
  | .text string =>
    if context.matchLink string then addLink context string
    else if string.head? = some '@'.toNat then
      [⟨string, .boldUsername, .color textColor, true⟩, ⟨string, .nonBoldUsername, .color textColor, true⟩]
    else [⟨string, .text, .color textColor, true⟩]

/-- The elements that `addText` adds. -/
def addText (text : QString) (color : γ) (addSpace : Bool) : List (Element γ) :=
  (context.emojis.parse text.units).flatMap fun variant =>
    if addSpace then addTextOrEmoji context color variant
    else withoutTrailingSpace (addTextOrEmoji context color variant)

/-- The color for `fg`. -/
def colorOf (fg : Int) : γ :=
  if 0 ≤ fg ∧ fg ≤ 98 then context.normalizedColor (ircColors.getD fg.toNat "") else context.defaultColor

/-- What a match does to the colors. -/
def changeColor (code : QString) (b : Builder γ) : Builder γ :=
  let fg : Int := if (captured2 code).isEmpty then -1 else ((captured2 code).toInt).getD 0
  { b with
    fg := fg
    bg :=
      if (captured4 code).isEmpty then -1
      else ((captured4 code).toInt).getD 0 }

/-- The loop over the matches in a word, with the end of the last one. -/
def addMatches (string : QString) : List (Nat × QString) → Nat → Builder γ → Nat × Builder γ
  | [], lastPos, b => (lastPos, b)
  | (start, code) :: rest, lastPos, b =>
    let b :=
      if lastPos ≠ start ∧ start ≠ 0 then
        { b with
          textColor := colorOf context b.fg
          elements := b.elements
            ++ addText context ((string.drop lastPos).take (start - lastPos)) (colorOf context b.fg) false }
      else b
    addMatches string rest (start + code.length) (changeColor code b)

/-- One turn of the loop over the words. -/
def addWord (b : Builder γ) (word : QString) : Builder γ :=
  if word.isEmpty then b
  else if context.matchLink word.units then { b with elements := b.elements ++ addLink context word.units }
  else
    match colorRegex.globalMatch 0 word with
    | [] => { b with elements := b.elements ++ addText context word b.textColor true }
    | codes =>
      let (lastPos, b) := addMatches context word codes 0 b
      { b with
        textColor := colorOf context b.fg
        elements := b.elements ++ addText context (word.drop lastPos) (colorOf context b.fg) true }

/-- `addWords`, behind the elements that there are. -/
def addWords (elements : List (Element γ)) (words : List QString) : List (Element γ) :=
  withoutTrailingSpace
    (words.foldl (addWord context) ⟨elements, context.defaultColor, -1, -1⟩).elements

/-! ## Reading the codes -/

/-- At most two digits, and what is behind them. -/
def takeNumber : QString → QString × QString
  | [] => ([], [])
  | [c] => if QChar.isDigit c then ([c], []) else ([], [c])
  | c :: d :: s =>
    if QChar.isDigit c then if QChar.isDigit d then ([c, d], s) else ([c], d :: s) else ([], c :: d :: s)

/-- Behind the color of the background, if there is one. -/
def skipBackground : QString → QString
  | [] => []
  | c :: s => if c = ',' ∧ (takeNumber s).1 ≠ [] then (takeNumber s).2 else c :: s

/-- The number of the color that a code at the start of the text asks for, and what is behind the code. -/
def readCode : QString → Option (Int × QString)
  | [] => none
  | c :: s =>
    if c = colorCharacter then
      some (if (takeNumber s).1 = [] then -1 else ((takeNumber s).1.toInt).getD 0, skipBackground (takeNumber s).2)
    else if c = resetCharacter then some (-1, s)
    else none

inductive Token
  | char (c : Char)
  | color (fg : Int)

theorem takeNumber_append (s : QString) : (takeNumber s).1 ++ (takeNumber s).2 = s := by
  fun_cases takeNumber s <;> simp [*]

theorem exists_skipBackground (s : QString) :
    ∃ background, s = background ++ skipBackground s ∧ ∀ c, background.head? = some c → c = ',' := by
  cases s with
  | nil => exact ⟨[], rfl, by simp⟩
  | cons c s =>
    rw [skipBackground]
    split
    · next h =>
      exact ⟨c :: (takeNumber s).1, by rw [List.cons_append, takeNumber_append], by simp [h.1]⟩
    · exact ⟨[], rfl, by simp⟩

theorem length_of_readCode {s rest : QString} {fg : Int} (h : readCode s = some (fg, rest)) :
    rest.length < s.length := by
  cases s with
  | nil => simp [readCode] at h
  | cons c s =>
    rw [readCode] at h
    split at h
    · obtain ⟨-, rfl⟩ := Prod.mk.injEq .. ▸ Option.some.inj h
      obtain ⟨background, hback, -⟩ := exists_skipBackground (takeNumber s).2
      have hnumber := congrArg List.length (takeNumber_append s)
      have hlength := congrArg List.length hback
      simp only [List.length_append, List.length_cons] at hnumber hlength ⊢
      omega
    · split at h
      · obtain ⟨-, rfl⟩ := Prod.mk.injEq .. ▸ Option.some.inj h
        simp
      · simp at h

/-- The characters of a text, and the codes among them. -/
def tokens (s : QString) : List Token :=
  match s with
  | [] => []
  | c :: s =>
    match _h : readCode (c :: s) with
    | some (fg, rest) => .color fg :: tokens rest
    | none => .char c :: tokens s
termination_by s.length
decreasing_by
  · exact length_of_readCode _h
  · simp

theorem tokens_of_code {c : Char} {s rest : QString} {fg : Int} (h : readCode (c :: s) = some (fg, rest)) :
    tokens (c :: s) = .color fg :: tokens rest := by
  rw [tokens]
  split
  · next heq =>
    obtain ⟨rfl, rfl⟩ := Prod.mk.injEq .. ▸ Option.some.inj (h.symm.trans heq)
    rfl
  · next heq => simp [h] at heq

theorem tokens_of_char {c : Char} {s : QString} (h : readCode (c :: s) = none) :
    tokens (c :: s) = .char c :: tokens s := by
  rw [tokens]
  split
  · next heq => simp [h] at heq
  · rfl

/-! ## The matches are the codes -/

section Matches

variable {k : QString → Option QString}

theorem first_numberRegex (hk : ∀ t, (k t).isSome) (s : QString) :
    Regex.first numberRegex k s = if (takeNumber s).1 = [] then none else k (takeNumber s).2 := by
  have hor (t : QString) (o : Option QString) : (k t).or o = k t := by
    obtain ⟨x, hx⟩ := Option.isSome_iff_exists.mp (hk t)
    simp [hx]
  rw [numberRegex, Regex.first_seq]
  fun_cases takeNumber s with
  | case1 => rfl
  | case2 c hc =>
    have hnil : Regex.first (.set QChar.isDigit) k [] = none := rfl
    simp [Regex.first_set_cons, Regex.first_opt, hc, hnil]
  | case3 c hc => simp [Regex.first_set_cons, hc]
  | case4 c d t hc hd => simp [Regex.first_set_cons, Regex.first_opt, hc, hd, hor]
  | case5 c d t hc hd => simp [Regex.first_set_cons, Regex.first_opt, hc, hd]
  | case6 c d t hc => simp [Regex.first_set_cons, hc]

theorem first_opt_numberRegex (hk : ∀ t, (k t).isSome) (s : QString) :
    Regex.first (.opt numberRegex) k s = k (takeNumber s).2 := by
  rw [Regex.first_opt, first_numberRegex hk]
  split
  · next hnone =>
    have happend := takeNumber_append s
    rw [hnone, List.nil_append] at happend
    rw [happend, Option.none_or]
  · obtain ⟨x, hx⟩ := Option.isSome_iff_exists.mp (hk (takeNumber s).2)
    simp [hx]

theorem first_background (s : QString) :
    Regex.first (.opt (.seq (.set (· == ',')) numberRegex)) some s = some (skipBackground s) := by
  rw [Regex.first_opt, Regex.first_seq]
  cases s with
  | nil => rfl
  | cons c s =>
    rw [Regex.first_set_cons, first_numberRegex (fun _ => rfl), skipBackground]
    by_cases hc : c = ',' <;> by_cases hnumber : (takeNumber s).1 = [] <;> simp [hc, hnumber]

theorem matchAt_colorRegex (s : QString) : colorRegex.matchAt s = (readCode s).map Prod.snd := by
  rw [Regex.matchAt_eq, colorRegex, Regex.first_alt, Regex.first_seq]
  cases s with
  | nil => rfl
  | cons c s =>
    have hfirst : Regex.first (.seq (.opt numberRegex) (.opt (.seq (.set (· == ',')) numberRegex))) some s
        = some (skipBackground (takeNumber s).2) := by
      rw [Regex.first_seq, first_opt_numberRegex (fun t => by simp [first_background]), first_background]
    rw [Regex.first_set_cons, Regex.first_set_cons, hfirst, readCode]
    by_cases hcolor : c = colorCharacter
    · simp [hcolor]
    · rw [if_neg (by simpa using hcolor), if_neg hcolor]
      by_cases hreset : c = resetCharacter <;> simp [hreset]

end Matches

theorem takeNumber_digits (s : QString) : ∀ c ∈ (takeNumber s).1, QChar.isDigit c = true := by
  fun_cases takeNumber s <;> simp [*]

/-- What a code is: its characters, of which the builder takes the colour. -/
theorem exists_of_readCode {s rest : QString} {fg : Int} (h : readCode s = some (fg, rest)) (b : Builder γ) :
    ∃ code ≠ [], s = code ++ rest ∧ (changeColor code b).fg = fg := by
  cases s with
  | nil => simp [readCode] at h
  | cons c s =>
    rw [readCode] at h
    split at h
    · obtain ⟨rfl, rfl⟩ := Prod.mk.injEq .. ▸ Option.some.inj h
      obtain ⟨background, hback, hcomma⟩ := exists_skipBackground (takeNumber s).2
      refine ⟨c :: ((takeNumber s).1 ++ background), by simp, ?_, ?_⟩
      · rw [List.cons_append, List.append_assoc, ← hback, takeNumber_append]
      · have htake : captured2 (c :: ((takeNumber s).1 ++ background)) = (takeNumber s).1 := by
          have hback : background.takeWhile QChar.isDigit = [] := by
            cases background with
            | nil => rfl
            | cons d background =>
              rw [hcomma d rfl, List.takeWhile_cons_of_neg (by decide)]
          rw [captured2, List.tail_cons, List.takeWhile_append_of_pos (takeNumber_digits s), hback,
            List.append_nil]
        simp [changeColor, htake]
    · split at h
      · obtain ⟨rfl, rfl⟩ := Prod.mk.injEq .. ▸ Option.some.inj h
        exact ⟨[c], by simp, rfl, by simp [changeColor, captured2]⟩
      · simp at h

/-! ## The texts between the codes -/

/-- The texts with a code behind them, with their colors, and the text behind the last code. -/
def chunks (pending : QString) (fg : Int) : List Token → List (QString × Int) × QString × Int
  | [] => ([], pending, fg)
  | .char c :: ts => chunks (pending ++ [c]) fg ts
  | .color fg' :: ts =>
    let rest := chunks [] fg' ts
    (if pending = [] then rest.1 else (pending, fg) :: rest.1, rest.2)

theorem addMatches_chunks (before : QString) {lastPos : Nat} (hlast : lastPos ≤ before.length) (b : Builder γ)
    (s : QString) :
    ∃ r, addMatches context (before ++ s) (colorRegex.globalMatch before.length s) lastPos b = r ∧
      r.2.elements = b.elements ++ (chunks (before.drop lastPos) b.fg (tokens s)).1.flatMap
        (fun p => addText context p.1 (colorOf context p.2) false) ∧
      (before ++ s).drop r.1 = (chunks (before.drop lastPos) b.fg (tokens s)).2.1 ∧
      r.2.fg = (chunks (before.drop lastPos) b.fg (tokens s)).2.2 := by
  generalize hn : s.length = n
  induction n using Nat.strongRecOn generalizing before lastPos b s with
  | ind n ih =>
    cases s with
    | nil =>
      refine ⟨_, rfl, ?_⟩
      rw [Regex.globalMatch_nil, addMatches, tokens]
      simp [chunks]
    | cons c s =>
      have hmatch := matchAt_colorRegex (c :: s)
      cases hcode : readCode (c :: s) with
      | none =>
        rw [hcode] at hmatch
        rw [Regex.globalMatch_skip hmatch, tokens_of_char hcode]
        have hdrop : (before ++ [c]).drop lastPos = before.drop lastPos ++ [c] := by
          rw [List.drop_append_of_le_length hlast]
        have hlast' : lastPos ≤ (before ++ [c]).length := by
          rw [List.length_append]
          omega
        have hrest := ih s.length (by simp [← hn]) (before ++ [c]) hlast' b s rfl
        rw [hdrop, List.append_assoc, List.length_append] at hrest
        exact hrest
      | some r =>
        obtain ⟨fg, rest⟩ := r
        rw [hcode] at hmatch
        have hlt : rest.length < n := hn ▸ length_of_readCode hcode
        rw [tokens_of_code hcode]
        have hpending : (lastPos ≠ before.length ∧ before.length ≠ 0) ↔ before.drop lastPos ≠ [] := by
          rw [ne_eq, ne_eq, ne_eq, List.drop_eq_nil_iff]
          omega
        have htext (w : QString) : ((before ++ w).drop lastPos).take (before.length - lastPos)
            = before.drop lastPos := by
          rw [List.drop_append_of_le_length hlast, ← List.length_drop, List.take_left]
        -- the text in front of the code
        obtain ⟨b', hb', hfg, helements⟩ : ∃ b', b' = (if lastPos ≠ before.length ∧ before.length ≠ 0 then
            { b with
              textColor := colorOf context b.fg
              elements := b.elements ++ addText context (before.drop lastPos) (colorOf context b.fg) false }
            else b) ∧ b'.fg = b.fg ∧ b'.elements = b.elements ++
              (if before.drop lastPos = [] then []
                else addText context (before.drop lastPos) (colorOf context b.fg) false) := by
          refine ⟨_, rfl, ?_⟩
          by_cases hempty : before.drop lastPos = []
          · rw [if_neg (by rw [hpending]; simp [hempty]), if_pos hempty, List.append_nil]
            exact ⟨rfl, rfl⟩
          · rw [if_pos (hpending.mpr hempty), if_neg hempty]
            exact ⟨rfl, rfl⟩
        obtain ⟨code, hne, hsplit, hcolor⟩ := exists_of_readCode hcode b'
        rw [hsplit] at hmatch ⊢
        rw [Regex.globalMatch_match hmatch hne, addMatches, htext, ← hb']
        obtain ⟨r, hr, hrelements, hrtext, hrfg⟩ := ih rest.length hlt (before ++ code)
          (Nat.le_refl _) (changeColor code b') rest rfl
        rw [List.append_assoc, List.length_append] at hr
        rw [List.append_assoc] at hrtext
        rw [List.drop_length, hcolor] at hrelements hrtext hrfg
        refine ⟨r, hr, ?_, hrtext, hrfg⟩
        rw [hrelements]
        show b'.elements ++ _ = _
        rw [helements, chunks]
        split <;> simp [*]

/-! ## What a viewer sees -/

/-- The settings that say which of two elements is seen. -/
structure View where
  boldUsernames : Bool
  lowercaseDomains : Bool

def View.sees (view : View) : ElementFlag → Bool
  | .text => true
  | .boldUsername => view.boldUsernames
  | .nonBoldUsername => !view.boldUsernames
  | .lowercaseLink => view.lowercaseDomains
  | .originalLink => !view.lowercaseDomains
  | .emojiAll => true

/-- The element is the text, in lower case if it is such a link, and its color is that of every unit. -/
structure IsOf (e : Element γ) (units : List (Nat × γ)) : Prop where
  text : e.text = if e.flag = .lowercaseLink then context.lowercaseLinkString (units.map Prod.fst)
    else units.map Prod.fst
  color : ∀ c, e.color = .color c → ∀ p ∈ units, p.2 = c

/-- The elements that the viewer sees are the units in their colors. -/
inductive Shows (view : View) : List (Element γ) → List (Nat × γ) → Prop
  | nil : Shows view [] []
  | hidden {e : Element γ} {es : List (Element γ)} {units : List (Nat × γ)} :
    view.sees e.flag = false → Shows view es units → Shows view (e :: es) units
  | seen {e : Element γ} {es : List (Element γ)} {own units : List (Nat × γ)} :
    view.sees e.flag → IsOf context e own → Shows view es units → Shows view (e :: es) (own ++ units)

def blank (addSpace : Bool) : Units := if addSpace then [' '.toNat] else []

/-- The text of an element as it is seen, with a blank where it has a space. -/
def spaced (view : View) (e : Element γ) : Units :=
  if view.sees e.flag then e.text ++ blank e.trailingSpace else []

/-- A part of a text with its blank. Of a pair of elements only the second one can do without. -/
def spacedPart (view : View) (addSpace : Bool) : EmojiVariant → Units
  | .emote value => value ++ blank addSpace
  | .text string =>
    if context.matchLink string then
      if view.lowercaseDomains then context.lowercaseLinkString string ++ blank true else string ++ blank addSpace
    else string ++ blank (addSpace || (string.head? = some '@'.toNat && view.boldUsernames))

section Shown

variable {context} {view : View}

theorem Shows.append {es es' : List (Element γ)} {units units' : List (Nat × γ)}
    (h : Shows context view es units) (h' : Shows context view es' units') :
    Shows context view (es ++ es') (units ++ units') := by
  induction h with
  | nil => exact h'
  | hidden hsees _ ih => exact .hidden hsees ih
  | seen hsees hof _ ih =>
    rw [List.append_assoc]
    exact .seen hsees hof ih

theorem Shows.flatMap {α : Type} {f : α → List (Element γ)} {g : α → List (Nat × γ)} {l : List α}
    (h : ∀ a ∈ l, Shows context view (f a) (g a)) : Shows context view (l.flatMap f) (l.flatMap g) := by
  induction l with
  | nil => exact .nil
  | cons a l ih =>
    rw [List.flatMap_cons, List.flatMap_cons]
    exact (h a List.mem_cons_self).append (ih fun b hb => h b (List.mem_cons_of_mem _ hb))

theorem Shows.withoutTrailingSpace {es : List (Element γ)} {units : List (Nat × γ)}
    (h : Shows context view es units) : Shows context view (withoutTrailingSpace es) units := by
  induction h with
  | nil => exact .nil
  | @hidden e es _ hsees htail ih =>
    cases es with
    | nil => exact .hidden hsees htail
    | cons e' es => exact .hidden hsees ih
  | @seen e es _ _ hsees hof htail ih =>
    cases es with
    | nil => exact .seen hsees ⟨hof.text, hof.color⟩ htail
    | cons e' es => exact .seen hsees hof ih

/-- Of a pair of elements one is seen. -/
theorem shows_pair {e e' : Element γ} {units : List (Nat × γ)} (hsees : view.sees e'.flag = !view.sees e.flag)
    (h : IsOf context e units) (h' : IsOf context e' units) : Shows context view [e, e'] units := by
  rw [← List.append_nil units]
  cases hview : view.sees e.flag with
  | false =>
    rw [hview] at hsees
    exact .hidden hview (.seen hsees h' .nil)
  | true =>
    rw [hview] at hsees
    exact .seen hview h (.hidden hsees .nil)

theorem shows_addLink (link : Units) (units : List (Nat × γ)) (h : link = units.map Prod.fst) :
    Shows context view (addLink context link) units := by
  refine shows_pair (by simp [View.sees]) ⟨by simp [h], ?_⟩ ⟨by simp [h], ?_⟩ <;> simp

theorem shows_addTextOrEmoji (c : γ) (variant : EmojiVariant) :
    Shows context view (addTextOrEmoji context c variant) (variant.spelled.map (·, c)) := by
  have hunits (units : Units) : units = (units.map (·, c)).map Prod.fst := by
    rw [List.map_map]
    exact (List.map_id units).symm
  have hcolor (units : Units) : ∀ c', ElementColor.color c = .color c' → ∀ p ∈ units.map (·, c), p.2 = c' := by
    simp
  cases variant with
  | emote value =>
    rw [← List.append_nil (List.map _ _)]
    exact .seen rfl ⟨hunits value, by simp⟩ .nil
  | text string =>
    rw [addTextOrEmoji]
    split
    · exact shows_addLink string _ (hunits string)
    · split
      · exact shows_pair (by simp [View.sees]) ⟨hunits string, hcolor string⟩ ⟨hunits string, hcolor string⟩
      · rw [← List.append_nil (List.map _ _)]
        exact .seen rfl ⟨hunits string, hcolor string⟩ .nil

/-- The parts of a text that are emojis or texts between them, all in one color. -/
theorem shows_addText (text : QString) (c : γ) (addSpace : Bool) :
    Shows context view (addText context text c addSpace) (text.units.map (·, c)) := by
  have hspelled := congrArg (List.map (·, c)) (context.emojis.parse_spelled text.units)
  rw [List.map_flatMap] at hspelled
  rw [← hspelled, addText]
  refine Shows.flatMap fun variant _ => ?_
  split
  · exact shows_addTextOrEmoji c variant
  · exact (shows_addTextOrEmoji c variant).withoutTrailingSpace

theorem spaced_addTextOrEmoji (c : γ) (variant : EmojiVariant) :
    (addTextOrEmoji context c variant).flatMap (spaced view) = spacedPart context view true variant ∧
      (withoutTrailingSpace (addTextOrEmoji context c variant)).flatMap (spaced view)
        = spacedPart context view false variant := by
  obtain ⟨boldUsernames, lowercaseDomains⟩ := view
  cases variant with
  | emote value => simp [addTextOrEmoji, withoutTrailingSpace, spaced, spacedPart, View.sees]
  | text string =>
    rw [addTextOrEmoji, spacedPart, spacedPart]
    split
    · cases lowercaseDomains <;> simp [addLink, withoutTrailingSpace, spaced, View.sees]
    · split
      · next hname => cases boldUsernames <;> simp [withoutTrailingSpace, spaced, View.sees, hname]
      · next hname =>
        have hname : string.head? ≠ some 64 := hname
        simp [withoutTrailingSpace, spaced, View.sees, hname]

theorem spaced_addText (text : QString) (c : γ) (addSpace : Bool) :
    (addText context text c addSpace).flatMap (spaced view)
      = (context.emojis.parse text.units).flatMap (spacedPart context view addSpace) := by
  rw [addText, List.flatMap_assoc]
  refine List.flatMap_congr fun variant _ => ?_
  cases addSpace with
  | true => exact (spaced_addTextOrEmoji c variant).1
  | false => exact (spaced_addTextOrEmoji c variant).2

end Shown

/-! ## The text that the codes describe -/

/-- Each character with the number of its color. -/
def drawn (fg : Int) : List Token → List (Char × Int)
  | [] => []
  | .char c :: ts => (c, fg) :: drawn fg ts
  | .color fg' :: ts => drawn fg' ts

/-- The number that is in force at the end. -/
def lastColor (fg : Int) : List Token → Int
  | [] => fg
  | .char _ :: ts => lastColor fg ts
  | .color fg' :: ts => lastColor fg' ts

/-- The texts in front of the codes, and the one behind the last code. -/
def cutAtCodes (pending : QString) : List Token → List QString × QString
  | [] => ([], pending)
  | .char c :: ts => cutAtCodes (pending ++ [c]) ts
  | .color _ :: ts =>
    let rest := cutAtCodes [] ts
    (if pending = [] then rest.1 else pending :: rest.1, rest.2)

def paint (chars : List (Char × Int)) : List (Nat × γ) :=
  chars.flatMap fun p => (QString.utf16Units p.1).map (·, colorOf context p.2)

/-- The words as a reader of the codes colors them. Links are not looked into. -/
def coloredWords (fg : Int) : List QString → List (Nat × γ)
  | [] => []
  | word :: words =>
    if context.matchLink word.units then
      word.units.map (·, colorOf context fg) ++ coloredWords fg words
    else paint context (drawn fg (tokens word)) ++ coloredWords (lastColor fg (tokens word)) words

/-- A word with its blanks. What is in front of a code is to have none. -/
def spacedWord (view : View) (word : QString) : Units :=
  if word = [] then []
  else if context.matchLink word.units then spacedPart context view true (.text word.units)
  else
    (cutAtCodes [] (tokens word)).1.flatMap (fun front =>
        (context.emojis.parse front.units).flatMap (spacedPart context view false))
      ++ (context.emojis.parse (cutAtCodes [] (tokens word)).2.units).flatMap (spacedPart context view true)

theorem chunks_drawn (pending : QString) (fg : Int) (ts : List Token) :
    (chunks pending fg ts).1.flatMap (fun p => p.1.map (·, p.2))
        ++ (chunks pending fg ts).2.1.map (·, (chunks pending fg ts).2.2)
      = pending.map (·, fg) ++ drawn fg ts ∧ (chunks pending fg ts).2.2 = lastColor fg ts := by
  induction ts generalizing pending fg with
  | nil => exact ⟨by simp [chunks, drawn], rfl⟩
  | cons t ts ih =>
    cases t with
    | char c =>
      obtain ⟨hdrawn, hlast⟩ := ih (pending ++ [c]) fg
      exact ⟨by rw [chunks, hdrawn]; simp [drawn], hlast⟩
    | color fg' =>
      obtain ⟨hdrawn, hlast⟩ := ih [] fg'
      refine ⟨?_, hlast⟩
      rw [List.map_nil, List.nil_append] at hdrawn
      rw [chunks, drawn, ← hdrawn]
      by_cases hpending : pending = [] <;> simp [hpending]

theorem chunks_cut (pending : QString) (fg : Int) (ts : List Token) :
    (chunks pending fg ts).1.map Prod.fst = (cutAtCodes pending ts).1 ∧
      (chunks pending fg ts).2.1 = (cutAtCodes pending ts).2 := by
  induction ts generalizing pending fg with
  | nil => exact ⟨rfl, rfl⟩
  | cons t ts ih =>
    cases t with
    | char c => exact ih (pending ++ [c]) fg
    | color fg' =>
      obtain ⟨hfront, hback⟩ := ih [] fg'
      refine ⟨?_, hback⟩
      rw [chunks, cutAtCodes, ← hfront]
      by_cases hpending : pending = [] <;> simp [hpending]

theorem paint_map (text : QString) (fg : Int) :
    paint context (text.map (·, fg)) = text.units.map (·, colorOf context fg) := by
  rw [paint, List.flatMap_map, QString.units, List.map_flatMap]

/-- A word without codes is a word whose last code is in front of it. -/
theorem addWord_eq {b : Builder γ} (hcolor : b.textColor = colorOf context b.fg) {word : QString}
    (hne : word ≠ []) (hlink : context.matchLink word.units = false) {r : Nat × Builder γ}
    (hr : addMatches context word (colorRegex.globalMatch 0 word) 0 b = r) :
    addWord context b word
      = { r.2 with
          textColor := colorOf context r.2.fg
          elements := r.2.elements ++ addText context (word.drop r.1) (colorOf context r.2.fg) true } := by
  rw [addWord, if_neg (by simpa using hne), if_neg (by simp [hlink]), ← hr]
  split
  · next hnone => simp [hnone, addMatches, ← hcolor]
  · rfl

/-- The elements of a word that is no link. -/
theorem addWord_text {b : Builder γ} (hcolor : b.textColor = colorOf context b.fg) {word : QString}
    (hne : word ≠ []) (hlink : context.matchLink word.units = false) :
    ∃ added, (addWord context b word).elements = b.elements ++ added ∧
      (∀ view, Shows context view added (paint context (drawn b.fg (tokens word)))) ∧
      (∀ view, added.flatMap (spaced view) = spacedWord context view word) ∧
      (addWord context b word).textColor = colorOf context (addWord context b word).fg ∧
      (addWord context b word).fg = lastColor b.fg (tokens word) := by
  obtain ⟨r, hr, helements, htext, hfg⟩ := addMatches_chunks context [] (Nat.le_refl 0) b word
  simp only [List.nil_append, List.length_nil, List.drop_nil] at hr helements htext hfg
  obtain ⟨hdrawn, hlast⟩ := chunks_drawn [] b.fg (tokens word)
  obtain ⟨hfront, hback⟩ := chunks_cut [] b.fg (tokens word)
  rw [addWord_eq context hcolor hne hlink hr]
  refine ⟨_, by rw [helements, List.append_assoc], fun view => ?_, fun view => ?_, rfl, by rw [hfg, hlast]⟩
  · rw [List.map_nil, List.nil_append] at hdrawn
    rw [← hdrawn, paint, List.flatMap_append, List.flatMap_assoc, htext, hfg]
    refine .append (.flatMap fun p _ => ?_) ?_
    · show Shows context view _ (paint context (p.1.map (·, p.2)))
      rw [paint_map]
      exact shows_addText p.1 _ false
    · show Shows context view _ (paint context _)
      rw [paint_map]
      exact shows_addText _ _ true
  · rw [List.flatMap_append, List.flatMap_assoc, spaced_addText, spacedWord, if_neg hne,
      if_neg (by simp [hlink]), ← hfront, ← hback, htext, List.flatMap_map]
    simp only [spaced_addText]

theorem addWord_link {b : Builder γ} {word : QString} (hne : word ≠ [])
    (hlink : context.matchLink word.units = true) :
    addWord context b word = { b with elements := b.elements ++ addLink context word.units } := by
  rw [addWord, if_neg (by simpa using hne), if_pos hlink]

theorem foldl_addWord {b : Builder γ} (hcolor : b.textColor = colorOf context b.fg) (words : List QString) :
    ∃ added, (words.foldl (addWord context) b).elements = b.elements ++ added ∧
      (∀ view, Shows context view added (coloredWords context b.fg words)) ∧
      ∀ view, added.flatMap (spaced view) = words.flatMap (spacedWord context view) := by
  induction words generalizing b with
  | nil => exact ⟨[], by simp, fun _ => .nil, fun _ => rfl⟩
  | cons word words ih =>
    rw [List.foldl_cons]
    by_cases hne : word = []
    · subst hne
      obtain ⟨added, helements, hshows, hspaced⟩ := ih hcolor
      refine ⟨added, helements, fun view => ?_, hspaced⟩
      rw [coloredWords, tokens]
      split <;> exact hshows view
    · cases hlink : context.matchLink word.units with
      | true =>
        rw [addWord_link context hne hlink]
        obtain ⟨added, helements, hshows, hspaced⟩ :=
          ih (b := { b with elements := b.elements ++ addLink context word.units }) hcolor
        refine ⟨addLink context word.units ++ added, by rw [helements, List.append_assoc], fun view => ?_,
          fun view => ?_⟩
        · rw [coloredWords, if_pos hlink]
          refine (shows_addLink word.units _ ?_).append (hshows view)
          rw [List.map_map]
          exact (List.map_id _).symm
        · have hown : (addTextOrEmoji context context.defaultColor (.text word.units)).flatMap (spaced view)
              = spacedPart context view true (.text word.units) := (spaced_addTextOrEmoji _ _).1
          rw [addTextOrEmoji, if_pos hlink] at hown
          rw [List.flatMap_append, hspaced, List.flatMap_cons, spacedWord, if_neg hne, if_pos hlink, hown]
      | false =>
        obtain ⟨own, hown, hshows, hspaced, hcolor', hfg⟩ := addWord_text context hcolor hne hlink
        obtain ⟨added, helements, hshows', hspaced'⟩ := ih hcolor'
        refine ⟨own ++ added, by rw [helements, hown, List.append_assoc], fun view => ?_, fun view => ?_⟩
        · rw [coloredWords, if_neg (by simp [hlink]), ← hfg]
          exact (hshows view).append (hshows' view)
        · rw [List.flatMap_append, hspaced, hspaced', List.flatMap_cons]

end IrcMessageBuilder

end Dankerino
