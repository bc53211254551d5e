import Dankerino.Infra.Run
import Dankerino.Infra.Termination
import Dankerino.Qt.Decimal
import Mathlib.Algebra.Order.Ring.Int

/-!
# Cheermotes

`TwitchMessageBuilder::tryParseCheermote` for the words of a message, with `TwitchChannel::cheerEmote`. A
cheermote takes its amount from `bitsLeft`, and where it is more than that, the word is tried again with the
difference.

* `tryParseCheermote_dom`: this ends if `bitsLeft` is not negative, since the number at the end of the word
  gets less. If it is negative the difference is more than the amount.
* `accounts_iff`: what is displayed and what is left are the bits that were sent exactly if these are an
  `int` that is not negative, and no cheermote comes without a color or with an amount that is no `int`.
-/

namespace Dankerino

open Infra StateTransition

/-! ## The emotes of the channel -/

/-- `^name([1-9][0-9]*)$`, with what the group captures. The end is that of the text, or in front of a line
feed there. -/
structure CheerRegex where
  captured : QString → Option QString
  isAmount : ∀ s d, captured s = some d → QString.IsAmount d
  atEnd : ∀ s d, captured s = some d → ∃ p, s = p ++ d ∨ s = p ++ d ++ ['\n']

structure CheerEmote (QColor EmotePtr : Type) where
  /-- `none` is `QColor()`. -/
  color : Option QColor
  minBits : Int
  regex : CheerRegex
  animatedEmote : Option EmotePtr
  staticEmote : Option EmotePtr

/-- The emotes of a set have its expression (`refreshCheerEmotes`). -/
structure CheerEmoteSet (QColor EmotePtr : Type) where
  regex : CheerRegex
  cheerEmotes : List (CheerEmote QColor EmotePtr)
  regex_eq : ∀ emote ∈ cheerEmotes, emote.regex = regex

namespace Cheermotes

variable {QColor EmotePtr : Type}

/-- `TwitchChannel::cheerEmote`. An amount that is no `int` counts as `0`. -/
def cheerEmote (sets : List (CheerEmoteSet QColor EmotePtr)) (string : QString) :
    Option (CheerEmote QColor EmotePtr) :=
  sets.findSome? fun set =>
    match set.regex.captured string with
    | none => none
    | some amount => set.cheerEmotes.find? fun emote => emote.minBits ≤ (QString.toInt amount).getD 0

/-! ## Words -/

/-- The elements that are put out for a cheermote. -/
inductive BitsElement (QColor EmotePtr : Type)
  | bitsStatic (emote : EmotePtr)
  | bitsAnimated (emote : EmotePtr)
  | bitsAmount (text : QString) (color : QColor)

/-- What `tryParseCheermote` reads and writes of the builder. -/
structure Builder (QColor EmotePtr : Type) where
  bitsLeft : Int
  bitsStacked : Bool
  elements : List (BitsElement QColor EmotePtr)

/-- A call ends with the outcome, or calls itself for another word. -/
inductive Round (QColor EmotePtr : Type)
  | done (b : Builder QColor EmotePtr) (success : Bool)
  | again (newString : QString)

/-- The elements of the emote, with the text of its amount. -/
def elementsOf (emote : CheerEmote QColor EmotePtr) (amount : QString) : List (BitsElement QColor EmotePtr) :=
  emote.staticEmote.toList.map .bitsStatic ++ emote.animatedEmote.toList.map .bitsAnimated ++
    emote.color.toList.map (.bitsAmount amount)

/-- `tryParseCheermote`, up to its call of itself. -/
def tryRound (stackBits : Bool) (sets : List (CheerEmoteSet QColor EmotePtr)) (b : Builder QColor EmotePtr)
    (string : QString) : Round QColor EmotePtr :=
  if b.bitsLeft = 0 then .done b false
  else
    match cheerEmote sets string with
    | none => .done b false
    | some emote =>
      match emote.regex.captured string with
      | none => .done b false
      | some captured =>
        let cheerValue := (QString.toInt captured).getD 0
        if stackBits then
          if b.bitsStacked then .done b true
          else .done { b with
            bitsStacked := true
            elements := b.elements ++ elementsOf emote (QString.number b.bitsLeft) } true
        else if cheerValue ≤ b.bitsLeft then
          .done { b with
            bitsLeft := b.bitsLeft - cheerValue
            elements := b.elements ++ elementsOf emote captured } true
        else
          -- the difference is an `int`
          .again (QString.chop string (QString.number cheerValue).length ++
            QString.number ((cheerValue - b.bitsLeft).bmod 4294967296))

/-- A call with its word, and its outcome once there is one. -/
structure Parsing (QColor EmotePtr : Type) where
  builder : Builder QColor EmotePtr
  string : QString
  outcome : Option Bool

def parseStep (stackBits : Bool) (sets : List (CheerEmoteSet QColor EmotePtr))
    (p : Parsing QColor EmotePtr) : Option (Parsing QColor EmotePtr) :=
  match p.outcome with
  | some _ => none
  | none =>
    match tryRound stackBits sets p.builder p.string with
    | .done b success => some ⟨b, p.string, some success⟩
    | .again newString => some { p with string := newString }

def tryParseCheermote (stackBits : Bool) (sets : List (CheerEmoteSet QColor EmotePtr))
    (b : Builder QColor EmotePtr) (string : QString) : Part (Parsing QColor EmotePtr) :=
  eval (parseStep stackBits sets) ⟨b, string, none⟩

/-! ## Messages -/

/-- The builder for a message with the tag `bits`. -/
def build (bits : QString) : Builder QColor EmotePtr := ⟨QString.variantToInt bits, false, []⟩

/-- The next word of a message. -/
def Step (stackBits : Bool) (sets : List (CheerEmoteSet QColor EmotePtr)) (b : Builder QColor EmotePtr)
    (word : QString) (b' : Builder QColor EmotePtr) : Prop :=
  ∃ p ∈ tryParseCheermote stackBits sets b word, p.builder = b'

def amountOf : BitsElement QColor EmotePtr → Int
  | .bitsAmount text _ => (QString.toInteger text).getD 0
  | _ => 0

/-- The sum of the amounts that are displayed. -/
def displayed (b : Builder QColor EmotePtr) : Int := (b.elements.map amountOf).sum

/-- The bits that the message was sent with. A tag that is no number stands for none. -/
def sentBits (bits : QString) : Int := (QString.toInteger bits).getD 0

/-- What is left is not negative, and with what is displayed it is what was sent. -/
structure Balanced (bits : QString) (b : Builder QColor EmotePtr) : Prop where
  nonneg : 0 ≤ b.bitsLeft
  sum : displayed b + b.bitsLeft = sentBits bits

/-- The builder is as it should be, and the call for the next word ends. -/
structure Accounts (sets : List (CheerEmoteSet QColor EmotePtr)) (bits : QString)
    (b : Builder QColor EmotePtr) : Prop extends Balanced bits b where
  terminates : ∀ word, (tryParseCheermote false sets b word).Dom

/-- The word is taken for a cheermote without a color whose amount is an `int`, or for one with a color whose
amount is none. -/
def Misstated (sets : List (CheerEmoteSet QColor EmotePtr)) (b : Builder QColor EmotePtr)
    (string : QString) : Prop :=
  b.bitsLeft ≠ 0 ∧ ∃ emote captured, cheerEmote sets string = some emote ∧
    emote.regex.captured string = some captured ∧ (QString.toInt captured).getD 0 ≤ b.bitsLeft ∧
    ¬ (emote.color.isSome = true ↔ (QString.toInt captured).isSome = true)

/-- No word that the call comes to is. -/
def Stated (sets : List (CheerEmoteSet QColor EmotePtr)) (b : Builder QColor EmotePtr) (word : QString) :
    Prop :=
  ∀ string, Reaches (parseStep false sets) ⟨b, word, none⟩ ⟨b, string, none⟩ → ¬ Misstated sets b string

/-- Each emote has a color and costs something. -/
def Regular (sets : List (CheerEmoteSet QColor EmotePtr)) : Prop :=
  ∀ set ∈ sets, ∀ emote ∈ set.cheerEmotes, emote.color.isSome = true ∧ 0 < emote.minBits

/-- Bits that are an `int` and not negative. -/
def InRange (n : Int) : Prop := 0 ≤ n ∧ n ≤ 2147483647

/-! ## One round -/

section Rounds

variable {sets : List (CheerEmoteSet QColor EmotePtr)} {b b' : Builder QColor EmotePtr}
  {string word captured : QString} {emote : CheerEmote QColor EmotePtr} {success : Bool}

theorem tryRound_of_captured (hbits : b.bitsLeft ≠ 0) (hemote : cheerEmote sets string = some emote)
    (hcaptured : emote.regex.captured string = some captured) :
    tryRound false sets b string =
      if (QString.toInt captured).getD 0 ≤ b.bitsLeft then
        .done { b with
          bitsLeft := b.bitsLeft - (QString.toInt captured).getD 0
          elements := b.elements ++ elementsOf emote captured } true
      else
        .again (QString.chop string (QString.number ((QString.toInt captured).getD 0)).length ++
          QString.number (((QString.toInt captured).getD 0 - b.bitsLeft).bmod 4294967296)) := by
  unfold tryRound
  simp [hbits, hemote, hcaptured]

/-- What a round can do. -/
theorem tryRound_cases (sets : List (CheerEmoteSet QColor EmotePtr)) (b : Builder QColor EmotePtr)
    (string : QString) : tryRound false sets b string = .done b false ∨
      b.bitsLeft ≠ 0 ∧ ∃ emote captured, cheerEmote sets string = some emote ∧
        emote.regex.captured string = some captured := by
  by_cases hbits : b.bitsLeft = 0
  · left
    unfold tryRound
    rw [if_pos hbits]
  · cases hemote : cheerEmote sets string with
    | none =>
      left
      unfold tryRound
      simp [hemote]
    | some emote =>
      cases hcaptured : emote.regex.captured string with
      | none =>
        left
        unfold tryRound
        simp [hemote, hcaptured]
      | some captured => exact .inr ⟨hbits, emote, captured, rfl, hcaptured⟩

/-- The amount of a cheermote that is more than what is left. -/
theorem amount_of_lt (hamount : QString.IsAmount captured) (hnonneg : 0 ≤ b.bitsLeft)
    (hlt : b.bitsLeft < (QString.toInt captured).getD 0) :
    (QString.toInt captured).getD 0 = Nat.ofDigitChars 10 captured 0 ∧
      (QString.toInt captured).getD 0 ≤ 2147483647 := by
  rw [hamount.toInt_eq] at hlt ⊢
  split
  · next hle => exact ⟨rfl, hle⟩
  · next hle =>
    rw [if_neg hle] at hlt
    exact absurd hlt (Int.not_lt.mpr hnonneg)

/-! ## Termination -/

/-- Whether the text ends with a line feed. -/
def endsLine (s : QString) : Nat := if s.getLast? = some '\n' then 1 else 0

theorem endsLine_append (p : QString) {d : QString} (hd : ∀ c ∈ d, c.isDigit = true) (hne : d ≠ []) :
    endsLine (p ++ d) = 0 := by
  refine if_neg fun hlast => ?_
  rw [List.getLast?_append_of_ne_nil p hne] at hlast
  exact absurd (hd _ (List.mem_of_getLast? hlast)) (by decide)

/-- What gets less: a call that goes on, a line feed at the end of its word, and the number there. -/
def remaining (p : Parsing QColor EmotePtr) : Nat × Nat × Nat :=
  (if p.outcome.isSome then 0 else 1, endsLine p.string, QString.trailingNumber p.string)

/-- The word with the difference. -/
theorem newString_less (hamount : QString.IsAmount captured)
    (hend : ∃ p, string = p ++ captured ∨ string = p ++ captured ++ ['\n'])
    (hnonneg : 0 < b.bitsLeft) (hlt : b.bitsLeft < (QString.toInt captured).getD 0) :
    WellFoundedRelation.rel
      (remaining ⟨b, QString.chop string (QString.number ((QString.toInt captured).getD 0)).length ++
        QString.number (((QString.toInt captured).getD 0 - b.bitsLeft).bmod 4294967296), none⟩)
      (remaining ⟨b, string, none⟩) := by
  obtain ⟨hvalue, hmax⟩ := amount_of_lt hamount hnonneg.le hlt
  obtain ⟨n, hn⟩ : ∃ n : Nat, (QString.toInt captured).getD 0 - b.bitsLeft = n :=
    ⟨((QString.toInt captured).getD 0 - b.bitsLeft).toNat, by omega⟩
  have hless : n < Nat.ofDigitChars 10 captured 0 := by omega
  have hbmod : (n : Int).bmod 4294967296 = n := Int.bmod_eq_of_le (by omega) (by omega)
  have hlength : (QString.number ((QString.toInt captured).getD 0)).length = captured.length := by
    rw [hvalue]
    exact hamount.length_toDigits
  have hdigits : ∀ c ∈ Nat.toDigits 10 n, c.isDigit = true := fun c hc =>
    Nat.isDigit_of_mem_toDigits (by decide) (by decide) hc
  rw [hn, hbmod, hlength]
  refine Prod.Lex.right _ ?_
  have hnew := endsLine_append (QString.chop string captured.length) hdigits Nat.toDigits_ne_nil
  obtain ⟨p, rfl | rfl⟩ := hend
  · have hold := endsLine_append p hamount.digits hamount.ne_nil
    have hchop : QString.chop (p ++ captured) captured.length = p := by
      rw [QString.chop, List.length_append, Nat.add_sub_cancel, List.take_left]
    rw [hchop] at hnew ⊢
    show Prod.Lex _ _ (endsLine (p ++ Nat.toDigits 10 n), _) (endsLine (p ++ captured), _)
    rw [hnew, hold]
    exact Prod.Lex.right _ (QString.trailingNumber_lt p hamount.digits hless)
  · refine Prod.Lex.left _ _ ?_
    have hold : endsLine (p ++ captured ++ ['\n']) = 1 := by simp [endsLine]
    show endsLine (QString.chop _ _ ++ Nat.toDigits 10 n) < endsLine _
    rw [hnew, hold]
    decide

/-- The bits of a call that goes on are not negative. -/
def Running (p : Parsing QColor EmotePtr) : Prop := p.outcome = none → 0 ≤ p.builder.bitsLeft

theorem parseStep_less {p p' : Parsing QColor EmotePtr} (hp : Running p) (hp' : p' ∈ parseStep false sets p) :
    Running p' ∧ WellFoundedRelation.rel (remaining p') (remaining p) := by
  obtain ⟨b, string, outcome⟩ := p
  cases outcome with
  | some outcome => exact nomatch hp'
  | none =>
    have hnonneg : 0 ≤ b.bitsLeft := hp rfl
    have hdone : ∀ (b' : Builder QColor EmotePtr) (success : Bool),
        tryRound false sets b string = .done b' success →
        Running p' ∧ WellFoundedRelation.rel (remaining p') (remaining ⟨b, string, none⟩) := by
      intro b' success hround
      unfold parseStep at hp'
      simp only [hround] at hp'
      obtain rfl := Option.some.inj hp'
      exact ⟨nofun, Prod.Lex.left _ _ Nat.zero_lt_one⟩
    rcases tryRound_cases sets b string with hround | ⟨hbits, emote, captured, hemote, hcaptured⟩
    · exact hdone _ _ hround
    · have hround := tryRound_of_captured hbits hemote hcaptured
      by_cases hle : (QString.toInt captured).getD 0 ≤ b.bitsLeft
      · rw [if_pos hle] at hround
        exact hdone _ _ hround
      · rw [if_neg hle] at hround
        unfold parseStep at hp'
        simp only [hround] at hp'
        obtain rfl := Option.some.inj hp'
        refine ⟨fun _ => hnonneg, ?_⟩
        exact newString_less (emote.regex.isAmount _ _ hcaptured) (emote.regex.atEnd _ _ hcaptured)
          (by omega) (by omega)

/-- **Termination** of a call with bits that are not negative. -/
theorem tryParseCheermote_dom (hnonneg : 0 ≤ b.bitsLeft) : (tryParseCheermote false sets b word).Dom :=
  eval_dom_of_less remaining (fun _ _ hp hp' => parseStep_less hp hp') fun _ => hnonneg

/-! ## Calls -/

/-- What a call comes to: a word with the builder as it was, or the end of the round for one. -/
theorem reached_cases {p : Parsing QColor EmotePtr}
    (h : Reaches (parseStep false sets) ⟨b, word, none⟩ p) :
    (∃ string, p = ⟨b, string, none⟩) ∨
      ∃ string b' success, p = ⟨b', string, some success⟩ ∧ tryRound false sets b string = .done b' success ∧
        Reaches (parseStep false sets) ⟨b, word, none⟩ ⟨b, string, none⟩ := by
  induction h with
  | refl => exact .inl ⟨word, rfl⟩
  | tail hreaches hlast ih =>
    rcases ih with ⟨string, rfl⟩ | ⟨string, b', success, rfl, -, -⟩
    · unfold parseStep at hlast
      dsimp only at hlast
      split at hlast
      · next b' success hround =>
        obtain rfl := Option.some.inj hlast
        exact .inr ⟨string, b', success, rfl, hround, hreaches⟩
      · next newString hround =>
        obtain rfl := Option.some.inj hlast
        exact .inl ⟨newString, rfl⟩
    · exact nomatch hlast

/-- A word changes the builder as the round does in which its call ends. -/
theorem step_iff : Step false sets b word b' ↔ ∃ string success,
    Reaches (parseStep false sets) ⟨b, word, none⟩ ⟨b, string, none⟩ ∧
      tryRound false sets b string = .done b' success := by
  constructor
  · rintro ⟨p, hp, rfl⟩
    obtain ⟨hreaches, hend⟩ := mem_eval.mp hp
    rcases reached_cases hreaches with ⟨string, rfl⟩ | ⟨string, b', success, rfl, hround, hbefore⟩
    · unfold parseStep at hend
      dsimp only at hend
      split at hend
      · exact nomatch hend
      · exact nomatch hend
    · exact ⟨string, success, hbefore, hround⟩
  · rintro ⟨string, success, hreaches, hround⟩
    refine ⟨⟨b', string, some success⟩, mem_eval.mpr ⟨hreaches.tail ?_, rfl⟩, rfl⟩
    unfold parseStep
    simp [hround]

/-! ## Amounts -/

theorem sum_elementsOf (emote : CheerEmote QColor EmotePtr) (amount : QString) :
    ((elementsOf emote amount).map amountOf).sum =
      if emote.color.isSome then (QString.toInteger amount).getD 0 else 0 := by
  unfold elementsOf
  cases emote.staticEmote <;> cases emote.animatedEmote <;> cases emote.color <;> simp [amountOf]

/-- What the amount takes is what it shows, exactly if it has a color and is an `int`, or neither. -/
theorem shown_eq_taken_iff (hamount : QString.IsAmount captured) (color : Option QColor) :
    (if color.isSome then (QString.toInteger captured).getD 0 else 0) = (QString.toInt captured).getD 0 ↔
      (color.isSome = true ↔ (QString.toInt captured).isSome = true) := by
  have hpos := hamount.pos
  rw [hamount.toInteger_eq, hamount.toInt_eq]
  by_cases hmax : (Nat.ofDigitChars 10 captured 0 : Int) ≤ 2147483647
  · rw [if_pos hmax]
    cases color with
    | none =>
      simp
      omega
    | some color => simp
  · rw [if_neg hmax]
    cases color with
    | none => simp
    | some color =>
      simp
      omega

/-- A round keeps the balance exactly if it does not misstate the amount. -/
theorem balanced_iff {bits : QString} (hb : Balanced bits b)
    (hround : tryRound false sets b string = .done b' success) :
    Balanced bits b' ↔ ¬ Misstated sets b string := by
  rcases tryRound_cases sets b string with hfailed | ⟨hbits, emote, captured, hemote, hcaptured⟩
  · rw [hfailed] at hround
    obtain ⟨rfl, rfl⟩ := Round.done.inj hround
    refine iff_of_true hb ?_
    rintro ⟨hbits, emote, captured, hemote, hcaptured, hle, -⟩
    rw [tryRound_of_captured hbits hemote hcaptured, if_pos hle] at hfailed
    exact nomatch (Round.done.inj hfailed).2
  · rw [tryRound_of_captured hbits hemote hcaptured] at hround
    split at hround
    · next hle =>
      obtain ⟨rfl, rfl⟩ := Round.done.inj hround
      have hmisstated : Misstated sets b string ↔
          ¬ (emote.color.isSome = true ↔ (QString.toInt captured).isSome = true) := by
        constructor
        · rintro ⟨-, emote', captured', hemote', hcaptured', -, hne⟩
          obtain rfl := Option.some.inj (hemote.symm.trans hemote')
          obtain rfl := Option.some.inj (hcaptured.symm.trans hcaptured')
          exact hne
        · exact fun hne => ⟨hbits, emote, captured, hemote, hcaptured, hle, hne⟩
      have hsum : displayed { b with
            bitsLeft := b.bitsLeft - (QString.toInt captured).getD 0
            elements := b.elements ++ elementsOf emote captured }
          = displayed b + if emote.color.isSome then (QString.toInteger captured).getD 0 else 0 := by
        unfold displayed
        rw [List.map_append, List.sum_append, sum_elementsOf]
      rw [hmisstated, not_not, ← shown_eq_taken_iff (emote.regex.isAmount _ _ hcaptured)]
      have hbalance := hb.sum
      constructor
      · intro h
        have hsum' := h.sum
        rw [hsum] at hsum'
        dsimp only at hsum'
        omega
      · intro h
        refine ⟨Int.sub_nonneg.mpr hle, ?_⟩
        rw [hsum, h]
        dsimp only
        omega
    · exact nomatch hround

/-- A word keeps the balance exactly if it is not misstated. -/
theorem step_balanced_iff {bits : QString} (hb : Balanced bits b) :
    (∀ b', Step false sets b word b' → Balanced bits b') ↔ Stated sets b word := by
  constructor
  · intro h string hreaches hmisstated
    obtain ⟨hbits, emote, captured, hemote, hcaptured, hle, hne⟩ := hmisstated
    have hround := tryRound_of_captured hbits hemote hcaptured
    rw [if_pos hle] at hround
    have hkept := h _ (step_iff.mpr ⟨string, true, hreaches, hround⟩)
    exact (balanced_iff hb hround).mp hkept ⟨hbits, emote, captured, hemote, hcaptured, hle, hne⟩
  · intro h b' hstep
    obtain ⟨string, success, hreaches, hround⟩ := step_iff.mp hstep
    exact (balanced_iff hb hround).mpr (h string hreaches)

/-- Emotes that have a color and cost something are not misstated. -/
theorem Regular.stated (h : Regular sets) : Stated sets b word := by
  rintro string - ⟨hbits, emote, captured, hemote, hcaptured, hle, hne⟩
  obtain ⟨set, hset, hfound⟩ := List.exists_of_findSome?_eq_some hemote
  split at hfound
  · exact nomatch hfound
  · next amount hamount =>
    have hmem := List.mem_of_find?_eq_some hfound
    have hmin : emote.minBits ≤ (QString.toInt amount).getD 0 := by
      simpa using List.find?_some hfound
    obtain ⟨hcolor, hpos⟩ := h set hset emote hmem
    rw [set.regex_eq emote hmem, hamount] at hcaptured
    obtain rfl := Option.some.inj hcaptured
    refine hne (iff_of_true hcolor ?_)
    cases hint : QString.toInt amount with
    | some n => rfl
    | none =>
      rw [hint] at hmin
      exact absurd hpos (Int.not_lt.mpr hmin)

end Rounds

/-! ## Messages -/

section Messages

variable {sets : List (CheerEmoteSet QColor EmotePtr)}

theorem balanced_build_iff (bits : QString) :
    Balanced bits (build bits : Builder QColor EmotePtr) ↔ InRange (sentBits bits) := by
  have hdisplayed : displayed (build bits : Builder QColor EmotePtr) = 0 := rfl
  constructor
  · rintro ⟨hnonneg, hsum⟩
    rw [hdisplayed, Int.zero_add] at hsum
    exact ⟨hsum ▸ hnonneg, hsum ▸ QString.variantToInt_le bits⟩
  · rintro ⟨hnonneg, hmax⟩
    have hbits : QString.variantToInt bits = sentBits bits := by
      unfold sentBits at hnonneg hmax ⊢
      cases hinteger : QString.toInteger bits with
      | none =>
        unfold QString.variantToInt
        rw [hinteger]
        rfl
      | some n =>
        rw [hinteger] at hnonneg hmax
        have hmin : -2147483648 ≤ n := Int.le_trans (by decide) hnonneg
        exact QString.variantToInt_eq hinteger hmin hmax
    refine ⟨?_, ?_⟩
    · exact hnonneg.trans_eq hbits.symm
    · rw [hdisplayed, Int.zero_add]
      exact hbits

theorem run_balanced {bits : QString} {b b' : Builder QColor EmotePtr} {words : List QString}
    (h : Run (Step false sets) b words b') (hb : Balanced bits b)
    (hstated : ∀ words b', Run (Step false sets) b words b' → ∀ word, Stated sets b' word) :
    Balanced bits b' := by
  induction h with
  | nil => exact hb
  | cons hstep _ ih =>
    refine ih ((step_balanced_iff hb).mpr (hstated [] _ (.nil _) _) _ hstep) ?_
    exact fun words b' hrun => hstated _ b' (.cons hstep hrun)

/-- **The bits of a message.** -/
theorem accounts_iff (sets : List (CheerEmoteSet QColor EmotePtr)) (bits : QString) :
    ((∀ words b, Run (Step false sets) (build bits) words b → Accounts sets bits b) ↔
      InRange (sentBits bits) ∧
        ∀ words b, Run (Step false sets) (build bits) words b → ∀ word, Stated sets b word) ∧
    (Regular sets →
      ((∀ words b, Run (Step false sets) (build bits) words b → Accounts sets bits b) ↔
        InRange (sentBits bits))) := by
  have hiff : (∀ words b, Run (Step false sets) (build bits) words b → Accounts sets bits b) ↔
      InRange (sentBits bits) ∧
        ∀ words b, Run (Step false sets) (build bits) words b → ∀ word, Stated sets b word := by
    constructor
    · intro h
      refine ⟨(balanced_build_iff bits).mp (h [] _ (.nil _)).toBalanced, fun words b hrun word => ?_⟩
      refine (step_balanced_iff (h words b hrun).toBalanced).mp fun b' hstep => ?_
      exact (h (words ++ [word]) b' (hrun.append (.single hstep))).toBalanced
    · rintro ⟨hrange, hstated⟩ words b hrun
      have hbalanced := run_balanced hrun ((balanced_build_iff bits).mpr hrange) hstated
      exact ⟨hbalanced, fun word => tryParseCheermote_dom hbalanced.nonneg⟩
  refine ⟨hiff, fun hregular => ?_⟩
  rw [hiff]
  exact and_iff_left fun words b _ word => hregular.stated

end Messages

/-! ## Negative bits -/

/-- The expression for a name, with its case and without the line feed. -/
def plainRegex (name : QString) : CheerRegex where
  captured s :=
    if name.isPrefixOf s = true ∧ QString.IsAmount (s.drop name.length) then some (s.drop name.length) else none
  isAmount s d h := by
    split at h
    · next hmatch =>
      obtain rfl := Option.some.inj h
      exact hmatch.2
    · exact nomatch h
  atEnd s d h := by
    split at h
    · next hmatch =>
      obtain rfl := Option.some.inj h
      obtain ⟨t, rfl⟩ := List.isPrefixOf_iff_prefix.mp hmatch.1
      exact ⟨name, .inl (by rw [List.drop_left])⟩
    · exact nomatch h

theorem plainRegex_captured {name d : QString} (h : QString.IsAmount d) :
    (plainRegex name).captured (name ++ d) = some d := by
  show (if _ then _ else _) = _
  rw [List.drop_left, if_pos ⟨List.isPrefixOf_iff_prefix.mpr (List.prefix_append name d), h⟩]

/-- One emote with a color, for one bit. -/
def oneBit (name : QString) : CheerEmote Nat Nat := ⟨some 0, 1, plainRegex name, some 0, some 0⟩

def cheer (name : QString) : CheerEmoteSet Nat Nat where
  regex := plainRegex name
  cheerEmotes := [oneBit name]
  regex_eq _ h := List.mem_singleton.mp h ▸ rfl

theorem regular_cheer (name : QString) : Regular [cheer name] := by
  intro set hset emote hemote
  obtain rfl := List.mem_singleton.mp hset
  obtain rfl := List.mem_singleton.mp hemote
  exact ⟨rfl, Int.zero_lt_one⟩

/-- With one bit less than none the next word has one bit more. -/
theorem tryRound_cheer (name : QString) {b : Builder Nat Nat} (hbits : b.bitsLeft = -1) {n : Nat} (hn : 0 < n)
    (hmax : n < 2147483647) :
    tryRound false [cheer name] b (name ++ Nat.toDigits 10 n) = .again (name ++ Nat.toDigits 10 (n + 1)) := by
  have hcaptured : (plainRegex name).captured (name ++ Nat.toDigits 10 n) = some (Nat.toDigits 10 n) :=
    plainRegex_captured (QString.isAmount_toDigits hn)
  have hint : QString.toInt (Nat.toDigits 10 n) = some (n : Int) := QString.toInt_number (by omega)
  have hemote : cheerEmote [cheer name] (name ++ Nat.toDigits 10 n) = some (oneBit name) := by
    have hset : (cheer name).regex.captured (name ++ Nat.toDigits 10 n) = some (Nat.toDigits 10 n) :=
      hcaptured
    have hmin : (oneBit name).minBits ≤ n := Int.ofNat_le.mpr hn
    unfold cheerEmote
    rw [List.findSome?_cons, hset]
    simp [cheer, hint, hmin]
  have hless : ¬ (n : Int) ≤ -1 := by omega
  have hdifference : ((n : Int) - -1).bmod 4294967296 = (n + 1 : Nat) := by
    rw [Int.sub_neg]
    exact Int.bmod_eq_of_le (by omega) (by omega)
  have hlength : (QString.number n).length = (Nat.toDigits 10 n).length := rfl
  have hchop : QString.chop (name ++ Nat.toDigits 10 n) (QString.number n).length = name := by
    rw [QString.chop, List.length_append, hlength, Nat.add_sub_cancel, List.take_left]
  rw [tryRound_of_captured (by omega) hemote hcaptured, hbits, hint, Option.getD_some, if_neg hless,
    hdifference, hchop]
  rfl

theorem reaches_cheer (name : QString) {b : Builder Nat Nat} (hbits : b.bitsLeft = -1) {n : Nat} (hn : 0 < n)
    (hmax : n ≤ 2147483647) :
    Reaches (parseStep false [cheer name]) ⟨b, name ++ Nat.toDigits 10 1, none⟩
      ⟨b, name ++ Nat.toDigits 10 n, none⟩ := by
  induction n with
  | zero => exact absurd hn (Nat.lt_irrefl 0)
  | succ n ih =>
    by_cases hzero : n = 0
    · subst hzero
      exact .refl
    · have hpos := Nat.pos_of_ne_zero hzero
      refine (ih hpos (by omega)).tail ?_
      unfold parseStep
      dsimp only
      rw [tryRound_cheer name hbits hpos (by omega)]
      rfl

/-- With the tag `-1` the bits left are negative, and the amount of a word grows with each call up to the
greatest `int`, from which the difference is no `int`. -/
theorem negative_bits : Regular [cheer "Cheer".toList] ∧
    ¬ Accounts [cheer "Cheer".toList] "-1".toList (build "-1".toList) ∧
    ∀ n : Nat, 0 < n → n ≤ 2147483647 →
      Reaches (parseStep false [cheer "Cheer".toList])
        ⟨build "-1".toList, "Cheer".toList ++ Nat.toDigits 10 1, none⟩
        ⟨build "-1".toList, "Cheer".toList ++ Nat.toDigits 10 n, none⟩ :=
  ⟨regular_cheer _, fun h => absurd h.nonneg (by decide), fun _ => reaches_cheer _ (by decide)⟩

end Cheermotes

end Dankerino
