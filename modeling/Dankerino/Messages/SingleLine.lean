import Dankerino.Messages.LayoutLines
import Dankerino.Messages.MessageElement

/-!
# Text on a single line

`SingleLineTextElement::addToContainer` puts the words into one line, up to an ellipsis. Of a word that
starts with an emoji it only looks at this emoji, so everything is shown exactly if no such word has more
to show (`showsContent_iff`). A word that starts with text is shown as text, with the emojis in it, and
an emoji whose image is empty is nothing to show.
-/

namespace Dankerino

/-! ## What there is to show -/

namespace LineItem

/-- What an item shows of the text. -/
def content : LineItem → Units
  | .word text _ => text
  | .image value _ _ => value
  | .ellipsis kept _ => kept

def width : LineItem → Int
  | .word _ width => width
  | .image _ width _ => width
  | .ellipsis _ width => width

def isEllipsis : LineItem → Bool
  | .ellipsis _ _ => true
  | _ => false

end LineItem

namespace SingleLineTextElement

variable (env : LineEnv) (element : SingleLineTextElement)

/-- What there is to show of a part of a word. -/
def partContent : EmojiVariant → Units
  | .text string => string
  | .emote value => if (env.images value).isSome then value else []

def wordContent (word : Units) : Units := (env.emojis.parse word).flatMap (partContent env)

/-- The item of a part of a word. -/
def partItem : EmojiVariant → Option LineItem
  | .text string => some (.word string (env.metrics.horizontalAdvance string))
  | .emote value => (env.images value).map fun size => .image value size.1 size.2

/-- The items that show all of a word. -/
def wordItems (word : Units) : List LineItem :=
  match env.emojis.parse word with
  | .text _ :: _ => [.word word (env.metrics.horizontalAdvance word)]
  | parts => parts.filterMap (partItem env)

/-- Every word is shown, in order, up to the one at which the ellipsis is. -/
inductive ShowsAll : List Units → List (List LineItem) → Prop
  | nil : ShowsAll [] []
  | word {word : Units} {items : List LineItem} {words : List Units} {rest : List (List LineItem)} :
      (∀ item ∈ items, item.isEllipsis = false) →
      (wordContent env word).Sublist (items.flatMap LineItem.content) →
      (items.flatMap LineItem.content).Sublist word → ShowsAll words rest →
      ShowsAll (word :: words) (items :: rest)
  | ellipsis {word kept : Units} {width : Int} {words : List Units} :
      kept <+: word → ShowsAll (word :: words) [[.ellipsis kept width]]

/-- The items fit into the line, one after the other. -/
def Fits : MessageLayoutContainer → List LineItem → Prop
  | _, [] => True
  | c, item :: items =>
    c.fitsInLine env.settings item.width = true ∧ Fits (addItem env element c item) items

/-- The line shows everything up to the ellipsis, and there is none if everything fits. -/
structure ShowsContent (c : MessageLayoutContainer) (words : List Units) (shown : List (List LineItem)) :
    Prop where
  order : ShowsAll env words shown
  complete : Fits env element c (words.flatMap (wordItems env)) →
    ∀ items ∈ shown, ∀ item ∈ items, item.isEllipsis = false

/-! ## The condition -/

/-- If the word starts with an emoji, there is nothing to show behind it. -/
def Whole (word : Units) : Prop :=
  match env.emojis.parse word with
  | .emote _ :: rest => rest.flatMap (partContent env) = []
  | _ => True

/-- What the loop takes of a word if it fits. -/
def firstItem (word : Units) : Option LineItem :=
  match env.emojis.parse word with
  | [] => none
  | .emote value :: _ => (env.images value).map fun size => .image value size.1 size.2
  | .text _ :: _ => some (.word word (env.metrics.horizontalAdvance word))

/-- As long as the words fit, none that starts with an emoji has more to show. -/
def WholeWords : MessageLayoutContainer → List Units → Prop
  | _, [] => True
  | c, word :: words =>
    match firstItem env word with
    | none => Whole env word ∧ WholeWords c words
    | some item =>
      c.fitsInLine env.settings item.width = true →
        Whole env word ∧ WholeWords (addItem env element c item) words

/-! ## The loop -/

section Loop

variable {env} {word : Units}

/-- Nothing is shown of a word that was not there. -/
theorem partContent_sublist (part : EmojiVariant) : (partContent env part).Sublist part.spelled := by
  cases part with
  | text string => exact .refl _
  | emote value =>
    by_cases himage : (env.images value).isSome = true
    · simp [partContent, himage, EmojiVariant.spelled]
    · simp [partContent, himage]

theorem flatMap_partContent_sublist (parts : List EmojiVariant) :
    (parts.flatMap (partContent env)).Sublist (parts.flatMap EmojiVariant.spelled) := by
  induction parts with
  | nil => exact .refl _
  | cons part parts ih => exact (partContent_sublist part).append ih

theorem wordContent_sublist (word : Units) : (wordContent env word).Sublist word := by
  have hsublist : ((env.emojis.parse word).flatMap (partContent env)).Sublist _ :=
    flatMap_partContent_sublist _
  rwa [env.emojis.parse_spelled] at hsublist

/-- A word of which nothing is taken. -/
theorem addWords_of_none (h : firstItem env word = none) (c : MessageLayoutContainer)
    (words : List Units) :
    (addWords env element c (word :: words)).2 = [] :: (addWords env element c words).2 := by
  unfold firstItem at h
  rw [addWords]
  split at h
  · next hparse => simp [hparse]
  · next value rest hparse => simp [hparse, Option.map_eq_none_iff.mp h]
  · cases h

/-- A word that fits. -/
theorem addWords_of_fits {item : LineItem} (h : firstItem env word = some item)
    {c : MessageLayoutContainer} (hfits : c.fitsInLine env.settings item.width = true)
    (words : List Units) :
    (addWords env element c (word :: words)).2
      = [item] :: (addWords env element (addItem env element c item) words).2 := by
  unfold firstItem at h
  rw [addWords]
  split at h
  · cases h
  · next value rest hparse =>
    obtain ⟨⟨width, height⟩, himage, rfl⟩ := Option.map_eq_some_iff.mp h
    simp only [LineItem.width] at hfits
    simp [hparse, himage, hfits]
  · next string rest hparse =>
    obtain rfl := Option.some.inj h
    simp only [LineItem.width] at hfits
    simp [hparse, hfits]

theorem truncate_eq (env : LineEnv) (c : MessageLayoutContainer) (word : Units) :
    ∃ kept width, kept <+: word ∧ truncate env c word = .ellipsis kept width := by
  unfold truncate
  split
  · exact ⟨_, _, List.take_prefix _ _, rfl⟩
  · exact ⟨[], _, List.nil_prefix, rfl⟩

/-- At a word that does not fit, the loop ends with an ellipsis. -/
theorem addWords_of_not_fits {item : LineItem} (h : firstItem env word = some item)
    {c : MessageLayoutContainer} (hfits : c.fitsInLine env.settings item.width = false)
    (words : List Units) :
    ∃ kept width, kept <+: word ∧
      (addWords env element c (word :: words)).2 = [[.ellipsis kept width]] := by
  unfold firstItem at h
  rw [addWords]
  split at h
  · cases h
  · next value rest hparse =>
    obtain ⟨⟨width, height⟩, himage, rfl⟩ := Option.map_eq_some_iff.mp h
    simp only [LineItem.width] at hfits
    refine ⟨[], env.metrics.horizontalAdvance ellipsis, List.nil_prefix, ?_⟩
    simp [hparse, himage, hfits, onlyEllipsis]
  · next string rest hparse =>
    obtain rfl := Option.some.inj h
    simp only [LineItem.width] at hfits
    obtain ⟨kept, width, hkept, htruncate⟩ := truncate_eq env c word
    refine ⟨kept, width, hkept, ?_⟩
    simp [hparse, hfits, htruncate]

/-- A word of which nothing is taken is whole if it has nothing to show. -/
theorem whole_iff_of_none (h : firstItem env word = none) :
    Whole env word ↔ (wordContent env word).Sublist [] := by
  unfold firstItem at h
  unfold Whole wordContent
  split at h
  · next hparse => simp [hparse]
  · next value rest hparse =>
    have himage := Option.map_eq_none_iff.mp h
    simp [hparse, partContent, himage]
  · cases h

theorem firstItem_spec {item : LineItem} (h : firstItem env word = some item) :
    item.isEllipsis = false ∧ item.content.Sublist word ∧
      (Whole env word ↔ (wordContent env word).Sublist item.content) := by
  have hword : (wordContent env word).Sublist word := wordContent_sublist word
  have hspelled := env.emojis.parse_spelled word
  unfold firstItem at h
  unfold Whole
  split at h
  · cases h
  · next value rest hparse =>
    obtain ⟨⟨width, height⟩, himage, rfl⟩ := Option.map_eq_some_iff.mp h
    have hcontent : wordContent env word = value ++ rest.flatMap (partContent env) := by
      simp [wordContent, hparse, partContent, himage]
    rw [hparse, List.flatMap_cons] at hspelled
    refine ⟨rfl, ?_, ?_⟩
    · rw [← hspelled]
      exact List.sublist_append_left _ _
    · rw [hparse, hcontent]
      constructor
      · intro hnil
        simp [hnil, LineItem.content]
      · intro hsublist
        -- the image is all that is shown, so that the rest has no content
        have hlength := hsublist.length_le
        rw [List.length_append, LineItem.content] at hlength
        exact List.eq_nil_of_length_eq_zero (by omega)
  · next string rest hparse =>
    obtain rfl := Option.some.inj h
    rw [hparse]
    exact ⟨rfl, .refl _, fun _ => hword, fun _ => trivial⟩

theorem showsAll_cons_iff {items : List LineItem} {words : List Units} {rest : List (List LineItem)}
    (hitems : ∀ item ∈ items, item.isEllipsis = false) :
    ShowsAll env (word :: words) (items :: rest) ↔
      (wordContent env word).Sublist (items.flatMap LineItem.content) ∧
        (items.flatMap LineItem.content).Sublist word ∧ ShowsAll env words rest := by
  constructor
  · intro h
    cases h with
    | word _ hcontent hword hrest => exact ⟨hcontent, hword, hrest⟩
    | ellipsis => cases hitems _ (List.mem_singleton.mpr rfl)
  · rintro ⟨hcontent, hword, hrest⟩
    exact .word hitems hcontent hword hrest

/-- Every word is shown exactly if those that the loop takes something of are whole. -/
theorem showsAll_addWords_iff (words : List Units) : ∀ c : MessageLayoutContainer,
    ShowsAll env words (addWords env element c words).2 ↔ WholeWords env element c words := by
  induction words with
  | nil => exact fun c => ⟨fun _ => trivial, fun _ => .nil⟩
  | cons word words ih =>
    intro c
    rw [WholeWords]
    cases hfirst : firstItem env word with
    | none =>
      rw [addWords_of_none element hfirst, whole_iff_of_none hfirst,
        showsAll_cons_iff (List.forall_mem_nil _), ih]
      simp
    | some item =>
      obtain ⟨hellipsis, hsublist, hwhole⟩ := firstItem_spec hfirst
      cases hfits : c.fitsInLine env.settings item.width with
      | true =>
        rw [addWords_of_fits element hfirst hfits, hwhole,
          showsAll_cons_iff (List.forall_mem_singleton.mpr hellipsis), ih]
        simp [hfits, hsublist]
      | false =>
        -- the ellipsis stands for all words from here on
        obtain ⟨kept, width, hkept, hshown⟩ := addWords_of_not_fits element hfirst hfits words
        rw [hshown]
        simp only [hfits, Bool.false_eq_true, false_implies, iff_true]
        exact .ellipsis hkept

/-- A part with nothing to show has no item. -/
theorem partItem_eq_none {part : EmojiVariant} (hpart : part.spelled ≠ [])
    (h : partContent env part = []) : partItem env part = none := by
  cases part with
  | text string => exact absurd h hpart
  | emote value =>
    cases himage : env.images value with
    | none => simp [partItem, himage]
    | some size =>
      rw [partContent, himage] at h
      exact absurd h hpart

/-- The items of a whole word are what the loop takes of it. -/
theorem wordItems_of_whole (h : Whole env word) : wordItems env word = (firstItem env word).toList := by
  have hne := env.emojis.parse_ne_nil word
  unfold Whole at h
  unfold wordItems firstItem
  cases hparse : env.emojis.parse word with
  | nil => rfl
  | cons part rest =>
    rw [hparse] at h hne
    cases part with
    | text string => rfl
    | emote value =>
      have hrest : rest.filterMap (partItem env) = [] := by
        refine List.filterMap_eq_nil_iff.mpr fun part hpart => ?_
        exact partItem_eq_none (hne part (List.mem_cons_of_mem _ hpart))
          (List.flatMap_eq_nil_iff.mp h part hpart)
      cases himage : env.images value with
      | none => simp [partItem, himage, hrest]
      | some size => simp [partItem, himage, hrest]

/-- What the loop takes of a word stands first among its items. -/
theorem wordItems_of_firstItem {item : LineItem} (h : firstItem env word = some item) :
    ∃ rest, wordItems env word = item :: rest := by
  unfold firstItem at h
  unfold wordItems
  cases hparse : env.emojis.parse word with
  | nil =>
    rw [hparse] at h
    cases h
  | cons part rest =>
    rw [hparse] at h
    cases part with
    | text string =>
      obtain rfl := Option.some.inj h
      exact ⟨[], rfl⟩
    | emote value =>
      obtain ⟨size, himage, rfl⟩ := Option.map_eq_some_iff.mp h
      exact ⟨rest.filterMap (partItem env), by simp [partItem, himage]⟩

/-- There is no ellipsis if everything fits. -/
theorem complete_addWords (words : List Units) : ∀ c : MessageLayoutContainer,
    WholeWords env element c words → Fits env element c (words.flatMap (wordItems env)) →
    ∀ items ∈ (addWords env element c words).2, ∀ item ∈ items, item.isEllipsis = false := by
  induction words with
  | nil => exact fun c _ _ items hitems => nomatch hitems
  | cons word words ih =>
    intro c hwhole hfits
    rw [WholeWords] at hwhole
    rw [List.flatMap_cons] at hfits
    cases hfirst : firstItem env word with
    | none =>
      rw [hfirst] at hwhole
      -- a whole word of which nothing is taken needs no room
      rw [wordItems_of_whole hwhole.1, hfirst] at hfits
      rw [addWords_of_none element hfirst]
      exact List.forall_mem_cons.mpr ⟨List.forall_mem_nil _, ih c hwhole.2 hfits⟩
    | some item =>
      obtain ⟨rest, hrest⟩ := wordItems_of_firstItem hfirst
      rw [hrest, List.cons_append, Fits] at hfits
      simp only [hfirst] at hwhole
      -- the item fits, so the word is whole and the item is its only one
      obtain ⟨hword, hwords⟩ := hwhole hfits.1
      rw [wordItems_of_whole hword, hfirst] at hrest
      obtain ⟨-, rfl⟩ := List.cons.inj hrest
      rw [addWords_of_fits element hfirst hfits.1]
      exact List.forall_mem_cons.mpr
        ⟨List.forall_mem_singleton.mpr (firstItem_spec hfirst).1, ih _ hwords hfits.2⟩

end Loop

/--
**A single line** shows the content of every word, in order, up to an ellipsis, and without one if
everything fits, exactly if, as long as the words fit, none that starts with an emoji has more to show.
-/
theorem showsContent_iff (c : MessageLayoutContainer) {flags : MessageElementFlags}
    (hflags : flags.hasAny element.flags = true) :
    ShowsContent env element c element.words (addToContainer env element c flags).2 ↔
      WholeWords env element c element.words := by
  rw [addToContainer, if_pos hflags]
  constructor
  · exact fun h => (showsAll_addWords_iff element element.words c).mp h.order
  · exact fun h => ⟨(showsAll_addWords_iff element element.words c).mpr h,
      complete_addWords element element.words c h⟩

/-- One emoji, a heart, with an image. -/
def heartEnv : LineEnv where
  settings := ⟨false, false, 0⟩
  metrics := ⟨fun text => 10 * text.length, fun _ => 10, 16⟩
  emojis :=
    { emojiFirstByte := fun unit => if unit = 0x2764 then [[0x2764]] else []
      head := by
        intro unit value hvalue
        split at hvalue
        · next heq => rw [List.mem_singleton.mp hvalue, heq, List.head?_cons]
        · exact nomatch hvalue }
  images := fun _ => some (28, 28)

def wide : MessageLayoutContainer := { MessageLayoutContainer.unscaled with width := 500 }

theorem parse_heart : heartEnv.emojis.parse [0x2764] = [.emote [0x2764]] := by
  simp [EmojiTable.parse, EmojiTable.parseLoop, EmojiTable.matchesAt, heartEnv, isLowSurrogate]

theorem parse_heart_a :
    heartEnv.emojis.parse [0x2764, 0x61] = [.emote [0x2764], .text [0x61]] := by
  simp [EmojiTable.parse, EmojiTable.parseLoop, EmojiTable.matchesAt, heartEnv, isLowSurrogate]

theorem parse_a_heart :
    heartEnv.emojis.parse [0x61, 0x2764] = [.text [0x61], .emote [0x2764]] := by
  simp [EmojiTable.parse, EmojiTable.parseLoop, EmojiTable.matchesAt, heartEnv, isLowSurrogate]

/-- The words of a reply. -/
def reply (words : List Units) : SingleLineTextElement := ⟨MessageElementFlag.repliedMessage, words, true⟩

/-- A word that starts with text and has a heart in it, and a heart alone. -/
theorem showsContent_letter_heart :
    ShowsContent heartEnv (reply [[0x61, 0x2764], [0x2764]]) wide [[0x61, 0x2764], [0x2764]]
      (addToContainer heartEnv (reply [[0x61, 0x2764], [0x2764]]) wide
        MessageElementFlag.repliedMessage).2 := by
  have himages : heartEnv.images [0x2764] = some (28, 28) := rfl
  have hflags :
      MessageElementFlag.repliedMessage.hasAny (reply [[0x61, 0x2764], [0x2764]]).flags = true := by
    decide
  refine (showsContent_iff heartEnv (reply [[0x61, 0x2764], [0x2764]]) wide hflags).mpr ?_
  simp [reply, WholeWords, firstItem, Whole, parse_heart, parse_a_heart, himages]

/-- A heart with a letter behind it: the letter is not shown, and there is no ellipsis. -/
theorem letter_not_shown :
    (addToContainer heartEnv (reply [[0x2764, 0x61]]) wide MessageElementFlag.repliedMessage).2
        = [[.image [0x2764] 28 28]] ∧
      ¬ ShowsContent heartEnv (reply [[0x2764, 0x61]]) wide [[0x2764, 0x61]]
        (addToContainer heartEnv (reply [[0x2764, 0x61]]) wide MessageElementFlag.repliedMessage).2 := by
  have himages : heartEnv.images [0x2764] = some (28, 28) := rfl
  have hfits : wide.fitsInLine heartEnv.settings 28 = true := by decide
  have hflags : MessageElementFlag.repliedMessage.hasAny (reply [[0x2764, 0x61]]).flags = true := by decide
  have hshown : (addToContainer heartEnv (reply [[0x2764, 0x61]]) wide
      MessageElementFlag.repliedMessage).2 = [[.image [0x2764] 28 28]] := by
    rw [addToContainer, if_pos hflags]
    simp [reply, addWords, parse_heart_a, himages, hfits]
  refine ⟨hshown, fun h => ?_⟩
  have horder := h.order
  rw [hshown, showsAll_cons_iff (List.forall_mem_singleton.mpr rfl)] at horder
  have hlength := horder.1.length_le
  simp [wordContent, parse_heart_a, partContent, himages, LineItem.content] at hlength

end SingleLineTextElement

end Dankerino
