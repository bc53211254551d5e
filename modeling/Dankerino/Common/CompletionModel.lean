import Dankerino.Infra.StdSet
import Dankerino.Widgets.InputCompletion
import Mathlib.Data.List.Infix
import Mathlib.Data.List.Lex
import Mathlib.Data.Prod.Lex

/-!
# The completion model

`CompletionModel::refresh` puts what the text before the cursor can be completed to into a `std::set`. Its
comparison is lexicographic in three keys, of which the last two tell all texts apart, so that none is lost
(`refresh_spec`).

Folding the case of a character and `QString::toLower` are given by functions.
-/

namespace Dankerino

open Infra

/-- `CompletionModel::TaggedString::Type` -/
inductive CompletionType where
  | username
  | emoteStart
  | ffzGlobalEmote
  | ffzChannelEmote
  | seventvGlobalEmote
  | seventvChannelEmote
  | bttvGlobalEmote
  | bttvChannelEmote
  | twitchGlobalEmote
  | twitchLocalEmote
  | twitchSubscriberEmote
  | emoji
  | emoteEnd
  | customCommand
  | chatterinoCommand
  | twitchCommand
  deriving DecidableEq

structure TaggedString where
  string : Units
  type : CompletionType
  deriving DecidableEq

namespace CompletionModel

/-! ## The order -/

section Order

variable (foldCase : Nat → Nat)

/-- `QChar::surrogateToUcs4` -/
def surrogateToUcs4 (high low : Nat) : Nat := high * 0x400 + low - 0x35FDC00

/-- The folded units of a text behind the unit `last`. The second unit of a pair stands for both. -/
def foldUnits (last : Nat) : Units → List Nat
  | [] => []
  | unit :: s =>
    foldCase (if isLowSurrogate unit && isHighSurrogate last then surrogateToUcs4 last unit else unit) ::
      foldUnits unit s

/-- `QString::compare` with `Qt::CaseInsensitive` -/
def compareInsensitive (a b : Units) : Int :=
  if foldUnits foldCase 0 a < foldUnits foldCase 0 b then -1
  else if foldUnits foldCase 0 a = foldUnits foldCase 0 b then 0
  else 1

def compareStrings (a b : Units) : Bool :=
  let k := compareInsensitive foldCase a b
  if k = 0 then decide (b < a) else decide (k < 0)

end Order

end CompletionModel

namespace TaggedString

def isEmote (item : TaggedString) : Bool :=
  CompletionType.emoteStart.ctorIdx < item.type.ctorIdx && item.type.ctorIdx < CompletionType.emoteEnd.ctorIdx

/-- `operator<` -/
def less (foldCase : Nat → Nat) (item that : TaggedString) : Bool :=
  if item.isEmote ≠ that.isEmote then item.isEmote
  else CompletionModel.compareStrings foldCase item.string that.string

/-- What the comparison looks at, in this order: emotes first, then the folded text, then the text backwards. -/
def orderKey (foldCase : Nat → Nat) (item : TaggedString) : Bool ×ₗ List Nat ×ₗ (List Nat)ᵒᵈ :=
  toLex (!item.isEmote, toLex (CompletionModel.foldUnits foldCase 0 item.string, OrderDual.toDual item.string))

theorem compareStrings_iff {foldCase : Nat → Nat} {a b : Units} :
    CompletionModel.compareStrings foldCase a b = true ↔
      CompletionModel.foldUnits foldCase 0 a < CompletionModel.foldUnits foldCase 0 b ∨
        CompletionModel.foldUnits foldCase 0 a = CompletionModel.foldUnits foldCase 0 b ∧ b < a := by
  rw [CompletionModel.compareStrings, CompletionModel.compareInsensitive]
  by_cases hlt : CompletionModel.foldUnits foldCase 0 a < CompletionModel.foldUnits foldCase 0 b
  · simp [hlt]
  · by_cases heq : CompletionModel.foldUnits foldCase 0 a = CompletionModel.foldUnits foldCase 0 b
    · simp [heq]
    · simp [hlt, heq]

/-- The comparison is the lexicographic one of the keys. -/
theorem less_iff {foldCase : Nat → Nat} {a b : TaggedString} :
    less foldCase a b = true ↔ orderKey foldCase a < orderKey foldCase b := by
  rw [less, orderKey, orderKey, Prod.Lex.toLex_lt_toLex, Prod.Lex.toLex_lt_toLex, OrderDual.toDual_lt_toDual,
    ← compareStrings_iff]
  cases ha : a.isEmote <;> cases hb : b.isEmote <;> simp

theorem strictWeak_less (foldCase : Nat → Nat) : StrictWeak (less foldCase) :=
  strictWeak_of_key (orderKey foldCase) fun _ _ => less_iff

/-- Only items with the same text that both are emotes or both are none are equivalent. -/
theorem equivalent_iff {foldCase : Nat → Nat} {a b : TaggedString} :
    StdSet.Equivalent (less foldCase) a b ↔ a.string = b.string ∧ a.isEmote = b.isEmote := by
  have hkeys : StdSet.Equivalent (less foldCase) a b ↔ orderKey foldCase a = orderKey foldCase b := by
    rw [StdSet.Equivalent, Bool.eq_false_iff, Bool.eq_false_iff, ne_eq, ne_eq, less_iff, less_iff, not_lt, not_lt,
      and_comm]
    exact antisymm_iff
  rw [hkeys]
  constructor
  · intro h
    obtain ⟨hemote, hrest⟩ := Prod.mk.inj (toLex.injective h)
    obtain ⟨-, hstring⟩ := Prod.mk.inj (toLex.injective hrest)
    exact ⟨OrderDual.toDual.injective hstring, Bool.not_inj hemote⟩
  · rintro ⟨hstring, hemote⟩
    rw [orderKey, orderKey, hstring, hemote]

end TaggedString

/-! ## What is completed -/

/-- What `refresh` reads. The emotes and the names of a map are in the order of its loop. -/
structure CompletionSources extends CompletionSettings where
  prefixOnlyEmoteCompletion : Bool
  userCompletionOnlyWithAt : Bool
  /-- The emotes of the current account, if there is one, and those that are available in the room only. -/
  account : Option (List Units × Option (List Units))
  seventvGlobalEmotes : List Units
  bttvGlobalEmotes : List Units
  ffzGlobalEmotes : List Units
  emojiShortCodes : List Units
  /-- The names by their lower case. -/
  chatters : List (Units × Units)
  seventvEmotes : List Units
  bttvEmotes : List Units
  ffzEmotes : List Units
  /-- The names of the commands of the user. -/
  commands : List Units
  defaultChatterinoCommands : List Units

namespace CompletionModel

/-- `TWITCH_DEFAULT_COMMANDS` -/
def twitchDefaultCommands : List Units :=
  ["help", "w", "me", "disconnect", "mods", "vips", "color", "commercial", "mod", "unmod", "vip", "unvip",
    "ban", "unban", "timeout", "untimeout", "slow", "slowoff", "r9kbeta", "r9kbetaoff", "emoteonly",
    "emoteonlyoff", "clear", "subscribers", "subscribersoff", "followers", "followersoff", "host", "unhost",
    "raid", "unraid", "delete", "announce", "requests"].map fun command => QString.units command.toList

section Refresh

variable (foldCase : Nat → Nat) (toLower : Units → Units)

/-- `QString::startsWith` with `Qt::CaseInsensitive` -/
def startsWith (str1 str2 : Units) : Bool :=
  str2.length ≤ str1.length && foldUnits foldCase 0 (str1.take str2.length) == foldUnits foldCase 0 str2

/-- `startsWithOrContains` with `Qt::CaseInsensitive` -/
def startsWithOrContains (str1 str2 : Units) (onlyStart : Bool) : Bool :=
  if onlyStart then startsWith foldCase str1 str2
  else str1.tails.any fun tail => startsWith foldCase tail str2

/-- `ChatterSet::filterByPrefix` -/
def filterByPrefix (chatters : List (Units × Units)) (start : Units) : List Units :=
  (chatters.filter fun item => (toLower start).isPrefixOf item.1).map Prod.snd

variable (sources : CompletionSources) (start : Units) (isFirstWord : Bool)

/-- The lambda `addString`: what it puts into the set. -/
def addString : Units × CompletionType → Option TaggedString
  | (str, .twitchCommand) =>
    match start with
    | [] => none
    | prefixChar :: _ =>
      if start.length < 2 then none
      else if prefixChar ≠ 0x2F ∧ prefixChar ≠ 0x2E then none
      else if startsWithOrContains foldCase (prefixChar :: str) start sources.prefixOnlyEmoteCompletion then
        some { string := prefixChar :: str ++ [0x20], type := .twitchCommand }
      else none
  | (str, type) =>
    if startsWithOrContains foldCase str start sources.prefixOnlyEmoteCompletion then
      some { string := str ++ [0x20], type }
    else none

/-- The names that are completed. Without `@` only if the setting allows it. -/
def usernames : List Units :=
  if start.head? = some 0x40 then
    (filterByPrefix toLower sources.chatters start.tail).map fun name =>
      0x40 :: InputCompletion.formatUserMention toLower name isFirstWord sources.toCompletionSettings
  else if !sources.userCompletionOnlyWithAt then
    (filterByPrefix toLower sources.chatters start).map fun name =>
      InputCompletion.formatUserMention toLower name isFirstWord sources.toCompletionSettings
  else []

/-- The arguments of the calls of `addString`, for any channel. -/
def globalStrings : List (Units × CompletionType) :=
  (match sources.account with
    | none => []
    | some (emotes, localEmotes) =>
      emotes.map (·, .twitchGlobalEmote) ++
        if sources.isTwitch then (localEmotes.getD []).map (·, .twitchLocalEmote) else []) ++
  sources.seventvGlobalEmotes.map (·, .seventvGlobalEmote) ++
  sources.bttvGlobalEmotes.map (·, .bttvChannelEmote) ++
  sources.ffzGlobalEmotes.map (·, .ffzChannelEmote) ++
  if start.head? = some 0x3A then
    sources.emojiShortCodes.map fun m => (0x3A :: m ++ [0x3A], .emoji)
  else []

/-- The arguments of the calls of `addString` that are made only for a `TwitchChannel`. -/
def channelStrings : List (Units × CompletionType) :=
  (usernames toLower sources start isFirstWord).map (·, .username) ++
  sources.seventvEmotes.map (·, .seventvChannelEmote) ++
  sources.bttvEmotes.map (·, .bttvGlobalEmote) ++
  sources.ffzEmotes.map (·, .bttvGlobalEmote) ++
  sources.commands.map (·, .customCommand) ++
  sources.defaultChatterinoCommands.map (·, .chatterinoCommand) ++
  twitchDefaultCommands.map (·, .twitchCommand)

/-- The elements that are inserted, in their order. -/
def emplaced : List TaggedString :=
  if start.length < 2 || !sources.isTwitchChannel then []
  else
    (globalStrings sources start ++
      if sources.isTwitch then channelStrings toLower sources start isFirstWord else []).filterMap
        (addString foldCase sources start)

/-- `items_` after `refresh` -/
def refresh : List TaggedString :=
  StdSet.insertAll (TaggedString.less foldCase) (emplaced foldCase toLower sources start isFirstWord)

end Refresh

/-! ## The form of a completion -/

section Form

variable {foldCase : Nat → Nat} {toLower : Units → Units} {sources : CompletionSources}
  {start : Units} {isFirstWord : Bool}

theorem length_le_of_startsWith {str1 str2 : Units} (h : startsWith foldCase str1 str2 = true) :
    str2.length ≤ str1.length := by
  rw [startsWith, Bool.and_eq_true] at h
  exact of_decide_eq_true h.1

theorem length_le_of_startsWithOrContains {str1 str2 : Units} {onlyStart : Bool}
    (h : startsWithOrContains foldCase str1 str2 onlyStart = true) : str2.length ≤ str1.length := by
  cases onlyStart with
  | true => exact length_le_of_startsWith h
  | false =>
    obtain ⟨tail, htail, hstarts⟩ := List.any_eq_true.mp h
    exact (length_le_of_startsWith hstarts).trans ((List.mem_tails tail str1).mp htail).length_le

/-- A name that is at least as long as what is completed, and a blank. -/
theorem string_of_addString {call : Units × CompletionType} {item : TaggedString}
    (h : addString foldCase sources start call = some item) :
    ∃ name, item.string = name ++ [0x20] ∧ start.length ≤ name.length := by
  obtain ⟨str, type⟩ := call
  rw [addString.eq_def] at h
  split at h
  · split at h
    · cases h
    · split at h
      · cases h
      · split at h
        · cases h
        · split at h
          · next hmatch =>
            obtain rfl := Option.some.inj h
            exact ⟨_, rfl, length_le_of_startsWithOrContains hmatch⟩
          · cases h
  · split at h
    · next hmatch =>
      obtain rfl := Option.some.inj h
      exact ⟨_, rfl, length_le_of_startsWithOrContains hmatch⟩
    · cases h

theorem string_of_mem_refresh {item : TaggedString}
    (h : item ∈ refresh foldCase toLower sources start isFirstWord) :
    ∃ name, item.string = name ++ [0x20] ∧ 2 ≤ name.length := by
  have hmem := StdSet.mem_of_mem_insertAll h
  rw [emplaced] at hmem
  split at hmem
  · exact absurd hmem List.not_mem_nil
  · next hlength =>
    obtain ⟨call, -, hcall⟩ := List.mem_filterMap.mp hmem
    obtain ⟨name, hstring, hle⟩ := string_of_addString hcall
    simp only [Bool.or_eq_true, decide_eq_true_eq, not_or] at hlength
    exact ⟨name, hstring, by omega⟩

end Form

/--
The comparison is a strict weak order with the emotes first, and only items with the same text and the same
`isEmote` are equivalent in it. The set has the items in order, and of everything that is inserted there is an
item with its text and its `isEmote`.
-/
theorem refresh_spec (foldCase : Nat → Nat) :
    ((∀ a, TaggedString.less foldCase a a = false) ∧
      (∀ a b, TaggedString.less foldCase a b = true → TaggedString.less foldCase b a = false) ∧
      (∀ a b c, TaggedString.less foldCase a b = true → TaggedString.less foldCase b c = true →
        TaggedString.less foldCase a c = true) ∧
      ∀ a b c, StdSet.Equivalent (TaggedString.less foldCase) a b →
        StdSet.Equivalent (TaggedString.less foldCase) b c →
          StdSet.Equivalent (TaggedString.less foldCase) a c) ∧
      (∀ a b : TaggedString, a.isEmote = true → b.isEmote = false →
        TaggedString.less foldCase a b = true ∧ TaggedString.less foldCase b a = false) ∧
      (∀ a b, StdSet.Equivalent (TaggedString.less foldCase) a b ↔
        a.string = b.string ∧ a.isEmote = b.isEmote) ∧
      ∀ (toLower : Units → Units) (sources : CompletionSources) (start : Units) (isFirstWord : Bool),
        (refresh foldCase toLower sources start isFirstWord).Pairwise
            (fun a b => TaggedString.less foldCase a b = true) ∧
          (∀ a ∈ refresh foldCase toLower sources start isFirstWord,
            a ∈ emplaced foldCase toLower sources start isFirstWord) ∧
          ∀ a ∈ emplaced foldCase toLower sources start isFirstWord,
            ∃ b ∈ refresh foldCase toLower sources start isFirstWord,
              b.string = a.string ∧ b.isEmote = a.isEmote := by
  have hless := TaggedString.strictWeak_less foldCase
  refine ⟨⟨hless.irrefl, hless.asymm, fun a b c => hless.trans, fun a b c hab hbc => ?_⟩, fun a b ha hb => ?_,
    fun a b => TaggedString.equivalent_iff,
    fun toLower sources start isFirstWord => ⟨?_, fun a ha => ?_, fun a ha => ?_⟩⟩
  · rw [TaggedString.equivalent_iff] at hab hbc ⊢
    exact ⟨hab.1.trans hbc.1, hab.2.trans hbc.2⟩
  · have hab : TaggedString.less foldCase a b = true := by
      rw [TaggedString.less, ha, hb]
      rfl
    exact ⟨hab, hless.asymm a b hab⟩
  · exact StdSet.pairwise_insertAll hless _
  · exact StdSet.mem_of_mem_insertAll ha
  · obtain ⟨b, hb, hequivalent⟩ := StdSet.exists_equivalent_mem_insertAll hless ha
    obtain ⟨hstring, hemote⟩ := TaggedString.equivalent_iff.mp hequivalent
    exact ⟨b, hb, hstring.symm, hemote.symm⟩

end CompletionModel

end Dankerino
