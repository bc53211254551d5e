import Dankerino.Filters.Types
import Dankerino.Infra.Regex

/-!
# The tokenizer

`Tokenizer` of `controllers/filters/parser/Tokenizer.cpp`. The tokens of a filter text are the
matches of `tokenRegex`, what is between them is skipped. The cursor `i_` belongs to the state of the
parser, which is the only one to move it.
-/

namespace Dankerino

open Infra

/-- The keys of `validIdentifiersMap`. -/
def validIdentifiers : List QString :=
  ["author.badges".toList, "author.color".toList, "author.name".toList, "author.no_color".toList,
    "author.subbed".toList, "author.sub_length".toList, "channel.name".toList,
    "channel.watching".toList, "channel.live".toList, "flags.highlighted".toList,
    "flags.points_redeemed".toList, "flags.sub_message".toList, "flags.system_message".toList,
    "flags.reward_message".toList, "flags.first_message".toList, "flags.whisper".toList,
    "flags.reply".toList, "message.content".toList, "message.length".toList,
    "flags.webchat_detected".toList]

/-! ## The regular expression -/

namespace TokenRegex

open Regex

/-- `\w`, which is ASCII unless the option for Unicode properties is set. -/
def isWordChar (c : Char) : Bool := c.isAlphanum || c == '_'

def quote : Regex Char := .set fun c => c == '"'

/-- `((\\")|[^\"])`: a character of a literal. -/
def literalChar : Regex Char := .alt (.seq (.set fun c => c == '\\') quote) (.set fun c => c != '"')

/-- `((r|ri)?\")((\\")|[^\"])*\"`: a string or a regular expression. -/
def literal : Regex Char :=
  .seq (.seq (.opt (.alt (.text ['r']) (.text ['r', 'i']))) quote)
    (.seq (.star literalChar) quote)

/-- `[\w\.]+`: an identifier or a reserved keyword. -/
def word : Regex Char := .plus (.set fun c => isWordChar c || c == '.')

/-- `<=?|>=?|!=?|==|\|\||&&|\+|-|\*|\/|%`. -/
def operatorUnit : Regex Char :=
  .alt (.seq (.text ['<']) (.opt (.text ['='])))
    (.alt (.seq (.text ['>']) (.opt (.text ['='])))
      (.alt (.seq (.text ['!']) (.opt (.text ['='])))
        (.alt (.text ['=', '='])
          (.alt (.text ['|', '|'])
            (.alt (.text ['&', '&'])
              (.alt (.text ['+'])
                (.alt (.text ['-'])
                  (.alt (.text ['*']) (.alt (.text ['/']) (.text ['%']))))))))))

def operator : Regex Char := .plus operatorUnit

/-- `[\(\)]`. -/
def parenthesis : Regex Char := .set fun c => c == '(' || c == ')'

/-- `[{},]`. -/
def listChar : Regex Char := .set fun c => c == '\x7b' || c == '\x7d' || c == ','

end TokenRegex

open TokenRegex in
def tokenRegex : Regex Char :=
  .alt literal (.alt word (.alt operator (.alt parenthesis listChar)))

/-! ## Tokens -/

/-- The texts that `tokenize` compares with, in its order. -/
def fixedTokens : List (QString × TokenType) :=
  [("&&".toList, .and), ("||".toList, .or), ("(".toList, .lp), (")".toList, .rp),
    ("\x7b".toList, .listStart), ("\x7d".toList, .listEnd), (",".toList, .comma),
    ("+".toList, .plus), ("-".toList, .minus), ("*".toList, .multiply), ("/".toList, .divide),
    ("==".toList, .eq), ("!=".toList, .neq), ("%".toList, .mod), ("<".toList, .lt),
    (">".toList, .gt), ("<=".toList, .lte), (">=".toList, .gte), ("contains".toList, .contains),
    ("startswith".toList, .startsWith), ("endswith".toList, .endsWith),
    ("match".toList, .regexMatch), ("!".toList, .not)]

/-- `Tokenizer::tokenize`: the type of a token. -/
def tokenize (text : QString) : TokenType :=
  match fixedTokens.lookup text with
  | some type => type
  | none =>
    if (QString.startsWith text "r\"".toList || QString.startsWith text "ri\"".toList) &&
        text.getLast? == some '"' then .regularExpression
    else if text.head? == some '"' && text.getLast? == some '"' then .string
    else if text ∈ validIdentifiers then .identifier
    else if (QString.toInt text).isSome then .int
    else .none

/-- Where the type of a token comes from. -/
theorem tokenize_cases (text : QString) :
    (text, tokenize text) ∈ fixedTokens ∨ tokenize text = .regularExpression ∨
      tokenize text = .string ∨ (tokenize text = .identifier ∧ text ∈ validIdentifiers) ∨
      (tokenize text = .int ∧ (QString.toInt text).isSome = true) ∨ tokenize text = .none := by
  unfold tokenize
  cases hlookup : fixedTokens.lookup text with
  | some type =>
    obtain ⟨front, back, hsplit, -⟩ := List.lookup_eq_some_iff.mp hlookup
    left
    rw [hsplit]
    simp
  | none =>
    right
    dsimp only
    split
    · exact .inl rfl
    · split
      · exact .inr (.inl rfl)
      · split
        · next hmem => exact .inr (.inr (.inl ⟨rfl, hmem⟩))
        · split
          · next hint => exact .inr (.inr (.inr (.inl ⟨rfl, hint⟩)))
          · exact .inr (.inr (.inr (.inr rfl)))

/-- The types of the fixed tokens are not those of the other ones. -/
theorem fixedTokens_type {text : QString} {type : TokenType} (h : (text, type) ∈ fixedTokens) :
    type ≠ .regularExpression ∧ type ≠ .string ∧ type ≠ .identifier ∧ type ≠ .int := by
  have hall : ∀ p ∈ fixedTokens, p.2 ≠ .regularExpression ∧ p.2 ≠ .string ∧ p.2 ≠ .identifier ∧
      p.2 ≠ .int := by decide
  exact hall _ h

structure Tokenizer where
  tokens : List QString
  tokenTypes : List TokenType

namespace Tokenizer

/-- The constructor. -/
def new (text : QString) : Tokenizer :=
  (tokenRegex.captures text).foldl
    (fun tokenizer capturedText =>
      { tokens := tokenizer.tokens ++ [capturedText]
        tokenTypes := tokenizer.tokenTypes ++ [tokenize capturedText] })
    { tokens := [], tokenTypes := [] }

/-- The tokens are the captures, and each has its type beside it. -/
theorem new_eq (text : QString) : new text =
    { tokens := tokenRegex.captures text
      tokenTypes := (tokenRegex.captures text).map tokenize } := by
  have hloop : ∀ (captures : List QString) (tokenizer : Tokenizer),
      captures.foldl (fun tokenizer capturedText =>
        { tokens := tokenizer.tokens ++ [capturedText]
          tokenTypes := tokenizer.tokenTypes ++ [tokenize capturedText] }) tokenizer
      = { tokens := tokenizer.tokens ++ captures
          tokenTypes := tokenizer.tokenTypes ++ captures.map tokenize } := by
    intro captures
    induction captures with
    | nil =>
      intro tokenizer
      simp
    | cons capturedText captures ih =>
      intro tokenizer
      rw [List.foldl_cons, ih]
      simp
  exact hloop _ _

end Tokenizer

end Dankerino
