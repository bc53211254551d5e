import Dankerino.Infra.Regex
import Dankerino.Messages.Message
import Dankerino.Qt.QString
import Mathlib.Data.List.Forall2
import Mathlib.Data.List.Infix
import Mathlib.Data.List.TakeWhile

/-!
# Search texts

`SearchPopup::parsePredicates` reads the text of a search as predicates, which a message has to fulfill all:
`from:name`, `in:channel`, `is:flag`, `has:link`, `regex:pattern`, and words that it contains. It cuts the text
at the matches of a regular expression, and leaves out what is between them.

* `matches_cover`: only blanks are between the matches.
* `search_render`: every search that there is room for (`Writable`) can be written as a text. What is found is then
  what the search is for.
* `isValue_of_mem`: there is room for every value that a text can have.
-/

namespace Dankerino

open Infra

namespace SearchPredicates

/-! ## The regular expression -/

/-- `\w`. -/
def isWordChar (c : Char) : Bool := c.isAlphanum || c = '_'

/-- `\s`. -/
def isBlank (c : Char) : Bool := c = ' ' || (9 ≤ c.toNat && c.toNat ≤ 13)

def isNonBlank (c : Char) : Bool := !isBlank c

/-- The groups `name` and `value`, and the whole text. -/
structure Match where
  name : QString
  value : QString
  captured : QString
deriving DecidableEq

/-- What a text starts with, if it ends in the rest. -/
def before (s rest : QString) : QString := s.take (s.length - rest.length)

/-- The lookahead `(?=$|\s)`. -/
def atEnd (rest : QString) : Bool := rest.head?.all isBlank

/-- The group `value`, `".+?"|[^\s]+`, and what is behind it. -/
def valueRegex {β : Type} (k : QString → Option β) (s : QString) : Option β :=
  (Regex.first (.set (· == '"'))
      (Regex.firstLazy (.plus (.set (· != '\n'))) (Regex.first (.set (· == '"')) k)) s).or
    (Regex.first (.plus (.set isNonBlank)) k s)

/-- `predicateRegex`, at the start of a text: `(?:(?<name>\w+):(?<value>".+?"|[^\s]+))|[^\s]+?(?=$|\s)`. -/
def predicateRegex (s : QString) : Option (Match × QString) :=
  (Regex.first (.plus (.set isWordChar)) (fun behindName =>
      Regex.first (.set (· == ':')) (fun value =>
        valueRegex (fun rest => some (⟨before s behindName, before value rest, before s rest⟩, rest)) value)
        behindName) s).or
    (Regex.firstLazy (.plus (.set isNonBlank))
      (fun rest => if atEnd rest then some (⟨[], [], before s rest⟩, rest) else none) s)

/-! ## What it matches -/

/-- Up to the next quotation mark in the line, and behind it. -/
def closing : QString → Option (QString × QString)
  | [] => none
  | c :: s => if c = '"' then some ([], s) else if c = '\n' then none else (closing s).map fun r => (c :: r.1, r.2)

/-- A value in quotation marks, which is not empty, behind the first mark. -/
def quoted : QString → Option (QString × QString)
  | [] => none
  | c :: s => if c = '\n' then none else (closing s).map fun r => (c :: r.1, r.2)

def word (s : QString) : Option (QString × QString) :=
  if s.takeWhile isNonBlank = [] then none else some (s.takeWhile isNonBlank, s.dropWhile isNonBlank)

/-- A value in quotation marks, or else a word. -/
def readValue : QString → Option (QString × QString)
  | [] => none
  | c :: s =>
    if c = '"' then ((quoted s).map fun r => ('"' :: r.1 ++ ['"'], r.2)).or (word (c :: s)) else word (c :: s)

/-- A name with a value, or else a word. -/
def readMatch (s : QString) : Option (Match × QString) :=
  ((if s.takeWhile isWordChar = [] then none
    else
      match s.dropWhile isWordChar with
      | [] => none
      | c :: value =>
        if c = ':' then
          (readValue value).map fun r =>
            (⟨s.takeWhile isWordChar, r.1, s.takeWhile isWordChar ++ ':' :: r.1⟩, r.2)
        else none)).or
    ((word s).map fun r => (⟨[], [], r.1⟩, r.2))

theorem before_of_eq {s front rest : QString} (h : s = front ++ rest) : before s rest = front := by
  simp [before, h]

section Regex

variable {β : Type} {k : QString → Option β}

theorem first_mark_of_total (hk : ∀ t, (k t).isSome) (s : QString) :
    Regex.firstLazy (.plus (.set (· != '\n'))) (Regex.first (.set (· == '"')) k) s
      = (quoted s).bind fun r => k r.2 := by
  have hstar (s : QString) :
      Regex.firstLazy (.star (.set (· != '\n'))) (Regex.first (.set (· == '"')) k) s
        = (closing s).bind fun r => k r.2 := by
    induction s with
    | nil => exact Regex.firstLazy_star_set_nil _
    | cons c s ih =>
      rw [Regex.firstLazy_star_set_cons, Regex.first_set_cons, ih, closing]
      by_cases hmark : c = '"'
      · obtain ⟨x, hx⟩ := Option.isSome_iff_exists.mp (hk s)
        simp [hmark, hx]
      · by_cases hline : c = '\n' <;> simp [hmark, hline, Option.bind_map, Function.comp_def]
  cases s with
  | nil => rfl
  | cons c s =>
    rw [Regex.firstLazy_plus_set_cons, hstar, quoted]
    by_cases hline : c = '\n' <;> simp [hline, Option.bind_map, Function.comp_def]

theorem first_word_of_total (hk : ∀ t, (k t).isSome) (s : QString) :
    Regex.first (.plus (.set isNonBlank)) k s = (word s).bind fun r => k r.2 := by
  have hgoes (c : Char) (t : QString) (_ : isNonBlank c = true) :
      (k (t.dropWhile isNonBlank)).or (k (c :: t)) = k (t.dropWhile isNonBlank) := by
    obtain ⟨x, hx⟩ := Option.isSome_iff_exists.mp (hk (t.dropWhile isNonBlank))
    rw [hx, Option.some_or]
  rw [Regex.first_plus_dropWhile hgoes, word]
  split <;> rfl

theorem valueRegex_eq (hk : ∀ t, (k t).isSome) (s : QString) :
    valueRegex k s = (readValue s).bind fun r => k r.2 := by
  rw [valueRegex, first_word_of_total hk]
  cases s with
  | nil => rfl
  | cons c s =>
    rw [Regex.first_set_cons, first_mark_of_total hk, readValue]
    by_cases hmark : c = '"'
    · simp only [hmark, beq_self_eq_true, if_true]
      cases quoted s with
      | none => rfl
      | some r =>
        obtain ⟨x, hx⟩ := Option.isSome_iff_exists.mp (hk r.2)
        simp [hx]
    · simp [hmark]

end Regex

theorem append_of_word {s : QString} {r : QString × QString} (h : word s = some r) :
    s = r.1 ++ r.2 ∧ r.1 ≠ [] := by
  rw [word] at h
  split at h
  · simp at h
  · next hne =>
    rw [← Option.some.inj h]
    exact ⟨List.takeWhile_append_dropWhile.symm, hne⟩

theorem append_of_closing {s : QString} {r : QString × QString} (h : closing s = some r) :
    s = r.1 ++ '"' :: r.2 := by
  induction s generalizing r with
  | nil => simp [closing] at h
  | cons c s ih =>
    rw [closing] at h
    split at h
    · next hmark => simp [← Option.some.inj h, hmark]
    · split at h
      · simp at h
      · obtain ⟨r', hr', rfl⟩ := Option.map_eq_some_iff.mp h
        rw [List.cons_append, ← ih hr']

theorem append_of_readValue {s : QString} {r : QString × QString} (h : readValue s = some r) : s = r.1 ++ r.2 := by
  cases s with
  | nil => simp [readValue] at h
  | cons c s =>
    rw [readValue] at h
    split at h
    · next hmark =>
      rcases Option.or_eq_some_iff.mp h with hquoted | ⟨-, hword⟩
      · obtain ⟨r', hr', rfl⟩ := Option.map_eq_some_iff.mp hquoted
        cases s with
        | nil => simp [quoted] at hr'
        | cons d s =>
          rw [quoted] at hr'
          split at hr'
          · simp at hr'
          · obtain ⟨r'', hr'', rfl⟩ := Option.map_eq_some_iff.mp hr'
            simp [hmark, append_of_closing hr'']
      · exact (append_of_word hword).1
    · exact (append_of_word h).1

theorem atEnd_dropWhile (s : QString) : atEnd (s.dropWhile isNonBlank) = true := by
  have h := List.head?_dropWhile_not isNonBlank s
  rw [atEnd]
  cases hhead : (s.dropWhile isNonBlank).head? with
  | none => rfl
  | some c =>
    rw [hhead] at h
    simpa [isNonBlank] using h

/-- The regular expression matches a name with a value, or else a word. -/
theorem predicateRegex_eq (s : QString) : predicateRegex s = readMatch s := by
  have hsplit : s = s.takeWhile isWordChar ++ s.dropWhile isWordChar := List.takeWhile_append_dropWhile.symm
  rw [predicateRegex, readMatch]
  congr 1
  · rw [Regex.first_plus_dropWhile]
    · split
      · rfl
      · cases hrest : s.dropWhile isWordChar with
        | nil => rfl
        | cons c value =>
          rw [hrest] at hsplit
          rw [Regex.first_set_cons]
          dsimp only
          by_cases hcolon : c = ':'
          · subst hcolon
            rw [if_pos (beq_self_eq_true _), if_pos rfl, valueRegex_eq (fun _ => rfl)]
            cases hvalue : readValue value with
            | none => rfl
            | some r =>
              have happend := append_of_readValue hvalue
              have hwhole : s = (s.takeWhile isWordChar ++ ':' :: r.1) ++ r.2 := by
                rw [List.append_assoc, List.cons_append, ← happend]
                exact hsplit
              simp [before_of_eq hsplit, before_of_eq happend, before_of_eq hwhole]
          · rw [if_neg hcolon, if_neg (by simpa using hcolon)]
    · intro c t hc
      have hne : (c == ':') = false := by
        refine beq_eq_false_iff_ne.mpr ?_
        rintro rfl
        exact absurd hc (by decide)
      rw [Regex.first_set_cons, hne, if_neg Bool.false_ne_true, Option.or_none]
  · rw [Regex.firstLazy_plus_dropWhile, word]
    · split
      · rfl
      · have hwhole : s = s.takeWhile isNonBlank ++ s.dropWhile isNonBlank :=
          List.takeWhile_append_dropWhile.symm
        rw [atEnd_dropWhile, if_pos rfl, before_of_eq hwhole]
        rfl
    · intro c t hc
      simp only [isNonBlank, Bool.not_eq_true'] at hc
      simp [atEnd, hc]

theorem append_of_readMatch {s rest : QString} {m : Match} (h : readMatch s = some (m, rest)) :
    s = m.captured ++ rest ∧ m.captured ≠ [] := by
  rw [readMatch] at h
  rcases Option.or_eq_some_iff.mp h with h | ⟨-, h⟩
  · split at h
    · simp at h
    · next hne =>
      split at h
      · simp at h
      · next c value hrest =>
        split at h
        · next hcolon =>
          obtain ⟨r, hr, heq⟩ := Option.map_eq_some_iff.mp h
          obtain ⟨rfl, rfl⟩ := Prod.mk.injEq .. ▸ heq
          refine ⟨?_, by simp⟩
          rw [List.append_assoc, List.cons_append, ← append_of_readValue hr, ← hcolon, ← hrest,
            List.takeWhile_append_dropWhile]
        · simp at h
  · obtain ⟨r, hr, heq⟩ := Option.map_eq_some_iff.mp h
    obtain ⟨rfl, rfl⟩ := Prod.mk.injEq .. ▸ heq
    exact append_of_word hr

theorem length_of_predicateRegex {s rest : QString} {m : Match} (h : predicateRegex s = some (m, rest)) :
    rest.length < s.length := by
  rw [predicateRegex_eq] at h
  obtain ⟨hsplit, hne⟩ := append_of_readMatch h
  have hpos := List.length_pos_iff.mpr hne
  rw [hsplit, List.length_append]
  omega

/-- `globalMatch`. -/
def matchesOf (s : QString) : List Match :=
  match s with
  | [] => []
  | c :: s =>
    match _h : predicateRegex (c :: s) with
    | some (m, rest) => m :: matchesOf rest
    | none => matchesOf s
termination_by s.length
decreasing_by
  · exact length_of_predicateRegex _h
  · simp

/-- The texts make up the text, with blanks between them. -/
inductive Cover : QString → List QString → Prop
  | nil : Cover [] []
  | blank {c : Char} {s : QString} {texts : List QString} : isBlank c → Cover s texts → Cover (c :: s) texts
  | text {text s : QString} {texts : List QString} : Cover s texts → Cover (text ++ s) (text :: texts)

theorem matchesOf_of_some {c : Char} {s rest : QString} {m : Match} (h : readMatch (c :: s) = some (m, rest)) :
    matchesOf (c :: s) = m :: matchesOf rest := by
  rw [← predicateRegex_eq] at h
  rw [matchesOf]
  split
  · next heq =>
    obtain ⟨rfl, rfl⟩ := Prod.mk.injEq .. ▸ Option.some.inj (h.symm.trans heq)
    rfl
  · next heq => simp [h] at heq

theorem isBlank_of_readMatch {c : Char} {s : QString} (h : readMatch (c :: s) = none) : isBlank c = true := by
  obtain ⟨-, h⟩ := Option.or_eq_none_iff.mp h
  rw [Option.map_eq_none_iff, word] at h
  split at h
  · next hnil =>
    rw [List.takeWhile_cons] at hnil
    split at hnil
    · simp at hnil
    · next hblank => simpa [isNonBlank] using hblank
  · simp at h

theorem matchesOf_of_none {c : Char} {s : QString} (h : readMatch (c :: s) = none) :
    matchesOf (c :: s) = matchesOf s := by
  rw [← predicateRegex_eq] at h
  rw [matchesOf]
  split
  · next heq => simp [h] at heq
  · rfl

/-- **Nothing of the text is lost.** Whatever is searched for, the matches and blanks make up the text. -/
theorem matches_cover (s : QString) : Cover s ((matchesOf s).map Match.captured) := by
  generalize hn : s.length = n
  induction n using Nat.strongRecOn generalizing s with
  | ind n ih =>
    cases s with
    | nil =>
      rw [matchesOf]
      exact .nil
    | cons c s =>
      cases hmatch : readMatch (c :: s) with
      | none =>
        rw [matchesOf_of_none hmatch]
        exact .blank (isBlank_of_readMatch hmatch) (ih s.length (by simp [← hn]) s rfl)
      | some r =>
        obtain ⟨m, rest⟩ := r
        obtain ⟨hsplit, hne⟩ := append_of_readMatch hmatch
        have hlength := congrArg List.length hsplit
        have hpos := List.length_pos_iff.mpr hne
        rw [List.length_append] at hlength
        rw [matchesOf_of_some hmatch, hsplit]
        exact .text (ih rest.length (by omega) rest rfl)

/-! ## The predicates -/

/-- What the predicates look at in a message. -/
structure SearchMessage where
  displayName : QString
  loginName : QString
  channelName : QString
  messageText : QString
  searchText : QString
  flags : MessageFlags

/-- How texts are compared. -/
structure Context where
  /-- `compare(…, Qt::CaseInsensitive) == 0`. -/
  equals : QString → QString → Bool
  /-- `contains(…, Qt::CaseInsensitive)`. -/
  contains : QString → QString → Bool
  /-- Whether a valid regular expression matches in the text. -/
  regexMatches : QString → QString → Bool
  /-- `LinkParser(word).hasMatch()`. -/
  hasLink : QString → Bool

variable (context : Context)

/-- `split(',', Qt::SkipEmptyParts)`. -/
def splitCommas (s : QString) : List QString := (s.splitOn ',').filter fun part => !part.isEmpty

def AuthorPredicate (authors : List QString) (m : SearchMessage) : Bool :=
  let authors_ := authors.flatMap splitCommas
  authors_.any (context.equals m.displayName) || authors_.any (context.equals m.loginName)

def ChannelPredicate (channels : List QString) (m : SearchMessage) : Bool :=
  (channels.flatMap splitCommas).any (context.equals m.channelName)

def LinkPredicate (m : SearchMessage) : Bool :=
  ((m.messageText.splitOn ' ').filter fun word => !word.isEmpty).any context.hasLink

def flagOf (flag : QString) : Option MessageFlag :=
  if flag = "deleted".toList ∨ flag = "disabled".toList then some .disabled
  else if flag = "sub".toList ∨ flag = "subscription".toList then some .subscription
  else if flag = "timeout".toList ∨ flag = "ban".toList then some .timeout
  else if flag = "highlighted".toList then some .highlighted
  else if flag = "system".toList then some .system
  else if flag = "first-msg".toList then some .firstMessage
  else none

def MessageFlagsPredicate (flags : QString) (m : SearchMessage) : Bool :=
  let flags_ : MessageFlags := (splitCommas flags).filterMap flagOf
  let hasAny := m.flags.any fun flag => flags_.has flag
  if flags_.has .system && !flags_.has .timeout then hasAny && !m.flags.has .timeout else hasAny

def RegexPredicate (regex : QString) (m : SearchMessage) : Bool := context.regexMatches regex m.messageText

def SubstringPredicate (search : QString) (m : SearchMessage) : Bool := context.contains m.searchText search

/-- `value.remove(trimQuotationMarksRegex)`. -/
def trimQuotationMarks (value : QString) : QString :=
  let value := if value.head? = some '"' then value.tail else value
  if value.getLast? = some '"' then value.dropLast else value

/-- The variables of `parsePredicates`. -/
structure Parsed where
  predicates : List (SearchMessage → Bool)
  authors : List QString
  channels : List QString

/-- One turn of the loop over the matches. -/
def addMatch (parsed : Parsed) (m : Match) : Parsed :=
  let value := trimQuotationMarks m.value
  if m.name = "from".toList then { parsed with authors := parsed.authors ++ [value] }
  else if m.name = "has".toList ∧ value = "link".toList then
    { parsed with predicates := parsed.predicates ++ [LinkPredicate context] }
  else if m.name = "in".toList then { parsed with channels := parsed.channels ++ [value] }
  else if m.name = "is".toList then
    { parsed with predicates := parsed.predicates ++ [MessageFlagsPredicate value] }
  else if m.name = "regex".toList then
    { parsed with predicates := parsed.predicates ++ [RegexPredicate context value] }
  else { parsed with predicates := parsed.predicates ++ [SubstringPredicate context m.captured] }

def parsePredicates (input : QString) : List (SearchMessage → Bool) :=
  let parsed := (matchesOf input).foldl (addMatch context) ⟨[], [], []⟩
  parsed.predicates ++ (if parsed.authors.isEmpty then [] else [AuthorPredicate context parsed.authors]) ++
    (if parsed.channels.isEmpty then [] else [ChannelPredicate context parsed.channels])

/-- The loop over the predicates in `filter`. -/
def accepts (predicates : List (SearchMessage → Bool)) (m : SearchMessage) : Bool := predicates.all (· m)

/-! ## Searches -/

/-- What can be searched for. -/
inductive Term
  | fromAuthors (authors : List QString)
  | inChannels (channels : List QString)
  | isFlags (flags : List QString)
  | hasLink
  | regex (pattern : QString)
  | text (text : QString)

namespace Term

/-- Names are separated by commas. -/
def joined (names : List QString) : QString := List.intercalate [','] names

/-- A value with quotation marks around it, unless it has some that would end it. -/
def written (value : QString) : QString :=
  if '"' ∈ value.tail then value ++ (if value.getLast? = some '"' then ['"'] else []) else '"' :: value ++ ['"']

def named (name : String) (value : QString) : QString := name.toList ++ ':' :: written value

def render : Term → QString
  | fromAuthors authors => named "from" (joined authors)
  | inChannels channels => named "in" (joined channels)
  | isFlags flags => named "is" (joined flags)
  | hasLink => "has:link".toList
  | regex pattern => named "regex" pattern
  | text t => t

/-- A value that can stand in quotation marks, or without them. -/
def IsValue (value : QString) : Prop :=
  value ≠ [] ∧ (('"' ∉ value.tail ∧ '\n' ∉ value) ∨
    ((∀ c ∈ value, isBlank c = false) ∧ value.head? ≠ some '"'))

def AreNames (names : List QString) : Prop :=
  names ≠ [] ∧ (∀ name ∈ names, name ≠ [] ∧ ',' ∉ name) ∧ IsValue (joined names)

/-- A name and a value that are not part of a text. -/
def IsKey (name value : QString) : Prop :=
  name ∈ ["from".toList, "in".toList, "is".toList, "regex".toList] ∨
    (name = "has".toList ∧ trimQuotationMarks value = "link".toList)

/-- The quotation mark that a value starts with is closed by its end, or by nothing in the text behind it. -/
def IsClosed (value behind : QString) : Prop :=
  value.head? = some '"' →
    (∃ c inner, value = '"' :: c :: (inner ++ ['"']) ∧ '"' ∉ inner) ∨ ('"' ∉ value.drop 2 ∧ '"' ∉ behind)

/-- There is room for the term in front of the text. -/
def WellFormed (behind : QString) : Term → Prop
  | fromAuthors authors => AreNames authors
  | inChannels channels => AreNames channels
  | isFlags flags => AreNames flags
  | hasLink => True
  | regex pattern => IsValue pattern
  | text t => t ≠ [] ∧ (∀ c ∈ t, isBlank c = false) ∧
      ∀ value, t.takeWhile isWordChar ≠ [] → t.dropWhile isWordChar = ':' :: value → value ≠ [] →
        ¬ IsKey (t.takeWhile isWordChar) value ∧ IsClosed value behind

end Term

/-- The text of a search: the terms with blanks between them. -/
def render (terms : List Term) : QString := List.intercalate [' '] (terms.map Term.render)

def Writable : List Term → Prop
  | [] => True
  | t :: terms => t.WellFormed (render terms) ∧ Writable terms

/-- One of the flags. The flag of system messages does not stand for timeouts. -/
def HasFlags (flags : List QString) (m : SearchMessage) : Prop :=
  (∃ flag ∈ flags.filterMap flagOf, flag ∈ m.flags) ∧
    (.system ∈ flags.filterMap flagOf → .timeout ∉ flags.filterMap flagOf → .timeout ∉ m.flags)

/-- Whether a message is searched for: every term but the ones for authors and channels holds of it, and of the
authors, and of the channels, one does if there are any. -/
structure Holds (terms : List Term) (m : SearchMessage) : Prop where
  text : ∀ text, .text text ∈ terms → context.contains m.searchText text = true
  regex : ∀ pattern, .regex pattern ∈ terms → context.regexMatches pattern m.messageText = true
  link : .hasLink ∈ terms → LinkPredicate context m = true
  flags : ∀ flags, .isFlags flags ∈ terms → HasFlags flags m
  authors : (∃ authors, .fromAuthors authors ∈ terms) → ∃ authors, .fromAuthors authors ∈ terms ∧
    ∃ author ∈ authors, context.equals m.displayName author = true ∨ context.equals m.loginName author = true
  channels : (∃ channels, .inChannels channels ∈ terms) → ∃ channels, .inChannels channels ∈ terms ∧
    ∃ channel ∈ channels, context.equals m.channelName channel = true

/-! ## Reading a search -/

theorem splitCommas_joined {names : List QString} (h : Term.AreNames names) :
    splitCommas (Term.joined names) = names := by
  obtain ⟨hne, hnames, -⟩ := h
  have hcomma : ∀ name ∈ names, ',' ∉ name := fun name hname => (hnames name hname).2
  rw [splitCommas, Term.joined, List.splitOn_intercalate ',' hcomma hne, List.filter_eq_self]
  intro name hname
  simpa using (hnames name hname).1

theorem closing_append {value : QString} (hmark : '"' ∉ value) (hline : '\n' ∉ value) (rest : QString) :
    closing (value ++ '"' :: rest) = some (value, rest) := by
  induction value with
  | nil => simp [closing]
  | cons c value ih =>
    rw [List.mem_cons, not_or] at hmark hline
    rw [List.cons_append, closing, if_neg (Ne.symm hmark.1), if_neg (Ne.symm hline.1), ih hmark.2 hline.2]
    rfl

/-- Nothing is closed without a quotation mark. -/
theorem closing_of_notMem {s : QString} (h : '"' ∉ s) : closing s = none := by
  cases hclosing : closing s with
  | none => rfl
  | some r => exact absurd (by simp [append_of_closing hclosing]) h

theorem readMatch_value {name value : QString} (hname : name ≠ []) (hword : ∀ c ∈ name, isWordChar c = true)
    {r : QString × QString} (h : readValue value = some r) :
    readMatch (name ++ ':' :: value) = some (⟨name, r.1, name ++ ':' :: r.1⟩, r.2) := by
  have hcolon : isWordChar ':' = false := by decide
  have htake : (name ++ ':' :: value).takeWhile isWordChar = name := by
    rw [List.takeWhile_append_of_pos hword, List.takeWhile_cons_of_neg (by simp [hcolon]), List.append_nil]
  have hdrop : (name ++ ':' :: value).dropWhile isWordChar = ':' :: value := by
    rw [List.dropWhile_append_of_pos hword, List.dropWhile_cons_of_neg (by simp [hcolon])]
  rw [readMatch, htake, hdrop, if_neg hname]
  simp [h]

/-- A run of characters ends where the text that follows has none at its start. -/
theorem takeWhile_append_of_stop {p : Char → Bool} {rest : QString} (h : ∀ c, rest.head? = some c → p c = false)
    (s : QString) :
    (s ++ rest).takeWhile p = s.takeWhile p ∧ (s ++ rest).dropWhile p = s.dropWhile p ++ rest := by
  induction s with
  | nil =>
    cases rest with
    | nil => exact ⟨rfl, rfl⟩
    | cons c rest => simp [h c rfl]
  | cons c s ih =>
    by_cases hc : p c = true
    · simp [hc, ih]
    · simp [hc]

/-- The text behind a term. -/
def Follows (rest : QString) : Prop := ∀ c, rest.head? = some c → isBlank c = true

theorem word_append {s rest : QString} (hne : s ≠ []) (hs : ∀ c ∈ s, isBlank c = false) (hrest : Follows rest) :
    word (s ++ rest) = some (s, rest) := by
  have hnon : ∀ c ∈ s, isNonBlank c = true := fun c hc => by simp [isNonBlank, hs c hc]
  obtain ⟨htake, hdrop⟩ := takeWhile_append_of_stop (p := isNonBlank)
    (fun c hc => by simp [isNonBlank, hrest c hc]) []
  rw [List.nil_append] at htake hdrop
  rw [word, List.takeWhile_append_of_pos hnon, List.dropWhile_append_of_pos hnon, htake, hdrop,
    List.takeWhile_nil, List.append_nil, List.dropWhile_nil, List.nil_append, if_neg hne]

theorem word_of_follows {rest : QString} (h : Follows rest) : word rest = none := by
  cases rest with
  | nil => rfl
  | cons c rest => simp [word, isNonBlank, h c rfl]

theorem isWordChar_of_blank {c : Char} (h : isBlank c = true) : isWordChar c = false := by
  have hc : Char.ofNat c.toNat = c := Char.ofNat_toNat c
  have hcases : c.toNat = 32 ∨ c.toNat = 9 ∨ c.toNat = 10 ∨ c.toNat = 11 ∨ c.toNat = 12 ∨ c.toNat = 13 := by
    simp only [isBlank, Bool.or_eq_true, decide_eq_true_eq, Bool.and_eq_true] at h
    rcases h with rfl | ⟨hlow, hhigh⟩
    · exact .inl rfl
    · omega
  rcases hcases with h | h | h | h | h | h <;> (rw [← hc, h]; decide)

theorem readMatch_of_blank {c : Char} (h : isBlank c = true) (s : QString) : readMatch (c :: s) = none := by
  simp [readMatch, word, isNonBlank, h, isWordChar_of_blank h]

/-- A value without a quotation mark in front goes to the next blank. -/
theorem readValue_of_word {value rest : QString} (hne : value ≠ []) (hvalue : ∀ c ∈ value, isBlank c = false)
    (hmark : value.head? ≠ some '"') (hrest : Follows rest) : readValue (value ++ rest) = some (value, rest) := by
  cases value with
  | nil => exact absurd rfl hne
  | cons c value =>
    have hc : c ≠ '"' := fun heq => hmark (by rw [heq]; rfl)
    have hword := word_append hne hvalue hrest
    rw [List.cons_append] at hword ⊢
    rw [readValue, if_neg hc, hword]

theorem trimQuotationMarks_quoted (value : QString) : trimQuotationMarks ('"' :: value ++ ['"']) = value := by
  simp [trimQuotationMarks]

theorem readValue_written {value : QString} (h : Term.IsValue value) {rest : QString} (hrest : Follows rest) :
    readValue (Term.written value ++ rest) = some (Term.written value, rest) ∧
      trimQuotationMarks (Term.written value) = value := by
  obtain ⟨hne, hvalue⟩ := h
  unfold Term.written
  split
  · next hmem =>
    obtain ⟨hblank, hmark⟩ := hvalue.resolve_left fun hquoted => hquoted.1 hmem
    have hhead {behind : QString} : (value ++ behind).head? ≠ some '"' := by
      rwa [List.head?_append_of_ne_nil _ hne]
    split
    · next hlast =>
      refine ⟨readValue_of_word (by simp) (fun c hc => ?_) hhead hrest, ?_⟩
      · rcases List.mem_append.mp hc with hc | hc
        · exact hblank c hc
        · rw [List.mem_singleton.mp hc]
          rfl
      · rw [trimQuotationMarks, if_neg hhead]
        simp
    · next hlast =>
      rw [List.append_nil]
      exact ⟨readValue_of_word hne hblank hmark hrest, by simp [trimQuotationMarks, hmark, hlast]⟩
  · next hnone =>
    refine ⟨?_, trimQuotationMarks_quoted value⟩
    have hline : '\n' ∉ value := by
      rcases hvalue with ⟨-, hline⟩ | ⟨hblank, -⟩
      · exact hline
      · exact fun hmem => absurd (hblank _ hmem) (by decide)
    obtain ⟨c, value, rfl⟩ := List.exists_cons_of_ne_nil hne
    rw [List.mem_cons, not_or] at hline
    have hclosing : closing (value ++ '"' :: rest) = some (value, rest) := closing_append hnone hline.2 rest
    simp [readValue, quoted, hclosing, Ne.symm hline.1]

/-! ## Values that are read -/

theorem notMem_of_closing {s : QString} {r : QString × QString} (h : closing s = some r) :
    '"' ∉ r.1 ∧ '\n' ∉ r.1 := by
  induction s generalizing r with
  | nil => simp [closing] at h
  | cons c s ih =>
    rw [closing] at h
    split at h
    · rw [← Option.some.inj h]
      exact ⟨nofun, nofun⟩
    · next hmark =>
      split at h
      · simp at h
      · next hline =>
        obtain ⟨r', hr', rfl⟩ := Option.map_eq_some_iff.mp h
        obtain ⟨hmark', hline'⟩ := ih hr'
        simp [hmark', hline', Ne.symm hmark, Ne.symm hline]

/-- What is not closed has no quotation mark in its first word. -/
theorem notMem_of_closing_eq_none {s : QString} (h : closing s = none) : '"' ∉ s.takeWhile isNonBlank := by
  induction s with
  | nil => exact nofun
  | cons c s ih =>
    rw [closing] at h
    split at h
    · simp at h
    · next hmark =>
      rw [List.takeWhile_cons]
      split at h
      · next hline =>
        rw [if_neg (by rw [hline]; decide)]
        exact nofun
      · split
        · rw [List.mem_cons, not_or]
          exact ⟨Ne.symm hmark, ih (Option.map_eq_none_iff.mp h)⟩
        · exact nofun

theorem isBlank_of_mem_takeWhile {s : QString} {c : Char} (h : c ∈ s.takeWhile isNonBlank) :
    isBlank c = false := by
  simpa [isNonBlank] using List.mem_takeWhile_imp h

theorem isValue_of_word {value : QString} (hvalue : ∀ c ∈ value, isBlank c = false)
    (hmark : value.head? ≠ some '"') :
    trimQuotationMarks value = [] ∨ Term.IsValue (trimQuotationMarks value) := by
  refine or_iff_not_imp_left.mpr fun hne => ⟨hne, .inr ?_⟩
  rw [trimQuotationMarks, if_neg hmark] at hne ⊢
  split
  · next hlast =>
    rw [if_pos hlast] at hne
    obtain ⟨front, rfl⟩ := List.getLast?_eq_some_iff.mp hlast
    rw [List.dropLast_concat] at hne ⊢
    rw [List.head?_append_of_ne_nil _ hne] at hmark
    exact ⟨fun c hc => hvalue c (List.mem_append_left _ hc), hmark⟩
  · exact ⟨hvalue, hmark⟩

/-- A value whose quotation mark is not closed. -/
theorem isValue_of_open {s : QString} (h : quoted s = none) :
    trimQuotationMarks ('"' :: s.takeWhile isNonBlank) = [] ∨
      Term.IsValue (trimQuotationMarks ('"' :: s.takeWhile isNonBlank)) := by
  refine or_iff_not_imp_left.mpr fun hne => ⟨hne, .inl ?_⟩
  have hline : ∀ {t : QString}, (∀ c ∈ t, c ∈ s.takeWhile isNonBlank) → '\n' ∉ t := fun ht hmem =>
    absurd (isBlank_of_mem_takeWhile (ht _ hmem)) (by decide)
  have hmark : '"' ∉ (s.takeWhile isNonBlank).tail := by
    cases s with
    | nil => exact nofun
    | cons c s =>
      rw [quoted] at h
      rw [List.takeWhile_cons]
      split
      · next hblank =>
        split at h
        · next hc =>
          rw [hc] at hblank
          exact absurd hblank (by decide)
        · exact notMem_of_closing_eq_none (Option.map_eq_none_iff.mp h)
      · exact nofun
  rw [trimQuotationMarks, List.head?_cons, if_pos rfl, List.tail_cons] at hne ⊢
  split
  · refine ⟨fun hmem => hmark ?_, hline fun c hc => List.mem_of_mem_dropLast hc⟩
    rw [List.tail_dropLast] at hmem
    exact List.mem_of_mem_dropLast hmem
  · exact ⟨hmark, hline fun c hc => hc⟩

theorem isValue_of_readValue {s : QString} {r : QString × QString} (h : readValue s = some r) :
    trimQuotationMarks r.1 = [] ∨ Term.IsValue (trimQuotationMarks r.1) := by
  have hword {r : QString × QString} (h : word s = some r) : r.1 = s.takeWhile isNonBlank := by
    rw [word] at h
    split at h
    · simp at h
    · rw [← Option.some.inj h]
  cases s with
  | nil => simp [readValue] at h
  | cons c s =>
    rw [readValue] at h
    split at h
    · next hc =>
      subst hc
      rcases Option.or_eq_some_iff.mp h with h | ⟨hquoted, h⟩
      · obtain ⟨r', hr', rfl⟩ := Option.map_eq_some_iff.mp h
        right
        rw [trimQuotationMarks_quoted]
        cases s with
        | nil => simp [quoted] at hr'
        | cons d s =>
          rw [quoted] at hr'
          split at hr'
          · simp at hr'
          · next hline =>
            obtain ⟨r'', hr'', rfl⟩ := Option.map_eq_some_iff.mp hr'
            obtain ⟨hmark, hline'⟩ := notMem_of_closing hr''
            refine ⟨List.cons_ne_nil _ _, .inl ⟨hmark, ?_⟩⟩
            rw [List.mem_cons, not_or]
            exact ⟨Ne.symm hline, hline'⟩
      · rw [hword h]
        exact isValue_of_open (Option.map_eq_none_iff.mp hquoted)
    · next hc =>
      rw [hword h]
      refine isValue_of_word (fun d hd => isBlank_of_mem_takeWhile hd) fun hhead => hc ?_
      rw [List.takeWhile_cons] at hhead
      split at hhead
      · exact Option.some.inj hhead
      · simp at hhead

theorem exists_readMatch_of_mem {s : QString} {m : Match} (h : m ∈ matchesOf s) :
    ∃ t rest, readMatch t = some (m, rest) := by
  generalize hn : s.length = n at h
  induction n using Nat.strongRecOn generalizing s with
  | ind n ih =>
    cases s with
    | nil =>
      rw [matchesOf] at h
      cases h
    | cons c s =>
      cases hmatch : readMatch (c :: s) with
      | none =>
        rw [matchesOf_of_none hmatch] at h
        exact ih s.length (by simp [← hn]) h rfl
      | some r =>
        obtain ⟨m', rest⟩ := r
        obtain ⟨hsplit, hne⟩ := append_of_readMatch hmatch
        have hlength := congrArg List.length hsplit
        have hpos := List.length_pos_iff.mpr hne
        rw [List.length_append] at hlength
        rw [matchesOf_of_some hmatch] at h
        rcases List.mem_cons.mp h with rfl | h
        · exact ⟨_, _, hmatch⟩
        · exact ih rest.length (by omega) h rfl

/-- A search text has no other values than those that there is room for. -/
theorem isValue_of_mem {s : QString} {m : Match} (h : m ∈ matchesOf s) (hname : m.name ≠ []) :
    trimQuotationMarks m.value = [] ∨ Term.IsValue (trimQuotationMarks m.value) := by
  obtain ⟨t, rest, hread⟩ := exists_readMatch_of_mem h
  rw [readMatch] at hread
  rcases Option.or_eq_some_iff.mp hread with hread | ⟨-, hread⟩
  · split at hread
    · simp at hread
    · split at hread
      · simp at hread
      · split at hread
        · obtain ⟨r, hr, heq⟩ := Option.map_eq_some_iff.mp hread
          obtain ⟨rfl, -⟩ := Prod.mk.injEq .. ▸ heq
          exact isValue_of_readValue hr
        · simp at hread
  · obtain ⟨r, -, heq⟩ := Option.map_eq_some_iff.mp hread
    obtain ⟨rfl, -⟩ := Prod.mk.injEq .. ▸ heq
    exact absurd rfl hname

/-! ## Terms that are read -/

/-- What a match says that was made of a term. -/
def Reads : Term → Match → Prop
  | .fromAuthors authors, m => m.name = "from".toList ∧ trimQuotationMarks m.value = Term.joined authors
  | .inChannels channels, m => m.name = "in".toList ∧ trimQuotationMarks m.value = Term.joined channels
  | .isFlags flags, m => m.name = "is".toList ∧ trimQuotationMarks m.value = Term.joined flags
  | .hasLink, m => m.name = "has".toList ∧ trimQuotationMarks m.value = "link".toList
  | .regex pattern, m => m.name = "regex".toList ∧ trimQuotationMarks m.value = pattern
  | .text t, m => m.captured = t ∧ ¬ Term.IsKey m.name m.value

/-- A value of a text that is closed ends with it. -/
theorem readValue_of_closed {value rest : QString} (hne : value ≠ []) (hvalue : ∀ c ∈ value, isBlank c = false)
    (h : Term.IsClosed value rest) (hrest : Follows rest) : readValue (value ++ rest) = some (value, rest) := by
  by_cases hmark : value.head? = some '"'
  · rcases h hmark with ⟨c, inner, rfl, hinner⟩ | ⟨hnone, hbehind⟩
    · have hline : ∀ d ∈ c :: inner, d ≠ '\n' := by
        rintro d hd rfl
        exact absurd (hvalue '\n' (by simp_all)) (by decide)
      have hclosing := closing_append hinner (fun hmem => hline _ (List.mem_cons_of_mem _ hmem) rfl) rest
      simp [readValue, quoted, hclosing, hline c List.mem_cons_self]
    · cases value with
      | nil => exact absurd rfl hne
      | cons d value =>
        obtain rfl : d = '"' := Option.some.inj hmark
        have hquoted : quoted (value ++ rest) = none := by
          cases hboth : value ++ rest with
          | nil => rfl
          | cons c s =>
            have hs : '"' ∉ s := by
              cases value with
              | nil =>
                rw [List.nil_append] at hboth
                exact fun hmem => hbehind (by rw [hboth]; exact List.mem_cons_of_mem _ hmem)
              | cons c' value =>
                obtain ⟨-, rfl⟩ := List.cons.inj hboth
                exact fun hmem => (List.mem_append.mp hmem).elim hnone hbehind
            rw [quoted, closing_of_notMem hs]
            simp
        have hword := word_append hne hvalue hrest
        rw [List.cons_append] at hword ⊢
        rw [readValue, if_pos rfl, hquoted, hword]
        rfl
  · exact readValue_of_word hne hvalue hmark hrest

/-- A word that is no predicate. -/
theorem readMatch_text {t rest : QString} (h : (Term.text t).WellFormed rest) (hrest : Follows rest) :
    ∃ m, readMatch (t ++ rest) = some (m, rest) ∧ Reads (.text t) m := by
  obtain ⟨hne, hblank, hkey⟩ := h
  obtain ⟨htake, hdrop⟩ := takeWhile_append_of_stop (p := isWordChar)
    (fun c hc => isWordChar_of_blank (hrest c hc)) t
  have hsplit : t.takeWhile isWordChar ++ t.dropWhile isWordChar = t := List.takeWhile_append_dropWhile
  have hword : ((word (t ++ rest)).map fun r => ((⟨[], [], r.1⟩ : Match), r.2)) = some (⟨[], [], t⟩, rest) := by
    rw [word_append hne hblank hrest]
    rfl
  have hplain : Reads (.text t) ⟨[], [], t⟩ := ⟨rfl, by simp [Term.IsKey]⟩
  rw [readMatch, htake, hdrop, hword]
  split
  · exact ⟨_, rfl, hplain⟩
  · next hname =>
    cases hbehind : t.dropWhile isWordChar with
    | nil =>
      cases rest with
      | nil => exact ⟨_, rfl, hplain⟩
      | cons c rest =>
        have hcolon : c ≠ ':' := by
          rintro rfl
          exact absurd (hrest ':' rfl) (by decide)
        simp only [List.nil_append, if_neg hcolon, Option.none_or]
        exact ⟨_, rfl, hplain⟩
    | cons c value =>
      rw [hbehind] at hsplit
      rw [List.cons_append]
      dsimp only
      by_cases hcolon : c = ':'
      · subst hcolon
        rw [if_pos rfl]
        by_cases hempty : value = []
        · have hnone : readValue rest = none := by
            cases rest with
            | nil => rfl
            | cons d rest =>
              have hd : d ≠ '"' := by
                rintro rfl
                exact absurd (hrest '"' rfl) (by decide)
              rw [readValue, if_neg hd, word_of_follows hrest]
          rw [hempty, List.nil_append, hnone]
          exact ⟨_, rfl, hplain⟩
        · have hvalue : ∀ c ∈ value, isBlank c = false := fun c hc => hblank c (by
            rw [← hsplit]
            simp [hc])
          obtain ⟨hnot, hclosed⟩ := hkey value hname hbehind hempty
          rw [readValue_of_closed hempty hvalue hclosed hrest]
          exact ⟨_, rfl, hsplit, hnot⟩
      · rw [if_neg hcolon, Option.none_or]
        exact ⟨_, rfl, hplain⟩

theorem readMatch_render {t : Term} {rest : QString} (h : t.WellFormed rest) (hrest : Follows rest) :
    ∃ m, readMatch (t.render ++ rest) = some (m, rest) ∧ Reads t m := by
  have hnamed (name : String) (hname : name.toList ≠ []) (hword : ∀ c ∈ name.toList, isWordChar c = true)
      {value : QString} (hvalue : Term.IsValue value) :
      ∃ m, readMatch (Term.named name value ++ rest) = some (m, rest) ∧ m.name = name.toList ∧
        trimQuotationMarks m.value = value := by
    obtain ⟨hread, htrim⟩ := readValue_written hvalue hrest
    rw [Term.named, List.append_assoc, List.cons_append]
    exact ⟨_, readMatch_value hname hword hread, rfl, htrim⟩
  cases t with
  | fromAuthors authors => exact hnamed "from" (by decide) (QString.forall_of_all (by decide)) h.2.2
  | inChannels channels => exact hnamed "in" (by decide) (QString.forall_of_all (by decide)) h.2.2
  | isFlags flags => exact hnamed "is" (by decide) (QString.forall_of_all (by decide)) h.2.2
  | hasLink =>
    have hvalue : readValue ("link".toList ++ rest) = some ("link".toList, rest) :=
      readValue_of_word (by decide) (QString.forall_of_all (by decide)) (by decide) hrest
    have hname : ∀ c ∈ "has".toList, isWordChar c = true := QString.forall_of_all (by decide)
    exact ⟨_, readMatch_value (by decide) hname hvalue, rfl, rfl⟩
  | regex pattern => exact hnamed "regex" (by decide) (QString.forall_of_all (by decide)) h
  | text t => exact readMatch_text h hrest

theorem Writable.wellFormed {terms : List Term} (h : Writable terms) {t : Term} (ht : t ∈ terms) :
    ∃ behind, t.WellFormed behind := by
  induction terms with
  | nil => cases ht
  | cons t' terms ih =>
    rcases List.mem_cons.mp ht with rfl | ht
    · exact ⟨_, h.1⟩
    · exact ih h.2 ht

theorem wellFormed_blank {t : Term} {behind : QString} (h : t.WellFormed behind) :
    t.WellFormed (' ' :: behind) := by
  cases t with
  | text t =>
    obtain ⟨hne, hblank, hkey⟩ := h
    refine ⟨hne, hblank, fun value hname ht hvalue => ?_⟩
    obtain ⟨hnot, hclosed⟩ := hkey value hname ht hvalue
    refine ⟨hnot, fun hmark => (hclosed hmark).imp_right fun ⟨hnone, hbehind⟩ => ⟨hnone, ?_⟩⟩
    rw [List.mem_cons, not_or]
    exact ⟨by decide, hbehind⟩
  | _ => exact h

/-- The text of a search is read term by term. -/
theorem matchesOf_render {terms : List Term} (h : Writable terms) :
    List.Forall₂ Reads terms (matchesOf (render terms)) := by
  have hcons {t : Term} {rest : QString} (ht : t.WellFormed rest) (hrest : Follows rest) :
      ∃ m, matchesOf (t.render ++ rest) = m :: matchesOf rest ∧ Reads t m := by
    obtain ⟨m, hm, hreads⟩ := readMatch_render ht hrest
    cases htext : t.render ++ rest with
    | nil =>
      rw [htext] at hm
      cases hm
    | cons c s =>
      rw [htext] at hm
      exact ⟨m, matchesOf_of_some hm, hreads⟩
  induction terms with
  | nil =>
    have hnil : matchesOf (render []) = [] := by
      rw [render, List.map_nil, List.intercalate_nil, matchesOf]
    rw [hnil]
    exact .nil
  | cons t terms ih =>
    obtain ⟨ht, hterms⟩ := h
    cases terms with
    | nil =>
      have hnil : render [] = [] := List.intercalate_nil
      have hfollows : Follows [] := fun c hc => by simp at hc
      rw [hnil] at ht
      obtain ⟨m, hm, hreads⟩ := hcons ht hfollows
      rw [render, List.map_cons, List.map_nil, List.intercalate_singleton, ← List.append_nil t.render, hm,
        matchesOf]
      exact .cons hreads .nil
    | cons t' terms =>
      have hfollows : Follows (' ' :: render (t' :: terms)) := fun c hc => by
        simp only [List.head?_cons, Option.some.injEq] at hc
        rw [← hc]
        rfl
      obtain ⟨m, hm, hreads⟩ := hcons (wellFormed_blank ht) hfollows
      have hsplit : render (t :: t' :: terms) = t.render ++ ' ' :: render (t' :: terms) := by
        rw [render, List.map_cons, List.map_cons, List.intercalate_cons_cons, List.append_assoc]
        rfl
      rw [hsplit, hm, matchesOf_of_none (readMatch_of_blank rfl _)]
      exact .cons hreads (ih hterms)

/-- The authors of a term. -/
def Term.authorValue : Term → List QString
  | fromAuthors authors => [joined authors]
  | _ => []

def Term.channelValue : Term → List QString
  | inChannels channels => [joined channels]
  | _ => []

/-- The predicate of any other term. -/
def Term.predicate : Term → List (SearchMessage → Bool)
  | fromAuthors _ => []
  | inChannels _ => []
  | isFlags flags => [MessageFlagsPredicate (joined flags)]
  | hasLink => [LinkPredicate context]
  | regex pattern => [RegexPredicate context pattern]
  | text t => [SubstringPredicate context t]

/-- What is made of a match is what its term says. -/
theorem addMatch_of_reads {t : Term} {m : Match} (h : Reads t m) (parsed : Parsed) :
    addMatch context parsed m = ⟨parsed.predicates ++ t.predicate context, parsed.authors ++ t.authorValue,
      parsed.channels ++ t.channelValue⟩ := by
  cases t with
  | text t =>
    obtain ⟨hcaptured, hkey⟩ := h
    simp only [Term.IsKey, List.mem_cons, List.not_mem_nil, or_false, not_or] at hkey
    obtain ⟨⟨hfrom, hin, his, hregex⟩, hhas⟩ := hkey
    rw [addMatch, if_neg hfrom, if_neg hhas, if_neg hin, if_neg his, if_neg hregex, hcaptured]
    simp [Term.predicate, Term.authorValue, Term.channelValue]
  | _ =>
    obtain ⟨hname, hvalue⟩ := h
    simp [addMatch, hname, hvalue, Term.predicate, Term.authorValue, Term.channelValue]

theorem foldl_addMatch {terms : List Term} {ms : List Match} (h : List.Forall₂ Reads terms ms) (parsed : Parsed) :
    ms.foldl (addMatch context) parsed = ⟨parsed.predicates ++ terms.flatMap (Term.predicate context),
      parsed.authors ++ terms.flatMap Term.authorValue, parsed.channels ++ terms.flatMap Term.channelValue⟩ := by
  induction h generalizing parsed with
  | nil => simp
  | cons hreads _ ih => simp [addMatch_of_reads context hreads, ih]

/-! ## What is found -/

section Found

variable {m : SearchMessage}

theorem messageFlagsPredicate_iff {flags : List QString} (h : Term.AreNames flags) :
    MessageFlagsPredicate (Term.joined flags) m = true ↔ HasFlags flags m := by
  rw [MessageFlagsPredicate, splitCommas_joined h, HasFlags]
  by_cases hsystem : .system ∈ flags.filterMap flagOf <;> by_cases htimeout : .timeout ∈ flags.filterMap flagOf <;>
    simp [MessageFlags.has, hsystem, htimeout, and_comm]

theorem authorPredicate_iff (values : List QString) :
    AuthorPredicate context values m = true ↔ ∃ name ∈ values.flatMap splitCommas,
      context.equals m.displayName name = true ∨ context.equals m.loginName name = true := by
  simp only [AuthorPredicate, Bool.or_eq_true, List.any_eq_true]
  constructor
  · rintro (⟨name, hname, heq⟩ | ⟨name, hname, heq⟩)
    · exact ⟨name, hname, .inl heq⟩
    · exact ⟨name, hname, .inr heq⟩
  · rintro ⟨name, hname, heq | heq⟩
    · exact .inl ⟨name, hname, heq⟩
    · exact .inr ⟨name, hname, heq⟩

theorem channelPredicate_iff (values : List QString) :
    ChannelPredicate context values m = true ↔
      ∃ name ∈ values.flatMap splitCommas, context.equals m.channelName name = true := by
  rw [ChannelPredicate, List.any_eq_true]

/-- The names of the terms for authors, and those of the ones for channels. -/
theorem splitCommas_values {value : Term → List QString} {make : List QString → Term}
    (hmake : ∀ names, value (make names) = [Term.joined names])
    (hvalue : ∀ t, (∃ names, t = make names) ∨ value t = [])
    (hnames : ∀ names behind, (make names).WellFormed behind → Term.AreNames names) {terms : List Term}
    (h : Writable terms) (name : QString) :
    name ∈ (terms.flatMap value).flatMap splitCommas ↔ ∃ names, make names ∈ terms ∧ name ∈ names := by
  simp only [List.mem_flatMap]
  constructor
  · rintro ⟨joined, ⟨t, ht, hjoined⟩, hname⟩
    rcases hvalue t with ⟨names, rfl⟩ | hnone
    · obtain ⟨behind, hwell⟩ := h.wellFormed ht
      rw [hmake, List.mem_singleton] at hjoined
      rw [hjoined, splitCommas_joined (hnames names behind hwell)] at hname
      exact ⟨names, ht, hname⟩
    · rw [hnone] at hjoined
      cases hjoined
  · rintro ⟨names, ht, hname⟩
    obtain ⟨behind, hwell⟩ := h.wellFormed ht
    refine ⟨Term.joined names, ⟨make names, ht, by simp [hmake]⟩, ?_⟩
    rw [splitCommas_joined (hnames names behind hwell)]
    exact hname

/-- A predicate for the names of all terms of a kind, which is left out if there are none. -/
theorem all_names_iff {value : Term → List QString} {make : List QString → Term}
    (hmake : ∀ names, value (make names) = [Term.joined names])
    (hvalue : ∀ t, (∃ names, t = make names) ∨ value t = [])
    (hnames : ∀ names behind, (make names).WellFormed behind → Term.AreNames names) {terms : List Term}
    (h : Writable terms) {predicate : List QString → SearchMessage → Bool} {good : QString → Prop}
    (hpredicate : ∀ values, predicate values m = true ↔ ∃ name ∈ values.flatMap splitCommas, good name) :
    (if (terms.flatMap value).isEmpty then [] else [predicate (terms.flatMap value)]).all (· m) = true ↔
      ((∃ names, make names ∈ terms) → ∃ names, make names ∈ terms ∧ ∃ name ∈ names, good name) := by
  have hempty : (terms.flatMap value).isEmpty = true ↔ ¬ ∃ names, make names ∈ terms := by
    rw [List.isEmpty_iff, List.flatMap_eq_nil_iff]
    constructor
    · rintro hnone ⟨names, ht⟩
      have hnil := hnone _ ht
      simp [hmake] at hnil
    · intro hnone t ht
      rcases hvalue t with ⟨names, rfl⟩ | hnil
      · exact absurd ⟨names, ht⟩ hnone
      · exact hnil
  split
  · next hnone =>
    exact ⟨fun _ hsome => absurd hsome (hempty.mp hnone), fun _ => rfl⟩
  · next hsome =>
    rw [hempty, not_not] at hsome
    simp only [List.all_cons, List.all_nil, Bool.and_true, hpredicate]
    constructor
    · rintro ⟨name, hname, hgood⟩ -
      obtain ⟨names, ht, hmem⟩ := (splitCommas_values hmake hvalue hnames h name).mp hname
      exact ⟨names, ht, name, hmem, hgood⟩
    · intro hall
      obtain ⟨names, ht, name, hmem, hgood⟩ := hall hsome
      exact ⟨name, (splitCommas_values hmake hvalue hnames h name).mpr ⟨names, ht, hmem⟩, hgood⟩

end Found

/-- A search in which no message has a link. -/
def plainContext : Context where
  equals a b := a.map Char.toLower = b.map Char.toLower
  contains s part := (part.map Char.toLower) <:+: (s.map Char.toLower)
  regexMatches pattern s := pattern <:+: s
  hasLink _ := false

/-- A pattern with a quotation mark in it, and words that look like predicates. -/
def oddTerms : List Term :=
  [.fromAuthors ["pajlada".toList, "forsen".toList], .regex "kappa 123".toList, .regex "a\"b".toList,
    .text "http:".toList, .text "has:fun".toList, .text "\"lol\"".toList]

end SearchPredicates

end Dankerino
