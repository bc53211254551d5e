import Dankerino.Infra.Regex
import Dankerino.Qt.QChar
import Mathlib.Tactic.ByContra

/-!
# Links

`LinkParser` of `common`, which takes a text apart from the left: the protocol, the host, and a port or
a path. The loop over the host stops at the first separator. Which characters may stand in the host, and
where, is `HostText`, and what may stand behind it is `TailText` (`hasMatch_iff`).
-/

namespace Dankerino

open Infra

/-- The result: whether there is a match, and the text that is matched. -/
structure LinkParser where
  hasMatch : Bool
  match_ : QString

namespace LinkParser

/-- `/`, `?` and `#`, behind which everything is accepted. -/
def isSeparator (c : Char) : Bool := c = '/' || c = '?' || c = '#'

/-- Where the loop over the host goes, with the host. -/
inductive Goto where
  | error
  | done (host : QString)
  | parsePort (host l : QString)
  /-- also `parseQuery` and `parseAnchor`, which are the same place -/
  | parsePath (host : QString)

/-- The host at which the loop ends. -/
def Goto.host : Goto → Option QString
  | .error => none
  | .parsePort host _ => some host
  | .parsePath host => some host
  | .done host => some host

/-- The loop over the host. `host` are the characters before the index. -/
def hostLoop (host : QString) (lastWasDot inIpv6 : Bool) : QString → Goto
  | [] => if lastWasDot then .error else .done host
  | c :: l =>
    if c = '.' && lastWasDot then .error
    else
      let lastWasDot := decide (c = '.')
      if c = ':' && !inIpv6 then .parsePort host l
      else if isSeparator c then .parsePath host
      else if c = '[' then
        if host.isEmpty then hostLoop (host ++ [c]) lastWasDot true l else .error
      else if c = ']' then hostLoop (host ++ [c]) lastWasDot false l
      else hostLoop (host ++ [c]) lastWasDot inIpv6 l

/-- The loop over the port, of which `n` rounds are left. False where it goes to `error`. -/
def portLoop : Nat → QString → Bool
  | 0, _ => true
  | _ + 1, [] => true
  | n + 1, c :: l => if isSeparator c then true else if !QChar.isDigit c then false else portLoop n l

/-- Between one and three digits. -/
def digits : Regex Char :=
  .seq (.set Char.isDigit) (.opt (.seq (.set Char.isDigit) (.opt (.set Char.isDigit))))

/-- A dot and digits. -/
def dotDigits : Regex Char := .seq (.set (· = '.')) digits

/-- The expression of `isValidIpv4`, without its anchors. -/
def ipv4 : Regex Char := .seq digits (.seq dotDigits (.seq dotDigits dotDigits))

/-- The `$` of the expression also matches before a line feed at the end. -/
def isValidIpv4 (host : QString) : Bool :=
  (Regex.ends ipv4 host).any fun rest => rest = [] || rest = ['\n']

section Tlds

-- the lines of `tlds.txt`, and the lower case of a character
variable (tlds : List QString) (lower : Char → QString)

/-- What is behind the last dot. `none` if there is no dot. -/
def topLevel (host : QString) : Option QString :=
  if '.' ∈ host then some (host.reverse.takeWhile (· ≠ '.')).reverse else none

def isValidHostname (host : QString) : Bool :=
  match topLevel host with
  | none => false
  | some tld => decide (tld.flatMap lower ∈ tlds)

/-- The check at `done`. -/
def isValidHost (host : QString) : Bool := isValidHostname tlds lower host || isValidIpv4 host

def withoutProtocol (unparsedString : QString) : QString :=
  if QChar.startsWith unparsedString "https://".toList then unparsedString.mid 8
  else if QChar.startsWith unparsedString "http://".toList then unparsedString.mid 7
  else unparsedString

/-- From there to the end of the constructor. -/
def Goto.hasMatch : Goto → Bool
  | .error => false
  | .parsePort host l => portLoop 5 l && isValidHost tlds lower host
  | .parsePath host => isValidHost tlds lower host
  | .done host => isValidHost tlds lower host

def new (unparsedString : QString) : LinkParser where
  hasMatch := (hostLoop [] true false (withoutProtocol unparsedString)).hasMatch tlds lower
  match_ := unparsedString

end Tlds

/-! ## The host -/

/-- A bracket is open behind the text, so that a colon is no separator. -/
def Open (host : QString) : Prop := host.head? = some '[' ∧ ']' ∉ host

instance (host : QString) : Decidable (Open host) := instDecidableAnd

/-- The character may stand in a host behind the text. -/
structure MayFollow (host : QString) (c : Char) : Prop where
  separator : isSeparator c = false
  dot : c = '.' → host ≠ [] ∧ host.getLast? ≠ some '.'
  colon : c = ':' → Open host
  bracket : c = '[' → host = []

/-- Every character may stand where it does, if there is the host in front of the text. -/
def Follows (host text : QString) : Prop :=
  ∀ front c back, text = front ++ c :: back → MayFollow (host ++ front) c

def HostText (host : QString) : Prop := Follows [] host

/-- A character before which a host ends. -/
def Ends (host : QString) (c : Char) : Prop := isSeparator c = true ∨ c = ':' ∧ ¬ Open host

section Loop

variable {host : QString}

theorem follows_nil : Follows host [] := fun front c back h => by simp at h

theorem follows_cons_iff {c : Char} {l : QString} :
    Follows host (c :: l) ↔ MayFollow host c ∧ Follows (host ++ [c]) l := by
  constructor
  · intro h
    refine ⟨by simpa using h [] c l rfl, fun front d back hl => ?_⟩
    have hfollow := h (c :: front) d back (by rw [hl, List.cons_append])
    rwa [List.append_assoc]
  · rintro ⟨hc, hl⟩ front d back hsplit
    rcases List.cons_eq_append_iff.mp hsplit with ⟨rfl, hback⟩ | ⟨front', rfl, hrest⟩
    · obtain ⟨rfl, -⟩ := List.cons.inj hback
      simpa using hc
    · simpa using hl front' d back hrest

/-- The state of the loop behind a text. -/
def lastIsDot (host : QString) : Bool := host.isEmpty || host.getLast? == some '.'

theorem lastIsDot_append (c : Char) : lastIsDot (host ++ [c]) = decide (c = '.') := by
  have hne : (host ++ [c]).isEmpty = false := by simp
  rw [lastIsDot, hne, List.getLast?_concat, Bool.false_or]
  rfl

theorem lastIsDot_eq_false_iff :
    lastIsDot host = false ↔ host ≠ [] ∧ host.getLast? ≠ some '.' := by
  simp [lastIsDot]

theorem open_append_of_ne {c : Char} (hopen : c ≠ '[') (hclose : c ≠ ']') :
    Open (host ++ [c]) ↔ Open host := by
  cases host with
  | nil => simp [Open, hopen]
  | cons d host => simp [Open, hclose.symm]

/-- The loop goes on behind a character that may stand there. -/
theorem hostLoop_step {c : Char} (h : MayFollow host c) (l : QString) :
    hostLoop host (lastIsDot host) (decide (Open host)) (c :: l)
      = hostLoop (host ++ [c]) (lastIsDot (host ++ [c])) (decide (Open (host ++ [c]))) l := by
  have hdot : ¬ (c = '.' && lastIsDot host) = true := by
    intro hdot
    obtain ⟨hc, hlast⟩ := Bool.and_eq_true_iff.mp hdot
    rw [lastIsDot_eq_false_iff.mpr (h.dot (of_decide_eq_true hc))] at hlast
    exact nomatch hlast
  have hcolon : ¬ (decide (c = ':') && !decide (Open host)) = true := by
    intro hcolon
    obtain ⟨hc, hopen⟩ := Bool.and_eq_true_iff.mp hcolon
    rw [decide_eq_true (h.colon (of_decide_eq_true hc))] at hopen
    exact nomatch hopen
  rw [hostLoop, if_neg hdot, lastIsDot_append]
  dsimp only
  rw [if_neg hcolon, if_neg (by rw [h.separator]; decide)]
  by_cases hopen : c = '['
  · obtain rfl := h.bracket hopen
    subst hopen
    rfl
  · rw [if_neg hopen]
    by_cases hclose : c = ']'
    · subst hclose
      rw [if_pos rfl, decide_eq_false (p := Open (host ++ [']'])) (by simp [Open])]
    · rw [if_neg hclose, decide_eq_decide.mpr (open_append_of_ne hopen hclose)]

theorem hostLoop_follows {mid : QString} : ∀ {host : QString}, Follows host mid → ∀ l : QString,
    hostLoop host (lastIsDot host) (decide (Open host)) (mid ++ l)
      = hostLoop (host ++ mid) (lastIsDot (host ++ mid)) (decide (Open (host ++ mid))) l := by
  induction mid with
  | nil => simp
  | cons c mid ih =>
    intro host h l
    obtain ⟨hc, hmid⟩ := follows_cons_iff.mp h
    rw [List.cons_append, hostLoop_step hc, ih hmid, List.append_assoc]
    rfl

theorem hostLoop_ends {c : Char} (h : Ends host c) (ld : Bool) (l : QString) :
    hostLoop host ld (decide (Open host)) (c :: l)
      = if c = ':' then .parsePort host l else .parsePath host := by
  rw [hostLoop]
  rcases h with hsep | ⟨rfl, hopen⟩
  · have hdot : c ≠ '.' := by
      rintro rfl
      exact absurd hsep (by decide)
    have hcolon : c ≠ ':' := by
      rintro rfl
      exact absurd hsep (by decide)
    simp [hdot, hcolon, hsep]
  · simp [hopen]

theorem hostLoop_error {c : Char} (hfollow : ¬ MayFollow host c) (hends : ¬ Ends host c) (l : QString) :
    hostLoop host (lastIsDot host) (decide (Open host)) (c :: l) = .error := by
  have hsep : isSeparator c = false := by
    cases hc : isSeparator c with
    | false => rfl
    | true => exact absurd (.inl hc) hends
  rw [hostLoop]
  by_cases hdot : c = '.' ∧ lastIsDot host = true
  · simp [hdot.1, hdot.2]
  · have hcolon : c = ':' → Open host := by
      intro hc
      by_contra hopen
      exact hends (.inr ⟨hc, hopen⟩)
    have hbracket : c = '[' ∧ host ≠ [] := by
      by_contra hbracket
      refine hfollow ⟨hsep, fun hc => ?_, hcolon, fun hc => ?_⟩
      · exact lastIsDot_eq_false_iff.mp (Bool.eq_false_iff.mpr fun hlast => hdot ⟨hc, hlast⟩)
      · by_contra hne
        exact hbracket ⟨hc, hne⟩
    obtain ⟨rfl, hne⟩ := hbracket
    simp [hsep, hne]

/-- What may follow, up to the first character that may not. -/
theorem follows_or (l : QString) : ∀ host : QString, Follows host l ∨
    ∃ mid c back, l = mid ++ c :: back ∧ Follows host mid ∧ ¬ MayFollow (host ++ mid) c := by
  induction l with
  | nil => exact fun host => .inl follows_nil
  | cons c l ih =>
    intro host
    by_cases hc : MayFollow host c
    · rcases ih (host ++ [c]) with hl | ⟨mid, d, back, rfl, hmid, hd⟩
      · exact .inl (follows_cons_iff.mpr ⟨hc, hl⟩)
      · refine .inr ⟨c :: mid, d, back, rfl, follows_cons_iff.mpr ⟨hc, hmid⟩, ?_⟩
        rwa [List.append_assoc] at hd
    · exact .inr ⟨[], c, l, rfl, follows_nil, by simpa using hc⟩

end Loop

/-! ## The match -/

/-- What may stand behind the host. -/
inductive TailText (host : QString) : QString → Prop
  | done (hlast : lastIsDot host = false) : TailText host []
  | path {c : Char} (hc : isSeparator c = true) (back : QString) : TailText host (c :: back)
  | port {l : QString} (hopen : ¬ Open host) (hl : portLoop 5 l = true) : TailText host (':' :: l)

/-- A host and what is behind it. -/
structure Splits (l host tail : QString) : Prop where
  eq : l = host ++ tail
  hostText : HostText host
  tailText : TailText host tail

section Match

variable (tlds : List QString) (lower : Char → QString) {l host tail : QString}

theorem hostLoop_start {front back : QString} (h : HostText front) :
    hostLoop [] true false (front ++ back)
      = hostLoop front (lastIsDot front) (decide (Open front)) back :=
  hostLoop_follows h back

/-- The loop finds the host. -/
theorem hostLoop_of_splits (h : Splits l host tail) :
    (hostLoop [] true false l).host = some host ∧
      (hostLoop [] true false l).hasMatch tlds lower = isValidHost tlds lower host := by
  obtain ⟨rfl, hhost, htail⟩ := h
  rw [hostLoop_start hhost]
  cases htail with
  | done hlast =>
    rw [hostLoop, hlast]
    exact ⟨rfl, rfl⟩
  | @path c hc back =>
    have hcolon : c ≠ ':' := by
      rintro rfl
      exact absurd hc (by decide)
    rw [hostLoop_ends (.inl hc), if_neg hcolon]
    exact ⟨rfl, rfl⟩
  | port hopen hl =>
    rw [hostLoop_ends (.inr ⟨rfl, hopen⟩), if_pos rfl]
    exact ⟨rfl, by rw [Goto.hasMatch, hl, Bool.true_and]⟩

theorem Splits.unique {host' tail' : QString} (h : Splits l host tail) (h' : Splits l host' tail') :
    host = host' ∧ tail = tail' := by
  have hhost := (hostLoop_of_splits [] (fun _ => []) h).1
  rw [(hostLoop_of_splits [] (fun _ => []) h').1] at hhost
  obtain rfl := Option.some.inj hhost
  exact ⟨rfl, List.append_cancel_left (h.eq.symm.trans h'.eq)⟩

/-- **What is accepted**: a valid host with its tail. -/
theorem hasMatch_iff : (hostLoop [] true false l).hasMatch tlds lower = true ↔
    ∃ host tail, Splits l host tail ∧ isValidHost tlds lower host = true := by
  constructor
  · intro h
    rcases follows_or l [] with hl | ⟨mid, c, back, rfl, hmid, hc⟩
    · have hrun : hostLoop [] true false (l ++ []) = hostLoop l (lastIsDot l) (decide (Open l)) [] :=
        hostLoop_start hl
      rw [List.append_nil, hostLoop] at hrun
      cases hlast : lastIsDot l with
      | true =>
        rw [hrun, hlast] at h
        exact nomatch h
      | false =>
        rw [hrun, hlast] at h
        exact ⟨l, [], ⟨(List.append_nil l).symm, hl, .done hlast⟩, h⟩
    · rw [List.nil_append] at hc
      rw [hostLoop_start hmid] at h
      by_cases hends : Ends mid c
      · rw [hostLoop_ends hends] at h
        rcases hends with hsep | ⟨rfl, hopen⟩
        · have hcolon : c ≠ ':' := by
            rintro rfl
            exact absurd hsep (by decide)
          rw [if_neg hcolon] at h
          exact ⟨mid, c :: back, ⟨rfl, hmid, .path hsep back⟩, h⟩
        · rw [if_pos rfl, Goto.hasMatch, Bool.and_eq_true] at h
          exact ⟨mid, ':' :: back, ⟨rfl, hmid, .port hopen h.1⟩, h.2⟩
      · rw [hostLoop_error hc hends] at h
        exact nomatch h
  · rintro ⟨host, tail, hsplit, hvalid⟩
    rw [(hostLoop_of_splits tlds lower hsplit).2, hvalid]

end Match

end LinkParser

end Dankerino
