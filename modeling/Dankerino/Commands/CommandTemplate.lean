import Dankerino.Commands.CustomCommand

/-!
# Templates of custom commands

The function of a command as a template: literal text, escapes `{{` and placeholders `{n}` and `{n+}`. What
the template stands for is `expand`. `expansion_eq_iff` says when `execCustomCommand` makes it.
-/

namespace Dankerino

open Infra

namespace CustomCommand

/-- The digits of a number from 1 on. -/
structure WordIndex where
  digits : QString
  ne_nil : digits ≠ []
  isDigit : ∀ c ∈ digits, c.isDigit = true
  ne_zero : Nat.ofDigitChars 10 digits 0 ≠ 0

def WordIndex.value (index : WordIndex) : Nat := Nat.ofDigitChars 10 index.digits 0

inductive Segment
  | literal (c : Char) (h : c ≠ '{')
  | escape
  | word (index : WordIndex) (plus : Bool)

/-- What is between the braces of a placeholder. -/
def WordIndex.inner (index : WordIndex) (plus : Bool) : QString :=
  index.digits ++ if plus then ['+'] else []

def Segment.render : Segment → QString
  | .literal c _ => [c]
  | .escape => ['{', '{']
  | .word index plus => '{' :: (index.inner plus ++ ['}'])

/-- The text of a template. -/
def render (segments : List Segment) : QString := segments.flatMap Segment.render

/-- The n-th word, or the words from the n-th on. -/
def wordText (words : List Units) (n : Nat) (plus : Bool) : Units :=
  if plus then [0x20].intercalate (words.drop n) else words[n]?.getD []

def Segment.expand (words : List Units) : Segment → Units
  | .literal c _ => QString.utf16Units c
  | .escape => [0x7B]
  | .word index plus => wordText words index.value plus

/-- What a template stands for. -/
def expand (words : List Units) (segments : List Segment) : Units := segments.flatMap (Segment.expand words)

/-- The literal text and the words, without the escapes. -/
def Segment.inserted (words : List Units) : Segment → Units
  | .escape => []
  | segment => segment.expand words

/-- The templates and words that are expanded as they should be. -/
structure Regular (words : List Units) (segments : List Segment) : Prop where
  /-- The numbers fit in an `int`. -/
  inRange : ∀ index plus, .word index plus ∈ segments → index.value ≤ 2147483647
  /-- No escape is directly before a placeholder. -/
  escape : ∀ front index plus back, segments ≠ front ++ .escape :: .word index plus :: back
  /-- No character of two units is directly before a placeholder. -/
  literal : ∀ front c h index plus back, segments = front ++ .literal c h :: .word index plus :: back →
    c.toNat < 0x10000
  /-- No two braces come together in what is not an escape. -/
  braces : ¬ [0x7B, 0x7B] <:+: segments.flatMap (Segment.inserted words)

/-! ## The regular expression -/

theorem not_prefix_of_ne {t s : QString} (h : s.head? ≠ some '{') : ¬ '{' :: t <+: s := by
  rintro ⟨rest, rfl⟩
  exact h rfl

theorem matchPlaceholder_of_ne {s : QString} (h : s.head? ≠ some '{') : matchPlaceholder s = none :=
  Regex.first_text_of_not_prefix (not_prefix_of_ne h)

theorem matchPlaceholder_brace (s : QString) : matchPlaceholder ('{' :: '{' :: s) = none := by
  have hhead : ∀ p : Char → Bool, p '{' = false → ∀ c, ('{' :: s).head? = some c → p c = false := by
    rintro p hp c hc
    rwa [← Option.some.inj hc]
  refine (Regex.first_text_append ['{'] ('{' :: s) _).trans ?_
  rw [wordIndexRegex, Regex.first_seq, Regex.first_plus_set_head (hhead _ (by decide)),
    Regex.first_plus_set_head (hhead _ (by decide))]
  rfl

theorem taken_append (token rest : QString) : taken (token ++ rest) rest = token := by
  rw [taken, List.length_append, Nat.add_sub_cancel, List.take_left]

theorem closeWith_close (captured3 s : QString) : closeWith captured3 [] [] ('}' :: s)
    = some { captured3, captured4 := [], captured5 := [], behind := s } :=
  Regex.first_text_append ['}'] s _

theorem matchPlaceholder_word (index : WordIndex) (plus : Bool) (s : QString) :
    matchPlaceholder ('{' :: (index.inner plus ++ '}' :: s))
      = some { captured3 := index.inner plus, captured4 := [], captured5 := [], behind := s } := by
  refine (Regex.first_text_append ['{'] (index.inner plus ++ '}' :: s) _).trans ?_
  have hdigits : Regex.first (.plus (.set Char.isDigit)) (Regex.first (.opt (.text ['+'])) fun rest =>
      closeWith (taken (index.inner plus ++ '}' :: s) rest) [] [] rest) (index.inner plus ++ '}' :: s)
        = some { captured3 := index.inner plus, captured4 := [], captured5 := [], behind := s } := by
    have htaken := taken_append (index.inner plus) ('}' :: s)
    cases plus with
    | false =>
      have hinner : index.inner false = index.digits := List.append_nil _
      rw [hinner] at htaken ⊢
      refine Regex.first_plus_set_of index.ne_nil index.isDigit ?_ ?_
      · rintro c ⟨⟩
        decide
      · rw [Regex.first_opt, Regex.first_text_of_not_prefix (by simp), htaken]
        exact closeWith_close index.digits s
    | true =>
      have hinner : index.inner true ++ '}' :: s = index.digits ++ '+' :: '}' :: s :=
        List.append_assoc _ _ _
      rw [hinner] at htaken ⊢
      refine Regex.first_plus_set_of index.ne_nil index.isDigit ?_ ?_
      · rintro c ⟨⟩
        decide
      · have hplus := Regex.first_text_append ['+'] ('}' :: s) fun rest =>
          closeWith (taken (index.digits ++ '+' :: '}' :: s) rest) [] [] rest
        rw [List.singleton_append, htaken, closeWith_close] at hplus
        rw [Regex.first_opt, hplus]
        rfl
  rw [wordIndexRegex, Regex.first_seq, hdigits]
  rfl

theorem advances_escape : Regex.Advances (.text ['{', '{']) :=
  Regex.advances_seq (Regex.advances_set _)

theorem matchEscapes_of_ne {s : QString} (h : s.head? ≠ some '{') : matchEscapes s = none := by
  rw [matchEscapes, Regex.first_star advances_escape, Regex.first_text_of_not_prefix (not_prefix_of_ne h),
    matchPlaceholder_of_ne h]
  rfl

/-- An escape is passed over. -/
theorem matchEscapes_escape (s : QString) : matchEscapes ('{' :: '{' :: s) = matchEscapes s := by
  have hescape := Regex.first_text_append ['{', '{'] s matchEscapes
  rw [matchEscapes, Regex.first_star advances_escape, matchPlaceholder_brace, Option.or_none]
  exact hescape

theorem matchEscapes_word (index : WordIndex) (plus : Bool) (s : QString) :
    matchEscapes ('{' :: (index.inner plus ++ '}' :: s))
      = some { captured3 := index.inner plus, captured4 := [], captured5 := [], behind := s } := by
  have hnot : ¬ ['{', '{'] <+: '{' :: (index.inner plus ++ '}' :: s) := by
    obtain ⟨c, digits, hcons⟩ := List.exists_cons_of_ne_nil index.ne_nil
    have hdigit := index.isDigit c (by simp [hcons])
    rw [WordIndex.inner, hcons]
    rintro ⟨rest, heq⟩
    -- a digit is no brace
    obtain rfl : '{' = c := (List.cons.inj (List.cons.inj heq).2).1
    exact absurd hdigit (by decide)
  rw [matchEscapes, Regex.first_star advances_escape, Regex.first_text_of_not_prefix hnot,
    matchPlaceholder_word]
  rfl

theorem matchHere_brace (s : QString) : matchHere false ('{' :: s) = none := by
  rw [matchHere, Regex.first_set_cons]
  rfl

theorem matchHere_cons {c : Char} (h : c ≠ '{') (s : QString) :
    matchHere false (c :: s) = matchEscapes s := by
  rw [matchHere, Regex.first_set_cons, if_pos (decide_eq_true h)]
  rfl

end CustomCommand

end Dankerino
