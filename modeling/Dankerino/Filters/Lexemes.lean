import Dankerino.Filters.Lexing

/-!
# What the tokenizer leaves out and puts together

The tokens are what a search finds, so what does not match is left out without an error, and the
operators are repeated, so those that stand next to each other are one token. A text is read as
lexemes from the left, each as long as possible. It is the text of its tokens and of blanks if
nothing else is left over there. Lexemes that are written next to each other are the tokens if none
of them goes on in the next one.
-/

namespace Dankerino

open Infra Regex Expression

/-! ## Operators -/

/-- What is left behind the operator at the start. An `=` belongs to a comparison before it. -/
def operatorRest : QString → Option QString
  | [] => none
  | c :: s =>
    if c = '<' ∨ c = '>' ∨ c = '!' then some (if s.head? = some '=' then s.tail else s)
    else if c = '=' ∨ c = '|' ∨ c = '&' then if s.head? = some c then some s.tail else none
    else if c = '+' ∨ c = '-' ∨ c = '*' ∨ c = '/' ∨ c = '%' then some s
    else none

theorem operatorRest_suffix {c : Char} {s rest : QString} (h : operatorRest (c :: s) = some rest) : rest <:+ s := by
  rw [operatorRest] at h
  split at h
  · obtain rfl := Option.some.inj h
    split
    · exact List.tail_suffix s
    · exact List.suffix_rfl
  · split at h
    · split at h
      · obtain rfl := Option.some.inj h
        exact List.tail_suffix s
      · cases h
    · split at h
      · obtain rfl := Option.some.inj h
        exact List.suffix_rfl
      · cases h

theorem first_char {β : Type} (k : QString → Option β) (c d : Char) (s : QString) :
    first (Regex.text [c]) k (d :: s) = if d = c then k s else none := by
  by_cases hd : d = c
  · rw [hd, if_pos rfl]
    exact first_text_append [c] s k
  · rw [if_neg hd, first_text_ne hd]

theorem first_doubled {β : Type} (k : QString → Option β) (c d : Char) (s : QString) :
    first (Regex.text [c, c]) k (d :: s) = if d = c then (if s.head? = some c then k s.tail else none) else none := by
  by_cases hd : d = c
  · subst hd
    rw [if_pos rfl, first_text]
    cases s with
    | nil => simp [List.isPrefixOf]
    | cons e s =>
      by_cases he : e = d
      · simp [he, List.isPrefixOf]
      · simp [he, Ne.symm he, List.isPrefixOf]
  · rw [if_neg hd, first_text_ne hd]

/-- The `=` is tried first. -/
theorem first_comparison {β : Type} {k : QString → Option β} (hk : ∀ t, (k t).isSome = true) (c d : Char)
    (s : QString) : first (.seq (Regex.text [c]) (.opt (Regex.text ['=']))) k (d :: s) =
      if d = c then k (if s.head? = some '=' then s.tail else s) else none := by
  rw [first_seq, first_char, first_opt]
  congr 1
  cases s with
  | nil => rfl
  | cons e s =>
    rw [first_char]
    by_cases he : e = '='
    · obtain ⟨b, hb⟩ := Option.isSome_iff_exists.mp (hk s)
      simp [he, hb]
    · simp [he]

/-- A continuation that accepts everything gets what is behind the operator. -/
theorem first_operatorUnit {β : Type} {k : QString → Option β} (hk : ∀ t, (k t).isSome = true) (s : QString) :
    first TokenRegex.operatorUnit k s = (operatorRest s).bind k := by
  cases s with
  | nil => rfl
  | cons c s =>
    rw [TokenRegex.operatorUnit, operatorRest]
    simp only [first_alt, first_comparison hk, first_doubled, first_char]
    by_cases hcomparison : c = '<' ∨ c = '>' ∨ c = '!'
    · rw [if_pos hcomparison]
      rcases hcomparison with rfl | rfl | rfl <;> simp
    · rw [if_neg hcomparison]
      by_cases hdoubled : c = '=' ∨ c = '|' ∨ c = '&'
      · rw [if_pos hdoubled]
        have hbind (d : Char) : (if s.head? = some d then some s.tail else none).bind k
            = if s.head? = some d then k s.tail else none := by
          split <;> rfl
        rcases hdoubled with rfl | rfl | rfl <;> simp [hbind]
      · rw [if_neg hdoubled]
        simp only [not_or] at hcomparison hdoubled
        simp only [hcomparison, hdoubled, if_false, Option.none_or]
        by_cases hsingle : c = '+' ∨ c = '-' ∨ c = '*' ∨ c = '/' ∨ c = '%'
        · rw [if_pos hsingle]
          rcases hsingle with rfl | rfl | rfl | rfl | rfl <;> simp
        · rw [if_neg hsingle]
          simp only [not_or] at hsingle
          simp [hsingle]

/-- Operators are read one after the other. -/
theorem first_operator_eq (s : QString) : first TokenRegex.operator some s =
    (operatorRest s).map fun t => (first TokenRegex.operator some t).getD t := by
  have hround : first TokenRegex.operator some s
      = first TokenRegex.operatorUnit (fun t => (first TokenRegex.operator some t).or (some t)) s :=
    first_plus advances_operatorUnit
  have hsome (t : QString) : ((first TokenRegex.operator some t).or (some t)).isSome = true := by
    cases first TokenRegex.operator some t <;> rfl
  rw [hround, first_operatorUnit hsome]
  cases operatorRest s with
  | none => rfl
  | some t => cases h : first TokenRegex.operator some t <;> simp [h]

theorem operatorRest_of_notMem {c : Char} (h : c ∉ operatorStarts) (s : QString) : operatorRest (c :: s) = none := by
  have hnone : first TokenRegex.operator some (c :: s) = none := by
    refine first_operator_none ?_
    rintro d hd
    obtain rfl := Option.some.inj hd
    exact h
  rw [first_operator_eq] at hnone
  exact Option.map_eq_none_iff.mp hnone

/-! ## What is left over -/

/-- A character that is read by itself. -/
def isPlain (c : Char) : Bool := QString.isSpace c || isWordToken c || "(){},".toList.contains c

/-- A text that is read from the left to its end, with nothing in it that cannot be read. -/
inductive Readable : QString → Prop
  | nil : Readable []
  | plain {c : Char} {s : QString} : isPlain c = true → Readable s → Readable (c :: s)
  | operator {s rest : QString} : operatorRest s = some rest → Readable rest → Readable s
  | literal {s rest : QString} : closing s = some rest → Readable rest → Readable ('"' :: s)

theorem isPlain_eq_false : ∀ c ∈ '"' :: operatorStarts, isPlain c = false :=
  QString.forall_of_all (by decide)

theorem notMem_of_isPlain {c : Char} (h : isPlain c = true) : c ≠ '"' ∧ c ∉ operatorStarts := by
  have hmem : c ∉ '"' :: operatorStarts := fun hmem => by
    rw [isPlain_eq_false c hmem] at h
    cases h
  exact ⟨fun hc => hmem (hc ▸ .head _), fun hc => hmem (.tail _ hc)⟩

theorem readable_plain {c : Char} (hc : isPlain c = true) (s : QString) : Readable (c :: s) ↔ Readable s := by
  obtain ⟨hquote, hstart⟩ := notMem_of_isPlain hc
  refine ⟨fun h => ?_, .plain hc⟩
  cases h with
  | plain _ hs => exact hs
  | operator h _ =>
    rw [operatorRest_of_notMem hstart] at h
    cases h
  | literal _ _ => exact absurd rfl hquote

theorem readable_operator {s rest : QString} (h : operatorRest s = some rest) : Readable s ↔ Readable rest := by
  refine ⟨fun hs => ?_, .operator h⟩
  cases hs with
  | nil => cases h
  | plain hc _ =>
    rw [operatorRest_of_notMem (notMem_of_isPlain hc).2] at h
    cases h
  | operator h' hrest =>
    rw [h] at h'
    cases h'
    exact hrest
  | literal _ _ =>
    rw [operatorRest_of_notMem (by decide)] at h
    cases h

theorem readable_quote (s : QString) : Readable ('"' :: s) ↔ ∃ rest, closing s = some rest ∧ Readable rest := by
  constructor
  · intro h
    cases h with
    | plain hc _ => exact absurd rfl (notMem_of_isPlain hc).1
    | operator h _ =>
      rw [operatorRest_of_notMem (by decide)] at h
      cases h
    | literal h hrest => exact ⟨_, h, hrest⟩
  · rintro ⟨rest, h, hrest⟩
    exact .literal h hrest

/-- A run of operators, which is one token. -/
theorem readable_operators : ∀ (n : Nat) {s rest : QString}, s.length ≤ n →
    first TokenRegex.operator some s = some rest → (Readable s ↔ Readable rest)
  | 0, s, rest, hn, h => by
    obtain rfl := List.length_eq_zero_iff.mp (Nat.le_zero.mp hn)
    cases h
  | n + 1, s, rest, hn, h => by
    rw [first_operator_eq] at h
    obtain ⟨t, ht, hrest⟩ := Option.map_eq_some_iff.mp h
    rw [readable_operator ht]
    cases hmore : first TokenRegex.operator some t with
    | none =>
      rw [hmore] at hrest
      rw [← hrest]
      rfl
    | some rest' =>
      rw [hmore] at hrest
      obtain rfl : rest' = rest := hrest
      refine readable_operators n ?_ hmore
      cases s with
      | nil => cases ht
      | cons c s => exact Nat.le_trans (operatorRest_suffix ht).length_le (Nat.le_of_succ_le_succ hn)

/-! ### One token -/

theorem advances_tokenRegex : Advances tokenRegex :=
  advances_alt (advances_seq (advances_seq_right (advances_set _))) <|
    advances_alt (advances_seq (advances_set _)) <| advances_alt (advances_seq advances_operatorUnit) <|
    advances_alt (advances_set _) (advances_set _)

theorem readable_literal {s rest : QString} (h : TokenRegex.literalRest s = some rest) :
    Readable s ↔ Readable rest := by
  have hclosed {s : QString} (h : closing s = some rest) : Readable ('"' :: s) ↔ Readable rest := by
    rw [readable_quote, h]
    constructor
    · rintro ⟨rest', hrest', hreadable⟩
      cases hrest'
      exact hreadable
    · exact fun hreadable => ⟨rest, rfl, hreadable⟩
  fun_cases TokenRegex.literalRest s with
  | case1 s => exact hclosed h
  | case2 s =>
    rw [readable_plain (by decide)]
    exact hclosed h
  | case3 s =>
    rw [readable_plain (by decide), readable_plain (by decide)]
    exact hclosed h
  | case4 _ hquote hr hri =>
    rw [TokenRegex.literalRest.eq_4 _ hquote hr hri] at h
    cases h

theorem isPlain_of_isWordToken {c : Char} (h : isWordToken c = true) : isPlain c = true := by
  unfold isPlain
  rw [h, Bool.or_true, Bool.true_or]

theorem readable_word {w : QString} (hw : ∀ c ∈ w, isWordToken c = true) (rest : QString) :
    Readable (w ++ rest) ↔ Readable rest := by
  induction w with
  | nil => exact Iff.rfl
  | cons c w ih =>
    rw [List.cons_append, readable_plain (isPlain_of_isWordToken (hw c (.head _)))]
    exact ih fun d hd => hw d (.tail _ hd)

/-- The characters that tokens begin with, beside those of words. -/
def tokenStarts : QString := "\"(){},<>!=|&+-*/%".toList

theorem isSpace_of_isWordToken {c : Char} (h : isWordToken c = true) : QString.isSpace c = false := by
  have hbool : ((((c.isUpper || c.isLower) || c.isDigit) || c == '_') || c == '.') = true := h
  have hbounds {a b : Char} (h : c.val ≥ a.val ∧ c.val ≤ b.val) : a.toNat ≤ c.toNat ∧ c.toNat ≤ b.toNat :=
    ⟨UInt32.le_iff_toNat_le.mp h.1, UInt32.le_iff_toNat_le.mp h.2⟩
  have hrange : 46 ≤ c.toNat ∧ c.toNat ≤ 122 := by
    simp only [Bool.or_eq_true, beq_iff_eq] at hbool
    rcases hbool with (((h | h) | h) | rfl) | rfl
    · have hupper := @hbounds 'A' 'Z' (of_decide_eq_true h)
      exact ⟨Nat.le_trans (by decide) hupper.1, Nat.le_trans hupper.2 (by decide)⟩
    · have hboth : (decide (c.val ≥ 'a'.val) && decide (c.val ≤ 'z'.val)) = true := h
      obtain ⟨hlow, hhigh⟩ := Bool.and_eq_true_iff.mp hboth
      have hlower := @hbounds 'a' 'z' ⟨of_decide_eq_true hlow, of_decide_eq_true hhigh⟩
      exact ⟨Nat.le_trans (by decide) hlower.1, Nat.le_trans hlower.2 (by decide)⟩
    · have hdigit := Char.isDigit_iff_toNat.mp h
      exact ⟨Nat.le_trans (by decide) hdigit.1, Nat.le_trans hdigit.2 (by decide)⟩
    · decide
    · decide
  unfold QString.isSpace
  simp only [Bool.or_eq_false_iff, Bool.and_eq_false_iff, decide_eq_false_iff_not]
  omega

theorem isSpace_of_mem_tokenStarts : ∀ c ∈ tokenStarts, QString.isSpace c = false :=
  QString.forall_of_all (by decide)

theorem head_of_literalRest {c : Char} {s rest : QString} (h : TokenRegex.literalRest (c :: s) = some rest) :
    c = '"' ∨ c = 'r' := by
  unfold TokenRegex.literalRest at h
  split at h
  · next heq => exact .inl (List.cons.inj heq).1
  · next heq => exact .inr (List.cons.inj heq).1
  · next heq => exact .inr (List.cons.inj heq).1
  · cases h

/-- The search either finds a token at a character, or leaves the character out. -/
theorem captures_step (c : Char) (s : QString) :
    (∃ token rest, c :: s = token ++ rest ∧ token ≠ [] ∧ QString.isSpace c = false ∧
      matchAt tokenRegex (c :: s) = some rest ∧ (Readable (c :: s) ↔ Readable rest)) ∨
    (matchAt tokenRegex (c :: s) = none ∧
      (Readable (c :: s) ↔ QString.isSpace c = true ∧ Readable s)) := by
  have hfound {rest : QString} (hspace : QString.isSpace c = false)
      (h : first tokenRegex some (c :: s) = some rest) (hreadable : Readable (c :: s) ↔ Readable rest) :
      ∃ token rest, c :: s = token ++ rest ∧ token ≠ [] ∧ QString.isSpace c = false ∧
        matchAt tokenRegex (c :: s) = some rest ∧ (Readable (c :: s) ↔ Readable rest) := by
    rw [← matchAt_eq] at h
    obtain ⟨token, htoken⟩ := matchAt_suffix h
    refine ⟨token, rest, htoken.symm, ?_, hspace, h, hreadable⟩
    rintro rfl
    rw [List.nil_append] at htoken
    have hlt := advances_tokenRegex _ _ (mem_ends_of_first ((matchAt_eq ..).symm.trans h))
    rw [htoken] at hlt
    exact absurd hlt (Nat.lt_irrefl _)
  cases hliteral : TokenRegex.literalRest (c :: s) with
  | some rest =>
    left
    refine hfound ?_ ?_ (readable_literal hliteral)
    · rcases head_of_literalRest hliteral with rfl | rfl <;> rfl
    · rw [tokenRegex, first_alt, TokenRegex.first_literal, hliteral]
      rfl
  | none =>
    cases hword : isWordToken c with
    | true =>
      left
      have hsplit : (c :: s).takeWhile isWordToken ++ (c :: s).dropWhile isWordToken = c :: s :=
        List.takeWhile_append_dropWhile
      have hall : ∀ d ∈ (c :: s).takeWhile isWordToken, isWordToken d = true := fun d hd =>
        List.all_eq_true.mp List.all_takeWhile d hd
      have hne : (c :: s).takeWhile isWordToken ≠ [] := by
        rw [List.takeWhile_cons_of_pos hword]
        exact List.cons_ne_nil _ _
      have hfirst := first_tokenRegex_word (hsplit.symm ▸ hliteral) hall hne fun d hd => ?_
      · rw [hsplit] at hfirst
        refine hfound (isSpace_of_isWordToken hword) hfirst ?_
        have hreadable := readable_word hall ((c :: s).dropWhile isWordToken)
        rwa [hsplit] at hreadable
      · have hhead := List.head?_dropWhile_not isWordToken (c :: s)
        rw [hd] at hhead
        exact hhead
    | false =>
      have hfirst := first_tokenRegex_of_literalRest hliteral hword
      cases hoperator : first TokenRegex.operator some (c :: s) with
      | some rest =>
        left
        rw [hoperator] at hfirst
        have hstart : c ∈ operatorStarts := Classical.byContradiction fun hstart => by
          rw [first_operator_eq, operatorRest_of_notMem hstart] at hoperator
          cases hoperator
        have hmem : ∀ c ∈ operatorStarts, c ∈ tokenStarts := QString.forall_of_all (by decide)
        exact hfound (isSpace_of_mem_tokenStarts c (hmem c hstart)) hfirst
          (readable_operators _ (Nat.le_refl _) hoperator)
      | none =>
        rw [hoperator, TokenRegex.parenthesis, TokenRegex.listChar, first_set_cons, first_set_cons] at hfirst
        by_cases hsingle : c ∈ "(){},".toList
        · left
          have hmem : ∀ c ∈ "(){},".toList, c ∈ tokenStarts := QString.forall_of_all (by decide)
          have hplain : isPlain c = true := by
            unfold isPlain
            rw [List.contains_iff_mem.mpr hsingle, Bool.or_true]
          exact hfound (isSpace_of_mem_tokenStarts c (hmem c hsingle)) (first_single hsingle s) (readable_plain hplain s)
        · right
          have hnone : first tokenRegex some (c :: s) = none := by
            have hnot : (c == '(' || c == ')') = false ∧ (c == '\x7b' || c == '\x7d' || c == ',') = false := by
              simpa [and_assoc] using hsingle
            rw [hfirst, if_neg (by rw [hnot.1]; decide), if_neg (by rw [hnot.2]; decide)]
            rfl
          refine ⟨by rw [matchAt_eq, hnone], ?_⟩
          by_cases hspace : QString.isSpace c = true
          · rw [readable_plain (by rw [isPlain, hspace]; rfl)]
            exact ⟨fun h => ⟨hspace, h⟩, And.right⟩
          · refine ⟨fun h => ?_, fun h => absurd h.1 hspace⟩
            cases h with
            | plain hc _ =>
              rw [isPlain, (Bool.not_eq_true _).mp hspace, hword, Bool.false_or, Bool.false_or,
                List.contains_iff_mem] at hc
              exact absurd hc hsingle
            | operator h _ =>
              rw [first_operator_eq, h] at hoperator
              cases hoperator
            | literal h _ =>
              rw [TokenRegex.literalRest, h] at hliteral
              cases hliteral

/-! ### The tokens and the blanks -/

/-- The text is made of the tokens and of blanks outside of them. -/
inductive Interleaved : List QString → QString → Prop
  | nil : Interleaved [] []
  | blank {tokens : List QString} {c : Char} {s : QString} :
    QString.isSpace c = true → Interleaved tokens s → Interleaved tokens (c :: s)
  | token {tokens : List QString} {s : QString} (token : QString) :
    Interleaved tokens s → Interleaved (token :: tokens) (token ++ s)

/-- The characters that are no blanks. -/
def solid (s : QString) : QString := s.filter fun c => !QString.isSpace c

theorem Interleaved.solid_eq {tokens : List QString} {s : QString} (h : Interleaved tokens s) :
    solid tokens.flatten = solid s := by
  induction h with
  | nil => rfl
  | blank hc _ ih =>
    rw [ih, solid, solid, List.filter_cons_of_neg]
    rw [hc]
    decide
  | token token _ ih =>
    unfold solid at ih ⊢
    rw [List.flatten_cons, List.filter_append, List.filter_append, ih]

/-- Nothing is in the tokens that is not in the text. -/
theorem captures_sublist (s : QString) : (tokenRegex.captures s).flatten.Sublist s := by
  refine captures_induction tokenRegex (motive := fun s tokens => tokens.flatten.Sublist s) ?_ ?_ ?_ s
  · exact .slnil
  · exact fun c s ih => ih.cons c
  · intro token rest _ _ ih
    rw [List.flatten_cons]
    exact ih.append_left token

/-- No token begins with a blank. -/
theorem captures_solid (s : QString) :
    ∀ token ∈ tokenRegex.captures s, ∃ c t, token = c :: t ∧ QString.isSpace c = false := by
  refine captures_induction tokenRegex
    (motive := fun _ tokens => ∀ token ∈ tokens, ∃ c t, token = c :: t ∧ QString.isSpace c = false) ?_ ?_ ?_ s
  · exact fun token htoken => absurd htoken List.not_mem_nil
  · exact fun _ _ ih => ih
  · rintro token rest hne hmatch ih token' (_ | ⟨_, htoken'⟩)
    · obtain ⟨c, t, rfl⟩ := List.exists_cons_of_ne_nil hne
      refine ⟨c, t, rfl, ?_⟩
      rcases captures_step c (t ++ rest) with ⟨-, -, -, -, hspace, -⟩ | ⟨hnone, -⟩
      · exact hspace
      · rw [← List.cons_append, hmatch] at hnone
        cases hnone
    · exact ih token' htoken'

theorem Interleaved.cases_text {tokens : List QString} {s : QString} (h : Interleaved tokens s) :
    s = [] ∨ (∃ c s', s = c :: s' ∧ QString.isSpace c = true ∧ Interleaved tokens s') ∨
      ∃ token tokens' s', tokens = token :: tokens' ∧ s = token ++ s' ∧ Interleaved tokens' s' := by
  cases h with
  | nil => exact .inl rfl
  | blank hc hs => exact .inr (.inl ⟨_, _, rfl, hc, hs⟩)
  | token token hs => exact .inr (.inr ⟨token, _, _, rfl, rfl, hs⟩)

/-- A token of the text begins with no blank, so that nothing else can stand there. -/
theorem interleaved_token {tokens : List QString} {c : Char} {t rest : QString} (hc : QString.isSpace c = false) :
    Interleaved ((c :: t) :: tokens) (c :: t ++ rest) ↔ Interleaved tokens rest := by
  refine ⟨fun h => ?_, .token (c :: t)⟩
  rcases h.cases_text with hnil | ⟨d, s, heq, hd, -⟩ | ⟨token, tokens', s, htokens, heq, hs⟩
  · cases hnil
  · obtain rfl := (List.cons.inj heq).1
    rw [hc] at hd
    cases hd
  · obtain ⟨rfl, rfl⟩ := List.cons.inj htokens
    rwa [List.append_cancel_left heq]

/-- A character that is left out is a blank. -/
theorem interleaved_skip (c : Char) (s : QString) : Interleaved (tokenRegex.captures s) (c :: s) ↔
    QString.isSpace c = true ∧ Interleaved (tokenRegex.captures s) s := by
  refine ⟨fun h => ?_, fun h => .blank h.1 h.2⟩
  by_cases hc : QString.isSpace c = true
  · refine ⟨hc, ?_⟩
    rcases h.cases_text with hnil | ⟨d, s', heq, -, hs⟩ | ⟨token, tokens', s', htokens, heq, hs⟩
    · cases hnil
    · obtain ⟨-, rfl⟩ := List.cons.inj heq
      exact hs
    · obtain ⟨d, t, rfl, hd⟩ := captures_solid s token (htokens ▸ .head _)
      obtain rfl := (List.cons.inj heq).1
      rw [hc] at hd
      cases hd
  · -- the text has more in it than the tokens
    have hlength := congrArg List.length h.solid_eq
    have hle : (solid (tokenRegex.captures s).flatten).length ≤ (solid s).length :=
      ((captures_sublist s).filter _).length_le
    have hcons : solid (c :: s) = c :: solid s := List.filter_cons_of_pos (by simpa using hc)
    rw [hcons, List.length_cons] at hlength
    omega

/-- Nothing but blanks is left out of a text if it can be read to its end. -/
theorem interleaved_iff_readable : ∀ (n : Nat) {s : QString}, s.length ≤ n →
    (Interleaved (tokenRegex.captures s) s ↔ Readable s)
  | _, [], _ => ⟨fun _ => .nil, fun _ => .nil⟩
  | n + 1, c :: s, hn => by
    have hn : s.length ≤ n := Nat.le_of_succ_le_succ hn
    rcases captures_step c s with ⟨token, rest, heq, hne, hspace, hmatch, hreadable⟩ | ⟨hnone, hreadable⟩
    · obtain ⟨d, t, rfl⟩ := List.exists_cons_of_ne_nil hne
      obtain ⟨hd, hs⟩ := List.cons.inj heq
      rw [← hd] at heq hne
      have hlength : rest.length ≤ n := by
        rw [hs, List.append_eq, List.length_append] at hn
        omega
      rw [hreadable, ← interleaved_iff_readable n hlength]
      rw [heq] at hmatch ⊢
      rw [captures_match hmatch hne, interleaved_token hspace]
    · rw [captures_skip hnone, interleaved_skip, hreadable, interleaved_iff_readable n hn]

/-! ## Lexemes -/

/-- The well-formed lexemes. -/
inductive Lexeme
  | string (s : QString)
  | regex (s : QString) (caseInsensitive : Bool)
  | word (w : {w : QString // w ≠ [] ∧ ∀ c ∈ w, isWordToken c = true})
  | operator (op : {op : QString // op ∈ operatorTexts})
  | single (c : {c : Char // c ∈ "(){},".toList})

namespace Lexeme

def text : Lexeme → QString
  | string s => quoted s
  | regex s caseInsensitive => quotedRegex s caseInsensitive
  | word w => w.1
  | operator op => op.1
  | single c => [c.1]

def isWord : Lexeme → Bool
  | word _ => true
  | _ => false

def isLiteral : Lexeme → Bool
  | string _ => true
  | regex _ _ => true
  | _ => false

/-- A literal whose closing quote has a backslash before it. -/
def endsOpen : Lexeme → Bool
  | string s => s.getLast? = some '\\'
  | regex s _ => s.getLast? = some '\\'
  | _ => false

/-- The lexemes that become one token, or a longer one, if there is no blank between them. -/
def merges : Lexeme → Lexeme → Bool
  | operator _, operator _ => true
  | word _, regex _ _ => true
  | word w, string _ => w.1 = ['r'] ∨ w.1 = ['r', 'i']
  | _, _ => false

/-- The lexeme is a token of its own with the text behind it. -/
def Stands (rest : QString) : Lexeme → Prop
  | string s => s.getLast? = some '\\' → '"' ∉ rest
  | regex s _ => s.getLast? = some '\\' → '"' ∉ rest
  | word w => (∀ c, rest.head? = some c → isWordToken c = false) ∧ TokenRegex.literalRest (w.1 ++ rest) = none
  | operator op => first TokenRegex.operator some (op.1 ++ rest) = some rest
  | single _ => True

end Lexeme

/-! ### One lexeme -/

theorem exists_closing (s rest : QString) : ∃ rest', closing (escapeQuotes s ++ '"' :: rest) = some rest' ∧
    (rest' = rest ↔ (s.getLast? = some '\\' → '"' ∉ rest)) := by
  cases h : closing (escapeQuotes s ++ '"' :: rest) with
  | none => exact absurd (List.mem_append_right _ (.head _)) (closing_eq_none.mp h)
  | some rest' =>
    refine ⟨rest', rfl, ?_, fun hlast => ?_⟩
    · rintro rfl
      obtain ⟨t, hsplit, hlast⟩ := exists_of_closing h
      have hsame : escapeQuotes s = escapeQuotes t := List.append_cancel_right hsplit
      have hst : s = t := by
        rw [← unescapeQuotes_escapeQuotes s, hsame, unescapeQuotes_escapeQuotes]
      rwa [hst]
    · rw [closing_escapeQuotes hlast] at h
      exact (Option.some.inj h).symm

theorem exists_of_literalRest {token rest : QString} (h : TokenRegex.literalRest (token ++ rest) = some rest) :
    ∃ front s, token = front ++ quoted s := by
  have hclosed (front : QString) {s : QString} (hsplit : token ++ rest = front ++ '"' :: s)
      (h : closing s = some rest) : ∃ front s, token = front ++ quoted s := by
    obtain ⟨t, rfl, -⟩ := exists_of_closing h
    refine ⟨front, t, ?_⟩
    have heq : token ++ rest = front ++ quoted t ++ rest := by
      rw [hsplit]
      simp [quoted]
    exact List.append_cancel_right heq
  unfold TokenRegex.literalRest at h
  split at h
  · next heq => exact hclosed [] heq h
  · next heq => exact hclosed ['r'] heq h
  · next heq => exact hclosed ['r', 'i'] heq h
  · cases h

/-- A literal has a quote in it. -/
theorem quote_of_literalRest {token rest : QString} (h : TokenRegex.literalRest (token ++ rest) = some rest) :
    '"' ∈ token := by
  obtain ⟨front, s, rfl⟩ := exists_of_literalRest h
  exact List.mem_append_right _ (.head _)

theorem dropWhile_eq_self {p : Char → Bool} {s : QString} :
    s.dropWhile p = s ↔ ∀ c, s.head? = some c → p c = false := by
  constructor
  · intro h c hc
    have hhead := List.head?_dropWhile_not p s
    rw [h, hc] at hhead
    exact hhead
  · intro h
    cases s with
    | nil => rfl
    | cons c s => rw [List.dropWhile_cons_of_neg (by rw [h c rfl]; decide)]

/-- Behind an operator, or behind the `=` that follows it. -/
theorem operatorRest_append {op : QString} (hop : op ∈ operatorTexts) (rest : QString) :
    operatorRest (op ++ rest) = some rest ∨ operatorRest (op ++ rest) = some rest.tail := by
  simp only [operatorTexts, List.mem_cons, List.not_mem_nil, or_false] at hop
  rcases hop with rfl | rfl | rfl | rfl | rfl | rfl | rfl | rfl | rfl | rfl | rfl | rfl | rfl | rfl <;>
    simp [operatorRest] <;> by_cases h : rest.head? = some '=' <;> simp [h]

theorem first_operator_length {s rest : QString} (h : first TokenRegex.operator some s = some rest) :
    rest.length < s.length :=
  advances_seq advances_operatorUnit _ _ (mem_ends_of_first h)

/-- Two operators without a blank between them are not two tokens. -/
theorem first_operators_ne {op later : QString} (hop : op ∈ operatorTexts) (hlater : later ∈ operatorTexts)
    (rest : QString) : first TokenRegex.operator some (op ++ (later ++ rest)) ≠ some (later ++ rest) := by
  intro h
  -- the later one would be read as well
  have hmore : ∃ rest', first TokenRegex.operator some (later ++ rest) = some rest' := by
    rw [first_operator_eq]
    rcases operatorRest_append hlater rest with h | h <;> exact ⟨_, by rw [h]; rfl⟩
  obtain ⟨rest', hrest'⟩ := hmore
  have hshort := first_operator_length hrest'
  rw [first_operator_eq] at h
  rcases operatorRest_append hop (later ++ rest) with hrest | hrest
  · rw [hrest, Option.map_some, hrest'] at h
    exact absurd (congrArg List.length (Option.some.inj h)) (Nat.ne_of_lt hshort)
  · rw [hrest, Option.map_some] at h
    have hle : ((first TokenRegex.operator some (later ++ rest).tail).getD (later ++ rest).tail).length
        ≤ (later ++ rest).tail.length := by
      cases htail : first TokenRegex.operator some (later ++ rest).tail with
      | none => exact Nat.le_refl _
      | some t => exact Nat.le_of_lt (first_operator_length htail)
    rw [Option.some.inj h, List.length_tail] at hle
    omega

theorem first_of_literalRest {s rest : QString} (h : TokenRegex.literalRest s = some rest) :
    first tokenRegex some s = some rest := by
  rw [tokenRegex, first_alt, TokenRegex.first_literal, h]
  rfl

/-- What is matched where a lexeme stands. -/
theorem first_text_lexeme (lexeme : Lexeme) (rest : QString) :
    ∃ rest', first tokenRegex some (lexeme.text ++ rest) = some rest' ∧ (rest' = rest ↔ lexeme.Stands rest) := by
  cases lexeme with
  | string s =>
    obtain ⟨rest', hclosing, hiff⟩ := exists_closing s rest
    refine ⟨rest', first_of_literalRest ?_, hiff⟩
    rw [Lexeme.text, quoted, List.cons_append, List.append_assoc]
    exact hclosing
  | regex s caseInsensitive =>
    obtain ⟨rest', hclosing, hiff⟩ := exists_closing s rest
    refine ⟨rest', first_of_literalRest ?_, hiff⟩
    rw [Lexeme.text, quotedRegex, quoted, List.append_assoc, List.cons_append, List.append_assoc]
    cases caseInsensitive <;> exact hclosing
  | word w =>
    obtain ⟨w, hne, hw⟩ := w
    unfold Lexeme.text Lexeme.Stands
    show ∃ rest', first tokenRegex some (w ++ rest) = some rest' ∧ (rest' = rest ↔ _ ∧
      TokenRegex.literalRest (w ++ rest) = none)
    cases hliteral : TokenRegex.literalRest (w ++ rest) with
    | some rest' =>
      refine ⟨rest', first_of_literalRest hliteral, ?_, fun h => absurd h.2 (Option.some_ne_none _)⟩
      rintro rfl
      exact absurd (hw _ (quote_of_literalRest hliteral)) (by decide)
    | none =>
      have hsplit : w ++ rest.takeWhile isWordToken ++ rest.dropWhile isWordToken = w ++ rest := by
        rw [List.append_assoc, List.takeWhile_append_dropWhile]
      have hfirst := first_tokenRegex_word (hsplit.symm ▸ hliteral) (fun c hc => ?_)
        (List.append_ne_nil_of_left_ne_nil hne _) fun c hc => ?_
      · rw [hsplit] at hfirst
        refine ⟨_, hfirst, ?_⟩
        rw [dropWhile_eq_self]
        exact ⟨fun h => ⟨h, rfl⟩, And.left⟩
      · rcases List.mem_append.mp hc with hc | hc
        · exact hw c hc
        · exact List.all_eq_true.mp List.all_takeWhile c hc
      · have hhead := List.head?_dropWhile_not isWordToken rest
        rw [hc] at hhead
        exact hhead
  | operator op =>
    have hsome : ∃ rest', first TokenRegex.operator some (op.1 ++ rest) = some rest' := by
      rw [first_operator_eq]
      rcases operatorRest_append op.2 rest with h | h <;> exact ⟨_, by rw [h]; rfl⟩
    obtain ⟨rest', hrest'⟩ := hsome
    refine ⟨rest', first_tokenRegex_operator op.2 hrest', ?_⟩
    rw [Lexeme.Stands, hrest']
    exact ⟨congrArg some, Option.some.inj⟩
  | single c => exact ⟨rest, first_single c.2 rest, fun _ => trivial, fun _ => rfl⟩

theorem Lexeme.text_ne_nil (lexeme : Lexeme) : lexeme.text ≠ [] := by
  cases lexeme with
  | string s => exact List.cons_ne_nil _ _
  | regex s caseInsensitive => cases caseInsensitive <;> exact List.cons_ne_nil _ _
  | word w => exact w.2.1
  | operator op =>
    obtain ⟨c, t, heq, -⟩ := operatorTexts_start op.1 op.2
    rw [Lexeme.text, heq]
    exact List.cons_ne_nil _ _
  | single c => exact List.cons_ne_nil _ _

/-- The lexeme is the first token if it stands by itself. -/
theorem captures_lexeme (lexeme : Lexeme) (rest : QString) (tokens : List QString) :
    tokenRegex.captures (lexeme.text ++ rest) = lexeme.text :: tokens ↔
      lexeme.Stands rest ∧ tokenRegex.captures rest = tokens := by
  obtain ⟨rest', hfirst, hiff⟩ := first_text_lexeme lexeme rest
  constructor
  · intro h
    obtain ⟨token, htoken⟩ := matchAt_suffix ((matchAt_eq ..).trans hfirst)
    have hne : token ≠ [] := by
      rintro rfl
      have hlt := advances_tokenRegex _ _ (mem_ends_of_first hfirst)
      rw [← htoken] at hlt
      exact absurd hlt (Nat.lt_irrefl _)
    rw [← htoken] at hfirst h
    rw [captures_of_first hfirst hne] at h
    obtain ⟨rfl, htokens⟩ := List.cons.inj h
    obtain rfl := List.append_cancel_left htoken
    exact ⟨hiff.mp rfl, htokens⟩
  · rintro ⟨hstands, htokens⟩
    rw [hiff.mpr hstands] at hfirst
    rw [captures_of_first hfirst lexeme.text_ne_nil, htokens]

theorem captures_blanks {gap : QString} (hgap : ∀ c ∈ gap, QString.isSpace c = true) (s : QString) :
    tokenRegex.captures (gap ++ s) = tokenRegex.captures s := by
  induction gap with
  | nil => rfl
  | cons c gap ih =>
    rcases captures_step c (gap ++ s) with ⟨-, -, -, -, hc, -⟩ | ⟨hnone, -⟩
    · rw [hgap c (.head _)] at hc
      cases hc
    · rw [List.cons_append, captures_skip hnone]
      exact ih fun d hd => hgap d (.tail _ hd)

/-! ### Lexemes next to each other -/

/-- The text of the lexemes, each with the blanks behind it. -/
def written : List (Lexeme × QString) → QString
  | [] => []
  | (lexeme, gap) :: lexemes => lexeme.text ++ (gap ++ written lexemes)

/-- There are only blanks between the lexemes, and at least one between two words. -/
def Spaced : List (Lexeme × QString) → Prop
  | [] => True
  | (lexeme, gap) :: lexemes =>
    (∀ c ∈ gap, QString.isSpace c = true) ∧
      (gap = [] → ∀ later ∈ lexemes.head?, ¬ (lexeme.isWord = true ∧ later.1.isWord = true)) ∧ Spaced lexemes

/--
There is a blank between two lexemes that would become one token, and a literal that ends with a backslash
is the last one.
-/
def Apart : List (Lexeme × QString) → Prop
  | [] => True
  | (lexeme, gap) :: lexemes =>
    (gap = [] → ∀ later ∈ lexemes.head?, lexeme.merges later.1 = false) ∧
      (lexeme.endsOpen = true → ∀ later ∈ lexemes, later.1.isLiteral = false) ∧ Apart lexemes

theorem quote_text (lexeme : Lexeme) : '"' ∈ lexeme.text ↔ lexeme.isLiteral = true := by
  cases lexeme with
  | string s => exact ⟨fun _ => rfl, fun _ => .head _⟩
  | regex s caseInsensitive => exact ⟨fun _ => rfl, fun _ => List.mem_append_right _ (.head _)⟩
  | word w => exact ⟨fun h => absurd (w.2.2 _ h) (by decide), fun h => absurd h Bool.false_ne_true⟩
  | operator op =>
    have hall : ∀ op ∈ operatorTexts, '"' ∉ op := by decide
    exact ⟨fun h => absurd h (hall op.1 op.2), fun h => absurd h Bool.false_ne_true⟩
  | single c =>
    refine ⟨fun h => ?_, fun h => absurd h Bool.false_ne_true⟩
    have hc : '"' = c.1 := List.mem_singleton.mp h
    have hmem := c.2
    rw [← hc] at hmem
    exact absurd hmem (by decide)

theorem quote_written {lexemes : List (Lexeme × QString)} (h : Spaced lexemes) :
    '"' ∉ written lexemes ↔ ∀ later ∈ lexemes, later.1.isLiteral = false := by
  induction lexemes with
  | nil => exact ⟨fun _ later hlater => absurd hlater List.not_mem_nil, fun _ => List.not_mem_nil⟩
  | cons p lexemes ih =>
    obtain ⟨lexeme, gap⟩ := p
    have hgap : '"' ∉ gap := fun hmem => absurd (h.1 _ hmem) (by decide)
    rw [written, List.mem_append, List.mem_append, not_or, not_or, quote_text, ih h.2.2, List.forall_mem_cons]
    simp [hgap]

/-- A blank neither goes on with a word or an operator nor begins a literal. -/
theorem isSpace_cases {c : Char} (h : QString.isSpace c = true) :
    isWordToken c = false ∧ c ≠ '"' ∧ c ∉ operatorStarts := by
  have hstart : c ∉ tokenStarts := fun hmem => by
    rw [isSpace_of_mem_tokenStarts c hmem] at h
    cases h
  have hmem : ∀ c ∈ operatorStarts, c ∈ tokenStarts := QString.forall_of_all (by decide)
  refine ⟨?_, fun hquote => hstart (hquote ▸ .head _), fun hoperator => hstart (hmem c hoperator)⟩
  refine (Bool.not_eq_true _).mp fun hword => ?_
  rw [isSpace_of_isWordToken hword] at h
  cases h

/-- What stands before the first quote. -/
theorem eq_of_quote {u v s t : QString} (hu : '"' ∉ u) (hv : '"' ∉ v) (h : u ++ '"' :: s = v ++ '"' :: t) :
    u = v := by
  rcases List.append_eq_append_iff.mp h with ⟨w, rfl, hw⟩ | ⟨w, rfl, hw⟩
  · cases w with
    | nil => exact (List.append_nil _).symm
    | cons c w =>
      obtain ⟨rfl, -⟩ := List.cons.inj hw
      exact absurd (List.mem_append_right _ (.head _)) hv
  · cases w with
    | nil => exact List.append_nil _
    | cons c w =>
      obtain ⟨rfl, -⟩ := List.cons.inj hw
      exact absurd (List.mem_append_right _ (.head _)) hu

/-- A word with a quote behind it. -/
theorem literalRest_quote {w : QString} (hne : w ≠ []) (hw : ∀ c ∈ w, isWordToken c = true) (s : QString) :
    TokenRegex.literalRest (w ++ '"' :: s) = if w = ['r'] ∨ w = ['r', 'i'] then closing s else none := by
  have hquote : '"' ∉ w := fun hmem => absurd (hw _ hmem) (by decide)
  split
  · next h => rcases h with rfl | rfl <;> rfl
  · next h =>
    unfold TokenRegex.literalRest
    split
    · next heq => exact absurd (@eq_of_quote w [] _ _ hquote List.not_mem_nil heq) hne
    · next heq => exact absurd (.inl (@eq_of_quote w ['r'] _ _ hquote (by decide) heq)) h
    · next heq => exact absurd (.inr (@eq_of_quote w ['r', 'i'] _ _ hquote (by decide) heq)) h
    · rfl

/-- Behind a lexeme stands nothing, a blank, or the next one. -/
theorem stands_cases {lexeme : Lexeme} {gap : QString} {lexemes : List (Lexeme × QString)}
    (h : Spaced ((lexeme, gap) :: lexemes))
    (hblank : ∀ rest : QString, (∀ c, rest.head? = some c → QString.isSpace c = true) → lexeme.Stands rest)
    (hnext : ∀ (later : Lexeme) (rest : QString), ¬ (lexeme.isWord = true ∧ later.isWord = true) →
      (lexeme.Stands (later.text ++ rest) ↔ lexeme.merges later = false)) :
    lexeme.Stands (gap ++ written lexemes) ↔ (gap = [] → ∀ later ∈ lexemes.head?, lexeme.merges later.1 = false) := by
  cases gap with
  | cons c gap =>
    refine iff_of_true (hblank _ fun d hd => ?_) fun hgap => absurd hgap (List.cons_ne_nil _ _)
    obtain rfl := Option.some.inj hd
    exact h.1 c (.head _)
  | nil =>
    cases lexemes with
    | nil =>
      refine iff_of_true (hblank _ fun d hd => ?_) fun _ later hlater => ?_
      · cases hd
      · cases hlater
    | cons p lexemes =>
      obtain ⟨later, gap⟩ := p
      refine (hnext later (gap ++ written lexemes) (h.2.1 rfl _ rfl)).trans ⟨fun hmerges _ p hp => ?_, fun hall => ?_⟩
      · cases hp
        exact hmerges
      · exact hall rfl (later, gap) rfl

theorem stands_word_of_head (w : {w : QString // w ≠ [] ∧ ∀ c ∈ w, isWordToken c = true}) {rest : QString}
    (h : ∀ c, rest.head? = some c → isWordToken c = false ∧ c ≠ '"') : (Lexeme.word w).Stands rest :=
  ⟨fun c hc => (h c hc).1, literalRest_word w.2.2 h⟩

/-- A word is a token of its own if no literal goes on behind it. -/
theorem stands_word (w : {w : QString // w ≠ [] ∧ ∀ c ∈ w, isWordToken c = true}) (later : Lexeme) (rest : QString)
    (hword : ¬ ((Lexeme.word w).isWord = true ∧ later.isWord = true)) :
    (Lexeme.word w).Stands (later.text ++ rest) ↔ (Lexeme.word w).merges later = false := by
  have hother {c : Char} {s : QString} (hword : isWordToken c = false) (hquote : c ≠ '"') :
      (Lexeme.word w).Stands (c :: s) := by
    refine stands_word_of_head w fun d hd => ?_
    obtain rfl := Option.some.inj hd
    exact ⟨hword, hquote⟩
  cases later with
  | string s =>
    have hclosing : closing (escapeQuotes s ++ ['"'] ++ rest) ≠ none := fun hnone =>
      closing_eq_none.mp hnone (by simp)
    have hhead (c : Char) (hc : ((Lexeme.string s).text ++ rest).head? = some c) : isWordToken c = false := by
      obtain rfl := Option.some.inj hc
      decide
    rw [Lexeme.Stands, and_iff_right hhead, Lexeme.text, quoted, List.cons_append,
      literalRest_quote w.2.1 w.2.2, Lexeme.merges, decide_eq_false_iff_not]
    split
    · next h => exact iff_of_false hclosing (not_not_intro h)
    · next h => exact iff_of_true rfl h
  | regex s caseInsensitive =>
    refine iff_of_false (fun h => ?_) fun h => Bool.false_ne_true h.symm
    have hhead : ((Lexeme.regex s caseInsensitive).text ++ rest).head? = some 'r' := by
      cases caseInsensitive <;> rfl
    exact absurd (h.1 'r' hhead) (by decide)
  | word w' => exact absurd ⟨rfl, rfl⟩ hword
  | operator op =>
    obtain ⟨c, t, hop, hquote, hword⟩ := operatorTexts_start op.1 op.2
    refine iff_of_true ?_ rfl
    rw [Lexeme.text, hop]
    exact hother hword hquote
  | single c =>
    have hall : ∀ c ∈ "(){},".toList, isWordToken c = false ∧ c ≠ '"' := QString.forall_of_all (by decide)
    exact iff_of_true (hother (hall c.1 c.2).1 (hall c.1 c.2).2) rfl

/-- An operator is a token of its own if no other one is behind it. -/
theorem stands_operator (op : {op : QString // op ∈ operatorTexts}) (later : Lexeme) (rest : QString) :
    (Lexeme.operator op).Stands (later.text ++ rest) ↔ (Lexeme.operator op).merges later = false := by
  have hother {c : Char} {s : QString} (hc : c ∉ operatorStarts) : (Lexeme.operator op).Stands (c :: s) := by
    refine first_operator op.2 fun d hd => ?_
    obtain rfl := Option.some.inj hd
    exact hc
  have hword {c : Char} (hc : isWordToken c = true) : c ∉ operatorStarts := fun hmem => by
    have hall : ∀ c ∈ operatorStarts, isWordToken c = false := QString.forall_of_all (by decide)
    rw [hall c hmem] at hc
    cases hc
  cases later with
  | string s => exact iff_of_true (hother (by decide)) rfl
  | regex s caseInsensitive =>
    refine iff_of_true ?_ rfl
    cases caseInsensitive <;> exact hother (by decide)
  | word w =>
    obtain ⟨c, t, hw⟩ := List.exists_cons_of_ne_nil w.2.1
    refine iff_of_true ?_ rfl
    rw [Lexeme.text, hw]
    exact hother (hword (w.2.2 c (hw ▸ .head _)))
  | operator op' =>
    exact iff_of_false (first_operators_ne op.2 op'.2 rest) fun h => Bool.false_ne_true h.symm
  | single c =>
    have hall : ∀ c ∈ "(){},".toList, c ∉ operatorStarts := QString.forall_of_all (by decide)
    exact iff_of_true (hother (hall c.1 c.2)) rfl

theorem stands_iff {lexeme : Lexeme} {gap : QString} {lexemes : List (Lexeme × QString)}
    (h : Spaced ((lexeme, gap) :: lexemes)) : lexeme.Stands (gap ++ written lexemes) ↔
      (gap = [] → ∀ later ∈ lexemes.head?, lexeme.merges later.1 = false) ∧
        (lexeme.endsOpen = true → ∀ later ∈ lexemes, later.1.isLiteral = false) := by
  have hquote : '"' ∉ gap ++ written lexemes ↔ ∀ later ∈ lexemes, later.1.isLiteral = false := by
    have hgap : '"' ∉ gap := fun hmem => absurd (h.1 _ hmem) (by decide)
    rw [List.mem_append, not_or, quote_written h.2.2]
    exact and_iff_right hgap
  cases lexeme with
  | string s =>
    rw [Lexeme.Stands, hquote, Lexeme.endsOpen, decide_eq_true_iff]
    exact (and_iff_right fun _ _ _ => rfl).symm
  | regex s caseInsensitive =>
    rw [Lexeme.Stands, hquote, Lexeme.endsOpen, decide_eq_true_iff]
    exact (and_iff_right fun _ _ _ => rfl).symm
  | word w =>
    have hblank (rest : QString) (hrest : ∀ c, rest.head? = some c → QString.isSpace c = true) :
        (Lexeme.word w).Stands rest :=
      stands_word_of_head w fun c hc => ⟨(isSpace_cases (hrest c hc)).1, (isSpace_cases (hrest c hc)).2.1⟩
    rw [stands_cases h hblank (stands_word w)]
    exact (and_iff_left fun hopen => absurd hopen Bool.false_ne_true).symm
  | operator op =>
    have hblank (rest : QString) (hrest : ∀ c, rest.head? = some c → QString.isSpace c = true) :
        (Lexeme.operator op).Stands rest :=
      first_operator op.2 fun c hc => (isSpace_cases (hrest c hc)).2.2
    rw [stands_cases h hblank fun later rest _ => stands_operator op later rest]
    exact (and_iff_left fun hopen => absurd hopen Bool.false_ne_true).symm
  | single c => exact ⟨fun _ => ⟨fun _ _ _ => rfl, fun hopen => absurd hopen Bool.false_ne_true⟩, fun _ => trivial⟩

theorem captures_written {lexemes : List (Lexeme × QString)} (h : Spaced lexemes) :
    tokenRegex.captures (written lexemes) = lexemes.map (·.1.text) ↔ Apart lexemes := by
  induction lexemes with
  | nil => exact ⟨fun _ => trivial, fun _ => rfl⟩
  | cons p lexemes ih =>
    obtain ⟨lexeme, gap⟩ := p
    rw [written, List.map_cons, captures_lexeme, stands_iff h, captures_blanks h.1, ih h.2.2, Apart, and_assoc]

namespace Tokenizer

/--
A text is made of its tokens and of blanks if it can be read to its end. Lexemes, with blanks between them
where two words need one, are the tokens if none of them goes on in the next one.
-/
theorem tokens_iff (text gap : QString) (lexemes : List (Lexeme × QString))
    (hgap : ∀ c ∈ gap, QString.isSpace c = true) (hspaced : Spaced lexemes) :
    (Interleaved (new text).tokens text ↔ Readable text) ∧
      ((new (gap ++ written lexemes)).tokens = lexemes.map (·.1.text) ↔ Apart lexemes) := by
  constructor
  · rw [new_eq]
    exact interleaved_iff_readable text.length (Nat.le_refl _)
  · rw [new_eq, captures_blanks hgap]
    exact captures_written hspaced

/-- A number, an operator, a parenthesis and a literal. -/
def comparison : List (Lexeme × QString) :=
  [(.word ⟨"1".toList, by decide, QString.forall_of_all (by decide)⟩, []),
    (.operator ⟨"==".toList, by decide⟩, []), (.single ⟨'(', by decide⟩, []),
    (.string "a b".toList, [' ']), (.single ⟨')', by decide⟩, [])]

theorem tokens_comparison : Interleaved (new "1 == 2".toList).tokens "1 == 2".toList ∧
    (new (" ".toList ++ written comparison)).tokens = comparison.map (·.1.text) := by
  have hspaced : Spaced comparison := by simp [comparison, Spaced, Lexeme.isWord, QString.isSpace]
  have happart : Apart comparison := by
    simp [comparison, Apart, Lexeme.merges, Lexeme.isLiteral, Lexeme.endsOpen]
  have hblank : ∀ c ∈ " ".toList, QString.isSpace c = true := QString.forall_of_all (by decide)
  have hreadable : Readable "1 == 2".toList :=
    .plain (by decide) (.plain (by decide) (.operator rfl (.plain (by decide) (.plain (by decide) .nil))))
  have h := tokens_iff "1 == 2".toList " ".toList comparison hblank hspaced
  exact ⟨h.1.mpr hreadable, h.2.mpr happart⟩

/-- Two operators. -/
def operators : List (Lexeme × QString) :=
  [(.word ⟨"1".toList, by decide, QString.forall_of_all (by decide)⟩, []),
    (.operator ⟨"&&".toList, by decide⟩, []), (.operator ⟨"!".toList, by decide⟩, []),
    (.word ⟨"1".toList, by decide, QString.forall_of_all (by decide)⟩, [])]

/-- A character that is left out of a valid filter, and two operators that are one token. -/
theorem tokens_dropped : (∃ parser, FilterParser.new "1 #".toList = .ok parser ∧ parser.valid = true) ∧
    ¬ Interleaved (new "1 #".toList).tokens "1 #".toList ∧
    Spaced operators ∧ (new (written operators)).tokens = ["1".toList, "&&!".toList, "1".toList] ∧
    operators.map (·.1.text) = ["1".toList, "&&".toList, "!".toList, "1".toList] := by
  refine ⟨⟨_, rfl, by decide⟩, fun h => ?_, ?_, by decide, rfl⟩
  · exact absurd h.solid_eq (by decide)
  · simp [operators, Spaced, Lexeme.isWord]

end Tokenizer

end Dankerino
