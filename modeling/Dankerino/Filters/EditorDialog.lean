import Dankerino.Filters.RoundTrip
import Dankerino.Filters.Shape

/-!
# The filter creator

`ChannelFilterEditorDialog` of `widgets/dialogs/ChannelFilterEditorDialog.cpp`: two values and an
operator between them, of which `getFilter` makes the text of a filter. The values and the operator
are put in by one call of `QString::arg` each, so a place marker in the left text takes what was meant
for another place. A backslash at its end takes the quote that should close it.
-/

namespace Dankerino

open Infra Regex Expression QString

/-! ## The dialog -/

/-- `validIdentifiersMap`. All its values are different. -/
def validIdentifiersMap : List (QString × QString) :=
  [("author.badges".toList, "author badges".toList), ("author.color".toList, "author color".toList),
    ("author.name".toList, "author name".toList), ("author.no_color".toList, "author has no color?".toList),
    ("author.subbed".toList, "author subscribed?".toList), ("author.sub_length".toList, "author sub length".toList),
    ("channel.name".toList, "channel name".toList), ("channel.watching".toList, "/watching channel?".toList),
    ("channel.live".toList, "Channel live?".toList), ("flags.highlighted".toList, "highlighted?".toList),
    ("flags.points_redeemed".toList, "redeemed points?".toList),
    ("flags.sub_message".toList, "sub/resub message?".toList),
    ("flags.system_message".toList, "system message?".toList),
    ("flags.reward_message".toList, "channel point reward message?".toList),
    ("flags.first_message".toList, "first message?".toList), ("flags.whisper".toList, "whisper message?".toList),
    ("flags.reply".toList, "reply message?".toList), ("message.content".toList, "message text".toList),
    ("message.length".toList, "message length".toList),
    ("flags.webchat_detected".toList, "Webchat detected".toList)]

/-- `validIdentifiersMap.key(value)`. -/
def identifierKey (value : QString) : QString :=
  ((validIdentifiersMap.find? fun p => p.2 = value).map Prod.fst).getD []

def friendlyBinaryOps : List QString :=
  ["and".toList, "or".toList, "+".toList, "-".toList, "*".toList, "/".toList, "%".toList, "equals".toList,
    "not equals".toList, "<".toList, ">".toList, "<=".toList, ">=".toList, "contains".toList,
    "starts with".toList, "ends with".toList, "(nothing)".toList]

def realBinaryOps : List QString :=
  ["&&".toList, "||".toList, "+".toList, "-".toList, "*".toList, "/".toList, "%".toList, "==".toList,
    "!=".toList, "<".toList, ">".toList, "<=".toList, ">=".toList, "contains".toList, "startswith".toList,
    "endswith".toList, []]

theorem length_binaryOps : friendlyBinaryOps.length = realBinaryOps.length := by decide

namespace ChannelFilterEditorDialog

/-- The index of the type, the text of the list of variables, and the text of the input. -/
structure ValueSpecifier where
  typeCombo : Nat
  varCombo : QString
  valueInput : QString

def ValueSpecifier.expressionText (specifier : ValueSpecifier) : QString :=
  match specifier.typeCombo with
  | 0 => arg "\"%1\"".toList (replace specifier.valueInput ['"'] ['\\', '"'])
  | 1 => specifier.valueInput
  | 2 => identifierKey specifier.varCombo
  | _ => []

/-- The index of the operator, and the two values. -/
structure BinaryOperationSpecifier where
  opCombo : Fin friendlyBinaryOps.length
  left : ValueSpecifier
  right : ValueSpecifier

def BinaryOperationSpecifier.expressionText (specifier : BinaryOperationSpecifier) : QString :=
  let opText := realBinaryOps.get (specifier.opCombo.cast length_binaryOps)
  if opText.isEmpty then specifier.left.expressionText
  else arg (arg (arg "(%1) %2 (%3)".toList specifier.left.expressionText) opText) specifier.right.expressionText

def getFilter (expressionSpecifier : BinaryOperationSpecifier) : QString := expressionSpecifier.expressionText

/-! ## What the user has chosen -/

/-- The value that a row of the dialog stands for. -/
inductive Chosen (specifier : ValueSpecifier) : Expression → Prop
  | text : specifier.typeCombo = 0 → Chosen specifier (.value (.string specifier.valueInput) .string)
  | number : specifier.typeCombo = 1 → specifier.valueInput ≠ [] →
    (∀ c ∈ specifier.valueInput, c.isDigit = true) → Nat.ofDigitChars 10 specifier.valueInput 0 ≤ 2147483647 →
    Chosen specifier (.value (.int (Nat.ofDigitChars 10 specifier.valueInput 0)) .int)
  | identifier {key : QString} : specifier.typeCombo = 2 → (key, specifier.varCombo) ∈ validIdentifiersMap →
    Chosen specifier (.value (.string key) .identifier)

/-- The operator that each entry of the list stands for. -/
def operators : List (QString × Option TokenType) :=
  [("and".toList, some .and), ("or".toList, some .or), ("+".toList, some .plus), ("-".toList, some .minus),
    ("*".toList, some .multiply), ("/".toList, some .divide), ("%".toList, some .mod),
    ("equals".toList, some .eq), ("not equals".toList, some .neq), ("<".toList, some .lt), (">".toList, some .gt),
    ("<=".toList, some .lte), (">=".toList, some .gte), ("contains".toList, some .contains),
    ("starts with".toList, some .startsWith), ("ends with".toList, some .endsWith), ("(nothing)".toList, none)]

def BinaryOperationSpecifier.operator (specifier : BinaryOperationSpecifier) : Option TokenType :=
  (operators.lookup (friendlyBinaryOps.get specifier.opCombo)).getD none

/-- The operator applied to the two values. -/
def BinaryOperationSpecifier.chosen (specifier : BinaryOperationSpecifier) (left right : Expression) : Expression :=
  match specifier.operator with
  | some op => .binary op left right
  | none => left

/-- The text is valid, and it is the expression. -/
def Writes (text : QString) (e : Expression) : Prop :=
  ∃ parser, FilterParser.new text = .ok parser ∧ parser.valid = true ∧ parser.builtExpression = e

/--
The left text has no place marker with a number up to three, and it does not end with a backslash if
the right value is a text too.
-/
def Writable (specifier : BinaryOperationSpecifier) : Prop :=
  specifier.operator = none ∨ (specifier.left.typeCombo = 0 →
    (∀ number ∈ markers specifier.left.valueInput, 3 < number) ∧
      (specifier.left.valueInput.getLast? = some '\\' → specifier.right.typeCombo ≠ 0))

/-- What the entries of the list stand for, and their texts. -/
theorem operators_spec : ∀ i : Fin friendlyBinaryOps.length,
    (((operators.lookup (friendlyBinaryOps.get i)).getD none).all fun op =>
      realBinaryOps.get (i.cast length_binaryOps) = binaryOpText op ∧ binaryOpText op ≠ [] ∧
        (op = .and ∨ op = .or ∨ op.typeIsBinaryOp = true ∨ op.typeIsMathOp = true)) = true ∧
    ((operators.lookup (friendlyBinaryOps.get i)).getD none = none →
      realBinaryOps.get (i.cast length_binaryOps) = []) := by
  decide +kernel

theorem expressionText_nothing {specifier : BinaryOperationSpecifier} (h : specifier.operator = none) :
    specifier.expressionText = specifier.left.expressionText := by
  rw [BinaryOperationSpecifier.expressionText, (operators_spec specifier.opCombo).2 h]
  rfl

theorem expressionText_operator {specifier : BinaryOperationSpecifier} {op : TokenType}
    (h : specifier.operator = some op) :
    specifier.expressionText = arg (arg (arg "(%1) %2 (%3)".toList specifier.left.expressionText) (binaryOpText op))
      specifier.right.expressionText ∧
    (op = .and ∨ op = .or ∨ op.typeIsBinaryOp = true ∨ op.typeIsMathOp = true) := by
  have hspec := (operators_spec specifier.opCombo).1
  unfold BinaryOperationSpecifier.operator at h
  rw [h, Option.all_some, decide_eq_true_iff] at hspec
  obtain ⟨htext, hne, hop⟩ := hspec
  refine ⟨?_, hop⟩
  rw [BinaryOperationSpecifier.expressionText, htext]
  exact if_neg fun hempty => hne (List.isEmpty_iff.mp hempty)

/-! ## The texts of the values -/

/-- The text of a value is one token: a text in quotes, or a word. -/
inductive Operand : QString → Expression → Prop
  | text (s : QString) : Operand (quoted s) (.value (.string s) .string)
  | word {t : QString} {e : Expression} : t ≠ [] → (∀ c ∈ t, isWordToken c = true) →
    FilterParser.tokenValue t (tokenize t) = some e → tokenize t ≠ .string → Operand t e

theorem identifierKey_of_mem : ∀ p ∈ validIdentifiersMap, identifierKey p.2 = p.1 ∧ p.1 ∈ validIdentifiers := by
  decide +kernel

theorem isWordToken_of_isDigit {c : Char} (h : c.isDigit = true) : isWordToken c = true := by
  simp [isWordToken, TokenRegex.isWordChar, Char.isAlphanum, h]

/-- A row of the dialog writes its value, in quotes if it is a text. -/
theorem operand_of_chosen {specifier : ValueSpecifier} {e : Expression} (h : Chosen specifier e) :
    Operand specifier.expressionText e := by
  cases h with
  | text htype =>
    rw [ValueSpecifier.expressionText, htype]
    exact .text specifier.valueInput
  | number htype hne hdigits hmax =>
    have htext : specifier.expressionText = specifier.valueInput := by
      rw [ValueSpecifier.expressionText, htype]
      rfl
    have hint := toInt_of_digits hne hdigits
    rw [if_pos (by omega)] at hint
    have htokenize := FilterParser.tokenize_digits hne hdigits hint
    rw [htext]
    refine .word hne (fun c hc => isWordToken_of_isDigit (hdigits c hc)) ?_ (by rw [htokenize]; decide)
    rw [htokenize, FilterParser.tokenValue, hint]
    rfl
  | identifier htype hmem =>
    obtain ⟨hkey, hvalid⟩ := identifierKey_of_mem _ hmem
    have htext : specifier.expressionText = identifierKey specifier.varCombo := by
      rw [ValueSpecifier.expressionText, htype]
      rfl
    have hall : ∀ s ∈ validIdentifiers, s ≠ [] ∧ s.all (fun c => isWordToken c) = true ∧ tokenize s = .identifier := by
      decide +kernel
    obtain ⟨hne, hword, htokenize⟩ := hall _ hvalid
    rw [htext, hkey]
    refine .word hne (List.all_eq_true.mp hword) ?_ (by rw [htokenize]; decide)
    rw [htokenize]
    rfl

/-- Only the first type is a text. -/
theorem Chosen.text_iff {specifier : ValueSpecifier} {e : Expression} (h : Chosen specifier e) :
    specifier.typeCombo = 0 ↔ e = .value (.string specifier.valueInput) .string := by
  cases h with
  | text htype => exact ⟨fun _ => rfl, fun _ => htype⟩
  | number htype _ _ _ =>
    rw [htype]
    exact ⟨fun h => (by cases h), fun h => (by cases h)⟩
  | identifier htype _ =>
    rw [htype]
    exact ⟨fun h => (by cases h), fun h => (by cases h)⟩

/-! ## Texts that are valid -/

theorem writes_iff_derives (text : QString) (e : Expression) :
    Writes text e ↔ FilterParser.Derives .expr (tokenRegex.captures text) e [] := by
  obtain ⟨parser, hnew, htokenizer, hvalid, htree⟩ := FilterParser.new_valid_iff text
  have htokens : parser.tokenizer.tokens = tokenRegex.captures text := by
    rw [htokenizer, Tokenizer.new_eq]
  rw [htokens] at hvalid htree
  constructor
  · rintro ⟨parser', hnew', hvalid', rfl⟩
    obtain rfl := Except.ok.inj (hnew'.symm.trans hnew)
    obtain ⟨tree, h⟩ := hvalid.mp hvalid'
    rwa [htree tree h]
  · intro h
    exact ⟨parser, hnew, hvalid.mpr ⟨e, h⟩, htree e h⟩

/-- What a valid text has of the literals of its expression. -/
theorem literals_of_writes {text : QString} {e : Expression} (h : Writes text e) :
    (tokenRegex.captures text).filter FilterParser.isLiteral = e.literals := by
  obtain ⟨parser, hnew, hvalid, rfl⟩ := h
  obtain ⟨parser', hconstruct, htokenizer, -, -, hspec⟩ := FilterParser.construct_spec text (Nat.le_refl _)
  obtain rfl := Except.ok.inj (hconstruct.symm.trans hnew)
  have htokens : parser'.tokenizer.tokens = tokenRegex.captures text := by
    rw [htokenizer, Tokenizer.new_eq]
  rw [htokens] at hspec
  exact (hspec (fun token ht => ((captures_spec text).1 token ht).1) hvalid).2

theorem types_of_writes {text : QString} {e : Expression} (h : Writes text e) :
    types (tokenRegex.captures text) = shape e := by
  have h := FilterParser.types_of_derives ((writes_iff_derives text e).mp h)
  exact h.trans (List.append_nil _)

/-! ## What is put in -/

/-- The lowest place marker is the one that is replaced. -/
theorem exists_arg {s : QString} {number : Nat} (h : number ∈ markers s) (a : QString) :
    ∃ lowest ∈ markers s, (∀ number ∈ markers s, lowest ≤ number) ∧ arg s a = substitute lowest a s := by
  unfold arg
  cases hmin : (markers s).min? with
  | none =>
    rw [List.min?_eq_none_iff] at hmin
    rw [hmin] at h
    cases h
  | some lowest =>
    obtain ⟨hmem, hle⟩ := List.min?_eq_some_iff.mp hmin
    exact ⟨lowest, hmem, hle, rfl⟩

theorem escapeQuotes_append {u : QString} (hu : '"' ∉ u) (v : QString) :
    escapeQuotes (u ++ v) = u ++ escapeQuotes v := by
  induction u with
  | nil => rfl
  | cons c u ih =>
    rw [List.mem_cons, not_or] at hu
    rw [List.cons_append, escapeQuotes_cons (Ne.symm hu.1), ih hu.2, List.cons_append]

/-- The backslashes before the quotes make no markers. -/
theorem markers_escapeQuotes (n : Nat) : ∀ s : QString, s.length ≤ n → markers (escapeQuotes s) = markers s := by
  induction n with
  | zero =>
    intro s hn
    rw [List.length_eq_zero_iff.mp (Nat.le_zero.mp hn)]
    rfl
  | succ n ih =>
    intro s hn
    by_cases hquote : '"' ∈ s
    · obtain ⟨u, v, rfl, hu⟩ := List.eq_append_cons_of_mem hquote
      have hlength : v.length ≤ n := by
        rw [List.length_append, List.length_cons] at hn
        omega
      rw [escapeQuotes_append hu, escapeQuotes_quote, markers_append (stops_cons rfl (by decide) _),
        markers_append (stops_cons rfl (by decide) _), markers_cons (by decide), markers_cons (by decide),
        markers_cons (by decide), ih v hlength]
    · have hsame := escapeQuotes_append hquote []
      rw [List.append_nil] at hsame
      rw [hsame]
      exact congrArg markers (List.append_nil s)

theorem markers_quoted (s : QString) : markers (quoted s) = markers s := by
  rw [quoted, markers_cons (by decide), markers_append (stops_cons rfl (by decide) _),
    markers_escapeQuotes s.length s (Nat.le_refl _)]
  exact List.append_nil _

theorem substitute_quoted (number : Nat) (a s : QString) :
    substitute number a ('"' :: (s ++ ['"'])) = '"' :: (substitute number a s ++ ['"']) := by
  rw [substitute_cons (by decide), substitute_append (stops_cons rfl (by decide) _)]
  rfl

/-- The first part: the left value is in its place. -/
theorem arg_left (left : QString) : arg "(%1) %2 (%3)".toList left = '(' :: (left ++ ") %2 (%3)".toList) := rfl

/-! ## When the text is right -/

section Right

variable {left right : QString} {l r : Expression} {op : TokenType}

/-- An operand is a token if nothing takes its closing quote. -/
theorem captures_operand (h : Operand left l) {rest : QString}
    (hquote : ∀ s, left = quoted s → s.getLast? = some '\\' → '"' ∉ rest) :
    tokenRegex.captures (left ++ ')' :: rest) = left :: tokenRegex.captures (')' :: rest) := by
  cases h with
  | text s =>
    refine captures_quoted fun hopen hmem => ?_
    refine hquote s rfl ((endsOpen_quoted s).mp hopen) ?_
    rcases List.mem_cons.mp hmem with hc | hmem
    · cases hc
    · exact hmem
  | word hne hword _ _ => exact captures_value hword hne (follow_cons rest)

theorem Operand.tokenValue (h : Operand left l) : FilterParser.tokenValue left (tokenize left) = some l := by
  cases h with
  | text s =>
    rw [tokenize_quoted, FilterParser.tokenValue, chop_mid_quoted, unescapeQuotes_escapeQuotes]
  | word _ _ hvalue _ => exact hvalue

open FilterParser in
/-- An operand in parentheses. -/
theorem derives_operand (h : Operand left l) (ts : List QString) :
    Derives .value (['('] :: left :: [')'] :: ts) l ts :=
  .parentheses rfl (.expr (.and (.unary (.cond (.token _ h.tokenValue) (.condEnd _ _))) (.andEnd _ _)) (.orEnd _ _)) rfl

open FilterParser in
/-- The tokens of the operation are read as the operation. -/
theorem derives_operation (hl : Operand left l) (hr : Operand right r)
    (hop : op = .and ∨ op = .or ∨ op.typeIsBinaryOp = true ∨ op.typeIsMathOp = true) :
    Derives .expr [['('], left, [')'], binaryOpText op, ['('], right, [')']] (.binary op l r) [] := by
  have htokenize := tokenize_binaryOpText hop
  have hleft := derives_operand hl [binaryOpText op, ['('], right, [')']]
  have hright := derives_operand hr []
  have hunary {ts us : List QString} {e : Expression} (h : Derives .value ts e us) : Derives .unary ts e us :=
    .unary (.cond h (.condEnd _ _))
  rcases hop with rfl | rfl | hop | hop
  · exact .expr (.and (hunary hleft) (.andCons htokenize (hunary hright) (.andEnd _ _))) (.orEnd _ _)
  · exact .expr (.and (hunary hleft) (.andEnd _ _))
      (.orCons htokenize (.and (hunary hright) (.andEnd _ _)) (.orEnd _ _))
  · have hbinary : Derives (.condRest l) (binaryOpText op :: [['('], right, [')']])
        (.binary (tokenize (binaryOpText op)) l r) [] :=
      .binary (by rwa [htokenize]) hright
    rw [htokenize] at hbinary
    exact .expr (.and (.unary (.cond hleft hbinary)) (.andEnd _ _)) (.orEnd _ _)
  · have hmath : Derives (.condRest l) (binaryOpText op :: [['('], right, [')']])
        (.binary (tokenize (binaryOpText op)) l r) [] :=
      .math (by rwa [htokenize]) hright (.condEnd _ _)
    rw [htokenize] at hmath
    exact .expr (.and (.unary (.cond hleft hmath)) (.andEnd _ _)) (.orEnd _ _)

/-- A word has neither a quote nor a place marker. -/
theorem notMem_word {t : QString} (h : ∀ c ∈ t, isWordToken c = true) : '"' ∉ t ∧ '%' ∉ t :=
  ⟨fun hmem => absurd (h _ hmem) (by decide), fun hmem => absurd (h _ hmem) (by decide)⟩

/-- Where the values and the operator are in their places, the text is the operation. -/
theorem writes_of_places (hl : Operand left l) (hr : Operand right r)
    (hop : op = .and ∨ op = .or ∨ op.typeIsBinaryOp = true ∨ op.typeIsMathOp = true)
    (hquote : ∀ s, left = quoted s → s.getLast? = some '\\' → '"' ∉ right) :
    Writes ('(' :: (left ++ ')' :: ' ' :: (binaryOpText op ++ ' ' :: '(' :: (right ++ [')'])))) (.binary op l r) := by
  have hopQuote : '"' ∉ binaryOpText op := by cases op <;> decide
  have hbehind (s : QString) (hs : left = quoted s) (hlast : s.getLast? = some '\\') :
      '"' ∉ ' ' :: (binaryOpText op ++ ' ' :: '(' :: (right ++ [')'])) := by
    simp [hopQuote, hquote s hs hlast]
  have hleft := captures_operand hl hbehind
  have hright := @captures_operand _ _ hr [] fun _ _ _ => List.not_mem_nil
  rw [writes_iff_derives, captures_single (by decide), hleft, captures_single (by decide), captures_blank,
    captures_binaryOpText hop, captures_single (by decide), hright, captures_single (by decide)]
  exact derives_operation hl hr hop

end Right

/-! ## When the text is not right -/

/-- What is put in goes to the markers of the left text that are lower, or else to the place behind it. -/
theorem arg_tail {tail : QString} {k : Nat} (hstops : Stops tail) (hk : k ∈ markers tail)
    (hmin : ∀ number ∈ markers tail, k ≤ number) (left a : QString) :
    (∃ left', arg ('(' :: (left ++ tail)) a = '(' :: (left' ++ tail)) ∨
      ((∀ number ∈ markers left, k ≤ number) ∧
        arg ('(' :: (left ++ tail)) a = '(' :: (substitute k a left ++ substitute k a tail)) := by
  have hmarkers : markers ('(' :: (left ++ tail)) = markers left ++ markers tail := by
    rw [markers_cons (by decide), markers_append hstops]
  obtain ⟨lowest, hmem, hle, harg⟩ := exists_arg (hmarkers ▸ List.mem_append_right _ hk) a
  rw [hmarkers] at hmem hle
  rw [substitute_cons (by decide), substitute_append hstops] at harg
  by_cases hlowest : lowest = k
  · subst hlowest
    exact .inr ⟨fun number hn => hle number (List.mem_append_left _ hn), harg⟩
  · left
    have hnot : lowest ∉ markers tail := fun hn => hlowest
      (Nat.le_antisymm (hle k (List.mem_append_right _ hk)) (hmin lowest hn))
    rw [substitute_of_notMem hnot] at harg
    exact ⟨_, harg⟩

/-- Where the operator and the right value go if the left text may have markers of its own. -/
theorem written_cases (left right : QString) (op : TokenType) :
    (∃ front, arg (arg (arg "(%1) %2 (%3)".toList left) (binaryOpText op)) right = front ++ ") %2 (%3)".toList) ∨
    (∃ front, arg (arg (arg "(%1) %2 (%3)".toList left) (binaryOpText op)) right
      = front ++ ')' :: ' ' :: (right ++ " (%3)".toList)) ∨
    (∃ front, arg (arg (arg "(%1) %2 (%3)".toList left) (binaryOpText op)) right
      = front ++ ')' :: ' ' :: (binaryOpText op ++ " (%3)".toList)) ∨
    ((∀ number ∈ markers left, 2 ≤ number) ∧
      (∀ number ∈ markers (substitute 2 (binaryOpText op) left), 3 ≤ number) ∧
      arg (arg (arg "(%1) %2 (%3)".toList left) (binaryOpText op)) right
        = '(' :: (substitute 3 right (substitute 2 (binaryOpText op) left) ++
            ')' :: ' ' :: (binaryOpText op ++ ' ' :: '(' :: (right ++ [')'])))) := by
  have hstops : Stops ") %2 (%3)".toList := stops_cons (c := ')') rfl (by decide) _
  have hmarkers : markers ") %2 (%3)".toList = [2, 3] := by decide
  have htwo : 2 ∈ markers ") %2 (%3)".toList := by decide
  have hmin : ∀ number ∈ markers ") %2 (%3)".toList, 2 ≤ number := by
    rw [hmarkers]
    decide
  have hplace (a : QString) : substitute 2 a ") %2 (%3)".toList = ')' :: ' ' :: (a ++ " (%3)".toList) := rfl
  rw [arg_left]
  rcases arg_tail hstops htwo hmin left (binaryOpText op) with ⟨left', h⟩ | ⟨hleft, h⟩
  · -- the operator went into the left text
    rw [h]
    rcases arg_tail hstops htwo hmin left' right with ⟨left'', h⟩ | ⟨-, h⟩
    · exact .inl ⟨'(' :: left'', h⟩
    · rw [hplace] at h
      exact .inr (.inl ⟨'(' :: substitute 2 right left', h⟩)
  · rw [h, hplace]
    have hstops' : Stops (')' :: ' ' :: (binaryOpText op ++ " (%3)".toList)) := stops_cons rfl (by decide) _
    have hmarkers' : markers (')' :: ' ' :: (binaryOpText op ++ " (%3)".toList)) = [3] := by cases op <;> decide
    have hplace' : substitute 3 right (')' :: ' ' :: (binaryOpText op ++ " (%3)".toList))
        = ')' :: ' ' :: (binaryOpText op ++ ' ' :: '(' :: (right ++ [')'])) := by cases op <;> rfl
    rcases arg_tail hstops' (k := 3) (by rw [hmarkers']; decide) (by rw [hmarkers']; decide)
      (substitute 2 (binaryOpText op) left) right with ⟨left', h⟩ | ⟨hleft', h⟩
    · exact .inr (.inr (.inl ⟨'(' :: left', h⟩))
    · rw [hplace'] at h
      exact .inr (.inr (.inr ⟨hleft, hleft', h⟩))

section Wrong

variable {s right : QString} {r : Expression} {op : TokenType}

theorem Operand.shape (h : Operand right r) : shape r = [tokenize right] :=
  (FilterParser.shape_of_tokenValue h.tokenValue).1

/-- Three types at the end of a text with a string, an operator and a value are these three. -/
theorem eq_of_types (hr : Operand right r) {text front : QString} {c : Char} {v : QString} (hc : c = '(' ∨ c = ')')
    (hv : '"' ∉ c :: v) (htext : text = front ++ c :: v)
    (h : Writes text (.binary op (.value (.string s) .string) r)) :
    ∃ ts, [.string, op, tokenize right] = ts ++ types (tokenRegex.captures (c :: v)) := by
  have htypes := types_of_writes h
  obtain ⟨ts, hts⟩ := captures_behind hc hv front.length front (Nat.le_refl _)
  rw [htext, hts, types_append] at htypes
  refine ⟨types ts, ?_⟩
  rw [htypes, Dankerino.shape, Dankerino.shape, hr.shape]
  rfl

/-- A place that nothing was put in. -/
theorem types_place : types (tokenRegex.captures "(%3)".toList) = [.mod, .int] := by decide +kernel

theorem not_writes_places (hr : Operand right r) {text front : QString}
    (htext : text = front ++ ") %2 (%3)".toList) : ¬ Writes text (.binary op (.value (.string s) .string) r) := by
  intro h
  have hv : '"' ∉ ')' :: " %2 (%3)".toList := by decide
  obtain ⟨ts, hts⟩ := eq_of_types hr (.inr rfl) hv htext h
  have htypes : types (tokenRegex.captures (')' :: " %2 (%3)".toList)) = [.mod, .int, .mod, .int] := by
    decide +kernel
  rw [htypes] at hts
  have hlength := congrArg List.length hts
  simp only [List.length_cons, List.length_nil, List.length_append] at hlength
  omega

theorem inShape_op (hop : op = .and ∨ op = .or ∨ op.typeIsBinaryOp = true ∨ op.typeIsMathOp = true) :
    inShape op = true ∧ op ≠ .string := by
  revert hop
  cases op <;> decide

theorem not_writes_operator (hop : op = .and ∨ op = .or ∨ op.typeIsBinaryOp = true ∨ op.typeIsMathOp = true)
    (hr : Operand right r) {text front : QString}
    (htext : text = front ++ ')' :: ' ' :: (binaryOpText op ++ " (%3)".toList)) :
    ¬ Writes text (.binary op (.value (.string s) .string) r) := by
  intro h
  have hopQuote : '"' ∉ binaryOpText op := by cases op <;> decide
  have hv : '"' ∉ ')' :: ' ' :: (binaryOpText op ++ " (%3)".toList) := by simp [hopQuote]
  obtain ⟨ts, hts⟩ := eq_of_types hr (.inr rfl) hv htext h
  have htypes : types (tokenRegex.captures (')' :: ' ' :: (binaryOpText op ++ " (%3)".toList)))
      = [op, .mod, .int] := by
    have hin : inShape (tokenize (binaryOpText op)) = true := by
      rw [FilterParser.tokenize_binaryOpText hop]
      exact (inShape_op hop).1
    show types (tokenRegex.captures (')' :: ' ' :: (binaryOpText op ++ ' ' :: "(%3)".toList))) = _
    rw [captures_single (by decide), captures_blank, captures_binaryOpText hop, types_cons_neg rfl,
      types_cons_pos hin, types_place, FilterParser.tokenize_binaryOpText hop]
  rw [htypes] at hts
  cases ts with
  | nil => exact (inShape_op hop).2 (List.cons.inj hts).1.symm
  | cons type ts =>
    have hlength := congrArg List.length hts
    simp only [List.length_cons, List.length_nil, List.length_append] at hlength
    omega

theorem not_writes_value (hr : Operand right r) {text front : QString}
    (htext : text = front ++ ')' :: ' ' :: (right ++ " (%3)".toList)) :
    ¬ Writes text (.binary op (.value (.string s) .string) r) := by
  intro h
  -- the last place is read as a number, so the right value is one
  have hsplit : text = (front ++ ')' :: ' ' :: (right ++ [' '])) ++ '(' :: "%3)".toList := by
    rw [htext]
    simp
  have hlast : '"' ∉ '(' :: "%3)".toList := by decide
  obtain ⟨ts, hts⟩ := eq_of_types hr (.inl rfl) hlast hsplit h
  have hint : tokenize right = .int := by
    have hlast := congrArg List.getLast? hts
    have hplace : types (tokenRegex.captures ('(' :: "%3)".toList)) = [.mod, .int] := types_place
    rw [hplace, List.getLast?_append] at hlast
    exact Option.some.inj hlast
  cases hr with
  | text s =>
    rw [tokenize_quoted] at hint
    cases hint
  | word hne hword hvalue hstring =>
    have hquote := (notMem_word hword).1
    have hv : '"' ∉ ')' :: ' ' :: (right ++ " (%3)".toList) := by simp [hquote]
    obtain ⟨ts, hts⟩ := eq_of_types (.word hne hword hvalue hstring) (.inr rfl) hv htext h
    have htypes : types (tokenRegex.captures (')' :: ' ' :: (right ++ " (%3)".toList))) = [.int, .mod, .int] := by
      have hin : inShape (tokenize right) = true := by rw [hint]; rfl
      show types (tokenRegex.captures (')' :: ' ' :: (right ++ ' ' :: "(%3)".toList))) = _
      rw [captures_single (by decide), captures_blank, captures_word hword hne, captures_blank, types_cons_neg rfl,
        types_cons_pos hin, types_place, hint]
      intro c hc
      obtain rfl := Option.some.inj hc
      exact ⟨by decide, by decide⟩
    rw [htypes] at hts
    cases ts with
    | nil => cases (List.cons.inj hts).1
    | cons type ts =>
      have hlength := congrArg List.length hts
      simp only [List.length_cons, List.length_nil, List.length_append] at hlength
      omega

/-! ### Counting -/

/-- As many quotes before a quote: the texts before it are the same. -/
theorem eq_of_count {u v x y : QString} (h : u ++ '"' :: x = v ++ '"' :: y) (hcount : u.count '"' = v.count '"') :
    u = v := by
  rcases List.append_eq_append_iff.mp h with ⟨w, rfl, hw⟩ | ⟨w, rfl, hw⟩
  · cases w with
    | nil => exact (List.append_nil _).symm
    | cons c w =>
      obtain ⟨rfl, -⟩ := List.cons.inj hw
      rw [List.count_append, List.count_cons_self] at hcount
      omega
  · cases w with
    | nil => exact List.append_nil _
    | cons c w =>
      obtain ⟨rfl, -⟩ := List.cons.inj hw
      rw [List.count_append, List.count_cons_self] at hcount
      omega

/-- The literals of a valid text have all its quotes but one. -/
theorem count_quote_of_writes {text : QString} {e : Expression} (h : Writes text e) :
    text.count '"' ≤ e.literals.flatten.count '"' + 1 := by
  rw [← literals_of_writes h]
  refine Nat.le_trans (count_quote_le text.length (Nat.le_refl _)) (Nat.add_le_add_right ?_ 1)
  -- the other tokens have none
  have hfilter (l : List QString) : l.flatten.count '"' ≤ (l.filter FilterParser.isLiteral).flatten.count '"' := by
    induction l with
    | nil => exact Nat.le_refl _
    | cons t l ih =>
      rw [List.flatten_cons, List.count_append]
      by_cases ht : '"' ∈ t
      · have hliteral : FilterParser.isLiteral t = true := decide_eq_true ht
        rw [List.filter_cons_of_pos hliteral, List.flatten_cons, List.count_append]
        omega
      · rw [List.filter_cons_of_neg (by rw [FilterParser.isLiteral, decide_eq_false ht]; decide),
          List.count_eq_zero_of_not_mem ht]
        omega
  exact hfilter _

/-- The text in quotes at the beginning of a valid text is its first literal. -/
theorem eq_of_first_literal {e : Expression} {u tail : QString} {t : QString} {literals : List QString}
    (hliterals : e.literals = quoted t :: literals) (hcount : u.count '"' = (escapeQuotes t).count '"')
    (h : Writes ('(' :: '"' :: (u ++ '"' :: tail)) e) : escapeQuotes t = u := by
  have hfilter := literals_of_writes h
  have hparen : FilterParser.isLiteral ['('] = false := by decide
  rw [hliterals, captures_single (by decide), List.filter_cons_of_neg (by rw [hparen]; decide)] at hfilter
  cases hclosing : closing (u ++ '"' :: tail) with
  | none => exact absurd (List.mem_append_right _ (.head _)) (closing_eq_none.mp hclosing)
  | some rest =>
    obtain ⟨t', hsplit, hlast⟩ := exists_of_closing hclosing
    have hquoted : '"' :: (u ++ '"' :: tail) = quoted t' ++ rest := by
      rw [hsplit, quoted]
      simp
    have hopen : EndsOpen (quoted t') → '"' ∉ rest := fun hopen => hlast ((endsOpen_quoted t').mp hopen)
    rw [hquoted, captures_quoted hopen, List.filter_cons_of_pos (FilterParser.isLiteral_quoted t')] at hfilter
    have hsame : escapeQuotes t' = escapeQuotes t := by
      have hq := (List.cons.inj hfilter).1
      rw [quoted, quoted] at hq
      exact List.append_cancel_right (List.cons.inj hq).2
    rw [hsame] at hsplit
    exact eq_of_count hsplit.symm hcount.symm

/-- The characters of markers. -/
def isMarkerChar (c : Char) : Bool := c == '%' || c == 'L' || c.isDigit

theorem countP_markerText {text : QString} (h : IsMarkerText text) :
    text.countP (· == '"') = 0 ∧ 0 < text.countP (· == '%') ∧ 1 < text.countP isMarkerChar := by
  obtain ⟨t, rfl, hne, ht⟩ := h
  obtain ⟨c, t, rfl⟩ := List.exists_cons_of_ne_nil hne
  have hc : isMarkerChar c = true := by
    rcases ht c (.head _) with h | h <;> simp [isMarkerChar, h]
  refine ⟨?_, ?_, ?_⟩
  · refine List.countP_eq_zero.mpr ?_
    rintro d (_ | ⟨_, hd⟩) hquote
    · exact absurd hquote (by decide)
    · obtain rfl := eq_of_beq hquote
      exact absurd (ht _ hd) (by decide)
  · rw [List.countP_cons_of_pos (by decide)]
    omega
  · rw [List.countP_cons_of_pos (by decide), List.countP_cons_of_pos hc]
    omega

/-- What has no quotes changes nothing about the quotes. -/
theorem countP_quote_substitute {a t : QString} (ha : a.countP (· == '"') = 0) (number : Nat) :
    (substitute number a t).countP (· == '"') = t.countP (· == '"') :=
  Nat.le_antisymm (countP_substitute_le _ fun text _ => by rw [ha]; exact Nat.zero_le _)
    (le_countP_substitute _ fun text ht => (countP_markerText ht).1)

/-- The right value brings its quotes twice. -/
theorem not_writes_twice {s' u : QString} (hu : (escapeQuotes s).count '"' + (quoted s').count '"' ≤ u.count '"')
    {front back : QString} :
    ¬ Writes ('(' :: '"' :: (u ++ '"' :: (front ++ (quoted s' ++ back))))
      (.binary op (.value (.string s) .string) (.value (.string s') .string)) := by
  intro h
  have hcount := count_quote_of_writes h
  have hliterals : (Expression.binary op (.value (.string s) .string) (.value (.string s') .string)).literals
      = [quoted s, quoted s'] := rfl
  have hquoted (t : QString) : (quoted t).count '"' = (escapeQuotes t).count '"' + 2 := by
    rw [quoted, List.count_cons_self, List.count_append]
    rfl
  rw [hliterals, List.flatten_cons, List.flatten_cons, List.flatten_nil, List.append_nil, List.count_append,
    List.count_cons_of_ne (by decide), List.count_cons_self, List.count_append, List.count_cons_self,
    List.count_append, List.count_append, hquoted s] at hcount
  have hpos := hquoted s'
  omega

/-- What is put in for a marker in the left text changes it. -/
theorem not_writes_moved (hr : Operand right r) {number : Nat} (hmem : number ∈ markers s) (hle : number ≤ 3)
    (hfirst : ∀ number ∈ markers s, 2 ≤ number) (front back : QString) :
    ¬ Writes ('(' :: '"' :: (substitute 3 right (substitute 2 (binaryOpText op) (escapeQuotes s)) ++
        '"' :: (front ++ (right ++ back)))) (.binary op (.value (.string s) .string) r) := by
  intro h
  have hmarkers : markers (escapeQuotes s) = markers s := markers_escapeQuotes s.length s (Nat.le_refl _)
  have hop : (binaryOpText op).countP (· == '"') = 0 ∧ (binaryOpText op).countP (· == '%') ≤ 1 ∧
      (binaryOpText op).countP isMarkerChar ≤ 1 := by cases op <;> decide
  generalize hE₁ : substitute 2 (binaryOpText op) (escapeQuotes s) = E₁ at h
  have hsame : E₁.countP (· == '"') = (escapeQuotes s).countP (· == '"') := by
    rw [← hE₁]
    exact countP_quote_substitute hop.1 2
  by_cases hthree : 3 ∈ markers E₁
  · cases hr with
    | text s' =>
      refine not_writes_twice ?_ h
      have hadd := add_le_countP_substitute (a := quoted s') (· == '"') hthree
        fun text ht => (countP_markerText ht).1
      rw [hsame] at hadd
      exact hadd
    | word _ hword _ _ =>
      obtain ⟨hquote, hpercent⟩ := notMem_word hword
      have hright : right.countP (· == '"') = 0 := List.count_eq_zero_of_not_mem hquote
      have heq := eq_of_first_literal rfl ((countP_quote_substitute hright 3).trans hsame) h
      have hlt := countP_substitute_lt (a := right) (· == '%') hthree fun text ht => by
        have hzero : right.countP (· == '%') = 0 := List.count_eq_zero_of_not_mem hpercent
        rw [hzero]
        exact (countP_markerText ht).2.1
      have hle' : (substitute 2 (binaryOpText op) (escapeQuotes s)).countP (· == '%')
          ≤ (escapeQuotes s).countP (· == '%') :=
        countP_substitute_le _ fun text ht => Nat.le_trans hop.2.1 (countP_markerText ht).2.1
      rw [hE₁] at hle'
      rw [← heq] at hlt
      exact absurd (Nat.lt_of_lt_of_le hlt hle') (Nat.lt_irrefl _)
  · rw [substitute_of_notMem hthree] at h
    have heq := eq_of_first_literal rfl hsame h
    have htwo : 2 ∈ markers (escapeQuotes s) := by
      refine Classical.byContradiction fun hnot => ?_
      rw [substitute_of_notMem hnot] at hE₁
      have hcases : number = 2 ∨ number = 3 := by
        have := hfirst number hmem
        omega
      rw [← hmarkers] at hmem
      rcases hcases with rfl | rfl
      · exact hnot hmem
      · exact hthree (hE₁ ▸ hmem)
    have hlt := countP_substitute_lt (a := binaryOpText op) isMarkerChar htwo fun text ht =>
      Nat.lt_of_le_of_lt hop.2.2 (countP_markerText ht).2.2
    rw [hE₁, ← heq] at hlt
    exact absurd hlt (Nat.lt_irrefl _)

/-- A place marker with a number up to three in the left text. -/
theorem not_writes_of_marker (hr : Operand right r)
    (hop : op = .and ∨ op = .or ∨ op.typeIsBinaryOp = true ∨ op.typeIsMathOp = true) {number : Nat}
    (hmem : number ∈ markers s) (hle : number ≤ 3) :
    ¬ Writes (arg (arg (arg "(%1) %2 (%3)".toList (quoted s)) (binaryOpText op)) right)
      (.binary op (.value (.string s) .string) r) := by
  rcases written_cases (quoted s) right op with ⟨front, htext⟩ | ⟨front, htext⟩ | ⟨front, htext⟩ | ⟨hfirst, -, htext⟩
  · exact not_writes_places hr htext
  · exact not_writes_value hr htext
  · exact not_writes_operator hop hr htext
  · rw [htext, quoted, substitute_quoted, substitute_quoted, List.cons_append, List.append_assoc]
    rw [markers_quoted] at hfirst
    intro h
    have hsame : ')' :: ' ' :: (binaryOpText op ++ ' ' :: '(' :: (right ++ [')']))
        = (')' :: ' ' :: (binaryOpText op ++ " (".toList)) ++ (right ++ [')']) := by simp
    rw [List.singleton_append, hsame] at h
    exact not_writes_moved hr hmem hle hfirst _ _ h

end Wrong

/-! ## The dialog as a whole -/

theorem writes_operation_iff {left right : QString} {l r : Expression} {op : TokenType}
    (hop : op = .and ∨ op = .or ∨ op.typeIsBinaryOp = true ∨ op.typeIsMathOp = true)
    (hl : Operand left l) (hr : Operand right r) :
    Writes (arg (arg (arg "(%1) %2 (%3)".toList left) (binaryOpText op)) right) (.binary op l r) ↔
      ∀ s, l = .value (.string s) .string → (∀ number ∈ markers s, 3 < number) ∧
        (s.getLast? = some '\\' → ∀ s', r ≠ .value (.string s') .string) := by
  constructor
  · rintro h s rfl
    cases hl with
    | text s =>
      refine ⟨fun number hmem => Nat.lt_of_not_le fun hle => not_writes_of_marker hr hop hmem hle h, ?_⟩
      rintro hlast s' rfl
      -- a literal that ends with a backslash is the last one
      have hclosed := FilterParser.closed_literals (literals_of_writes h)
      exact (List.pairwise_cons.mp hclosed.last).1 (quoted s') (.head _) ((endsOpen_quoted s).mpr hlast)
    | word _ _ hvalue hstring =>
      have hshape := (FilterParser.shape_of_tokenValue hvalue).1
      exact absurd (List.cons.inj hshape).1.symm hstring
  · intro h
    have hmarkers : ∀ number ∈ markers left, 3 < number := by
      cases hl with
      | text s =>
        rw [markers_quoted]
        exact (h s rfl).1
      | word _ hword _ _ =>
        rw [markers_of_notMem (notMem_word hword).2]
        exact fun number hnumber => absurd hnumber List.not_mem_nil
    rw [arg_left, arg_op hmarkers, arg_right hmarkers]
    refine writes_of_places hl hr hop fun s hs hlast => ?_
    cases hr with
    | text s' =>
      cases hl with
      | text t =>
        have hsame : escapeQuotes t = escapeQuotes s := List.append_cancel_right (List.cons.inj hs).2
        have hts : t = s := by
          rw [← unescapeQuotes_escapeQuotes t, hsame, unescapeQuotes_escapeQuotes]
        exact absurd rfl ((h t rfl).2 (hts ▸ hlast) s')
      | word _ hword _ _ => exact absurd (hs ▸ .head _) (notMem_word hword).1
    | word _ hword _ _ => exact (notMem_word hword).1

/-- A value by itself is always right. -/
theorem writes_operand {left : QString} {l : Expression} (hl : Operand left l) : Writes left l := by
  have hcaptures : tokenRegex.captures left = [left] := by
    cases hl with
    | text s =>
      have hquoted := @captures_quoted s [] fun _ => List.not_mem_nil
      rwa [List.append_nil] at hquoted
    | word hne hword _ _ =>
      have hcaptures := @captures_word left [] hword hne fun c hc => (by cases hc)
      rwa [List.append_nil] at hcaptures
  rw [writes_iff_derives, hcaptures]
  exact .expr (.and (.unary (.cond (.token _ hl.tokenValue) (.condEnd _ _))) (.andEnd _ _)) (.orEnd _ _)

/-- The text is the operation that was chosen exactly if the left text leaves the places alone. -/
theorem getFilter_iff (specifier : BinaryOperationSpecifier) {left right : Expression}
    (hl : Chosen specifier.left left) (hr : Chosen specifier.right right) :
    Writes (getFilter specifier) (specifier.chosen left right) ↔ Writable specifier := by
  unfold getFilter BinaryOperationSpecifier.chosen Writable
  cases hoperator : specifier.operator with
  | none =>
    rw [expressionText_nothing hoperator]
    exact iff_of_true (writes_operand (operand_of_chosen hl)) (.inl rfl)
  | some op =>
    obtain ⟨htext, hop⟩ := expressionText_operator hoperator
    rw [htext]
    refine (writes_operation_iff hop (operand_of_chosen hl) (operand_of_chosen hr)).trans ?_
    have hnot : ¬ some op = none := Option.some_ne_none op
    rw [or_iff_right hnot]
    constructor
    · intro h htype
      obtain ⟨hmarkers, hlast⟩ := h _ (hl.text_iff.mp htype)
      exact ⟨hmarkers, fun hopen htype' => hlast hopen _ (hr.text_iff.mp htype')⟩
    · rintro h s rfl
      cases hl with
      | text htype =>
        refine ⟨(h htype).1, fun hopen s' hs' => (h htype).2 hopen ?_⟩
        rw [hs'] at hr
        cases hr with
        | text htype' => exact htype'

theorem equals_lt : 7 < friendlyBinaryOps.length := by decide

/-- The values of a comparison. -/
def equals (left right : ValueSpecifier) : BinaryOperationSpecifier where
  opCombo := ⟨7, equals_lt⟩
  left := left
  right := right

def constantText (s : QString) : ValueSpecifier where
  typeCombo := 0
  varCombo := []
  valueInput := s

def variableText (s : QString) : ValueSpecifier where
  typeCombo := 2
  varCombo := s
  valueInput := []

/-- A variable, compared with a text that has quotes and a marker. -/
theorem getFilter_variable : Writes (getFilter (equals (variableText "message text".toList)
      (constantText "say \"%1\"".toList)))
    (.binary .eq (.value (.string "message.content".toList) .identifier)
      (.value (.string "say \"%1\"".toList) .string)) := by
  have hmem : ("message.content".toList, "message text".toList) ∈ validIdentifiersMap := by decide
  have hl : Chosen (variableText "message text".toList) (.value (.string "message.content".toList) .identifier) :=
    .identifier rfl hmem
  have hr : Chosen (constantText "say \"%1\"".toList) (.value (.string "say \"%1\"".toList) .string) := .text rfl
  have hwritable : Writable (equals (variableText "message text".toList) (constantText "say \"%1\"".toList)) :=
    .inr fun htype => by cases htype
  exact (getFilter_iff (equals _ _) hl hr).mpr hwritable

theorem operator_equals (left right : ValueSpecifier) : (equals left right).operator = some .eq := rfl

/-- Two texts that are compared. -/
theorem writes_equals {s s' : QString} (h : Writes (getFilter (equals (constantText s) (constantText s')))
    (.binary .eq (.value (.string s) .string) (.value (.string s') .string))) :
    (∀ number ∈ markers s, 3 < number) ∧ s.getLast? ≠ some '\\' := by
  obtain ⟨htext, hop⟩ := expressionText_operator (operator_equals (constantText s) (constantText s'))
  rw [getFilter, htext] at h
  have hl : Chosen (constantText s) (.value (.string s) .string) := .text rfl
  have hr : Chosen (constantText s') (.value (.string s') .string) := .text rfl
  obtain ⟨hmarkers, hlast⟩ :=
    (writes_operation_iff hop (operand_of_chosen hl) (operand_of_chosen hr)).mp h s rfl
  exact ⟨hmarkers, fun hopen => hlast hopen s' rfl⟩

/-- A place marker in the left text, and a backslash at its end. -/
theorem getFilter_texts :
    ¬ Writes (getFilter (equals (constantText "%1".toList) (constantText "a".toList)))
      (.binary .eq (.value (.string "%1".toList) .string) (.value (.string "a".toList) .string)) ∧
    ¬ Writes (getFilter (equals (constantText "C:\\".toList) (constantText "a".toList)))
      (.binary .eq (.value (.string "C:\\".toList) .string) (.value (.string "a".toList) .string)) := by
  refine ⟨fun h => ?_, fun h => (writes_equals h).2 rfl⟩
  exact absurd ((writes_equals h).1 1 (by decide)) (by decide)

end ChannelFilterEditorDialog

end Dankerino
