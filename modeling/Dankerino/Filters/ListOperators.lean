import Dankerino.Filters.RoundTrip
import Dankerino.Filters.Values

/-!
# The operators on lists of texts

`contains`, `startswith` and `endswith` of `BinaryOperation::execute`, on a list of texts and a text. Such a
list comes as a `QStringList` or as a `QVariantList`, by its elements (`hasTexts_list`), and each operator has
a branch for each.

* `correct_stringList_iff`: on a `QStringList` the tests of the first and of the last element are the wrong
  way around.
* `correct_variantList_iff`: a `QVariantList` is compared with the case.
* `listOperators_iff`: so of both, and of whether they agree.
-/

namespace Dankerino.Filters

/-- The operators that ask for elements of a list. -/
inductive ListOperator
  | contains | startsWith | endsWith

namespace ListOperator

def op : ListOperator → TokenType
  | contains => .contains
  | startsWith => .startsWith
  | endsWith => .endsWith

/-- The elements that the operator is about. -/
def elements {α : Type} : ListOperator → List α → List α
  | contains, l => l
  | startsWith, l => l.head?.toList
  | endsWith, l => l.getLast?.toList

end ListOperator

/-- How a list is represented. -/
inductive Representation
  | stringList | variantList

variable {V QColor : Type} (api : QVariantApi V QColor)

/-- The value is the list of the texts. -/
def HasTexts (representation : Representation) (v : V) (texts : List QString) : Prop :=
  match representation with
  | .stringList => api.type v = .stringList ∧ api.toStringList v = texts
  | .variantList => api.type v = .list ∧ (∀ w ∈ api.toList v, api.type w = .string) ∧
      (api.toList v).map api.toString = texts

/-- The value is the text. -/
def IsText (v : V) (s : QString) : Prop := api.type v = .string ∧ api.toString v = s

/-- What an element of a `QStringList` is tested for. -/
def Tested (operator : ListOperator) (text s : QString) : Prop :=
  match operator with
  | .contains => api.compare text s = 0
  | _ => api.compare text s ≠ 0

/-- What the name of the operator says. -/
def Means (operator : ListOperator) (texts : List QString) (s : QString) : Prop :=
  ∃ text ∈ operator.elements texts, api.compare text s = 0

/-- The operator is true exactly if it is so. -/
def Correct (operator : ListOperator) (context : ContextMap V) (left right : Expression)
    (texts : List QString) (s : QString) : Prop :=
  api.toBool ((Expression.binary operator.op left right).execute api context) = true ↔
    Means api operator texts s

/-- The condition for it. -/
def Holds (operator : ListOperator) (representation : Representation) (texts : List QString)
    (s : QString) : Prop :=
  match representation, operator with
  | .stringList, .contains => True
  | .stringList, _ => texts = []
  | .variantList, operator => Means api operator texts s → s ∈ operator.elements texts

/-- Both lists give the same. -/
def Same (operator : ListOperator) (context : ContextMap V) (left left' right : Expression) : Prop :=
  api.toBool ((Expression.binary operator.op left right).execute api context)
    = api.toBool ((Expression.binary operator.op left' right).execute api context)

/-- The condition for it, where they represent the same texts differently. -/
def Agree (operator : ListOperator) (texts : List QString) (s : QString) : Prop :=
  match operator with
  | .contains => Means api .contains texts s → s ∈ texts
  | operator => ∀ text ∈ operator.elements texts, api.compare text s = 0 ∧ text ≠ s

variable {api}

/-! ## Representations -/

/-- A list of expressions that are all texts is a `QStringList`. -/
theorem hasTexts_list (laws : api.TextLaws) {context : ContextMap V} {exps : List Expression}
    (h : ∀ v ∈ Expression.executeList api context exps, api.type v = .string) :
    HasTexts api .stringList ((Expression.list exps).execute api context)
      ((Expression.executeList api context exps).map api.toString) := by
  have hall : (Expression.executeList api context exps).all (fun res => api.type res = .string) = true :=
    List.all_eq_true.mpr fun v hv => decide_eq_true (h v hv)
  rw [Expression.execute, Expression.listValue, if_pos hall]
  exact ⟨laws.type_ofStringList _, laws.toStringList_ofStringList _⟩

/-! ## Results -/

section Results

variable {v w : V} {texts : List QString} {s : QString}

theorem contains_stringList (laws : api.TextLaws) (hv : HasTexts api .stringList v texts)
    (hw : IsText api w s) :
    Expression.contains api v w = texts.any fun text => api.compare text s == 0 := by
  obtain ⟨htype, rfl⟩ := hv
  obtain ⟨hstring, rfl⟩ := hw
  unfold Expression.contains
  simp [htype, laws.canConvert_string w hstring]

theorem atEnd_stringList (laws : api.TextLaws) (hv : HasTexts api .stringList v texts)
    (hw : IsText api w s) {endOf : {α : Type} → List α → Option α} {test : QString → QString → Bool} :
    Expression.atEnd api endOf test v w = (endOf texts).any fun text => api.compare text s != 0 := by
  obtain ⟨htype, rfl⟩ := hv
  obtain ⟨hstring, rfl⟩ := hw
  unfold Expression.atEnd
  rw [if_pos (by simp [htype, laws.canConvert_string w hstring])]
  dsimp only
  cases endOf (api.toStringList v) with
  | none => rfl
  | some text => rfl

theorem contains_variantList (laws : api.TextLaws) (hv : HasTexts api .variantList v texts)
    (hw : IsText api w s) : Expression.contains api v w = decide (s ∈ texts) := by
  obtain ⟨htype, hstrings, rfl⟩ := hv
  obtain ⟨hstring, rfl⟩ := hw
  have hany : (api.toList v).any (fun u => api.equals u w) = decide (api.toString w ∈
      (api.toList v).map api.toString) := by
    rw [Bool.eq_iff_iff, List.any_eq_true, decide_eq_true_eq, List.mem_map]
    refine exists_congr fun u => and_congr_right fun hu => ?_
    rw [laws.equals_string u w (hstrings u hu) hstring, decide_eq_true_eq]
  unfold Expression.contains
  simp only [htype, reduceCtorEq, decide_false, Bool.false_and, Bool.false_eq_true, if_false, if_true]
  exact hany

theorem atEnd_variantList (laws : api.TextLaws) (hv : HasTexts api .variantList v texts)
    (hw : IsText api w s) {endOf : {α : Type} → List α → Option α} {test : QString → QString → Bool}
    (hmem : ∀ {α : Type} (l : List α), ∀ a ∈ endOf l, a ∈ l)
    (hmap : ∀ {α β : Type} (f : α → β) (l : List α), endOf (l.map f) = (endOf l).map f) :
    Expression.atEnd api endOf test v w = (endOf texts).any fun text => text = s := by
  obtain ⟨htype, hstrings, rfl⟩ := hv
  obtain ⟨hstring, rfl⟩ := hw
  unfold Expression.atEnd
  simp only [htype, reduceCtorEq, decide_false, Bool.false_and, Bool.false_eq_true, if_false, if_true]
  rw [hmap]
  cases hend : endOf (api.toList v) with
  | none => rfl
  | some u => exact laws.equals_string u w (hstrings u (hmem _ u hend)) hstring

/-- On a `QStringList`. -/
theorem result_stringList (laws : api.TextLaws) (hv : HasTexts api .stringList v texts)
    (hw : IsText api w s) (operator : ListOperator) :
    api.toBool (Expression.binaryOperation api operator.op v w) = true ↔
      ∃ text ∈ operator.elements texts, Tested api operator text s := by
  cases operator with
  | contains =>
    show api.toBool (api.ofBool (Expression.contains api v w)) = true ↔ _
    rw [api.toBool_ofBool, contains_stringList laws hv hw, List.any_eq_true]
    simp [ListOperator.elements, Tested]
  | startsWith =>
    show api.toBool (api.ofBool (Expression.atEnd api List.head? api.startsWith v w)) = true ↔ _
    rw [api.toBool_ofBool, atEnd_stringList laws hv hw]
    simp [ListOperator.elements, Option.any_eq_true, Tested]
  | endsWith =>
    show api.toBool (api.ofBool (Expression.atEnd api List.getLast? api.endsWith v w)) = true ↔ _
    rw [api.toBool_ofBool, atEnd_stringList laws hv hw]
    simp [ListOperator.elements, Option.any_eq_true, Tested]

/-- On a `QVariantList`. -/
theorem result_variantList (laws : api.TextLaws) (hv : HasTexts api .variantList v texts)
    (hw : IsText api w s) (operator : ListOperator) :
    api.toBool (Expression.binaryOperation api operator.op v w) = true ↔
      s ∈ operator.elements texts := by
  cases operator with
  | contains =>
    show api.toBool (api.ofBool (Expression.contains api v w)) = true ↔ _
    rw [api.toBool_ofBool, contains_variantList laws hv hw, decide_eq_true_eq]
    rfl
  | startsWith =>
    show api.toBool (api.ofBool (Expression.atEnd api List.head? api.startsWith v w)) = true ↔ _
    rw [api.toBool_ofBool, atEnd_variantList laws hv hw (fun l a => List.mem_of_mem_head?)
      fun f l => List.head?_map]
    simp [ListOperator.elements, Option.any_eq_true]
  | endsWith =>
    show api.toBool (api.ofBool (Expression.atEnd api List.getLast? api.endsWith v w)) = true ↔ _
    rw [api.toBool_ofBool, atEnd_variantList laws hv hw (fun l a => List.mem_of_getLast?)
      fun f l => List.getLast?_map]
    simp [ListOperator.elements, Option.any_eq_true]

end Results

/-- The first and the last element are none or one. -/
theorem elements_end {operator : ListOperator} (h : operator ≠ .contains) (texts : List QString) :
    texts = [] ∧ operator.elements texts = [] ∨ texts ≠ [] ∧ ∃ text, operator.elements texts = [text] := by
  have hend : ∀ endOf : Option QString, (endOf = none ↔ texts = []) → texts = [] ∧ endOf.toList = [] ∨
      texts ≠ [] ∧ ∃ text, endOf.toList = [text] := by
    intro endOf hnone
    cases endOf with
    | none => exact .inl ⟨hnone.mp rfl, rfl⟩
    | some text => exact .inr ⟨fun hnil => absurd (hnone.mpr hnil) (by simp), text, rfl⟩
  cases operator with
  | contains => exact absurd rfl h
  | startsWith => exact hend _ List.head?_eq_none_iff
  | endsWith => exact hend _ List.getLast?_eq_none_iff

theorem tested_end {operator : ListOperator} (h : operator ≠ .contains) {text s : QString} :
    Tested api operator text s ↔ api.compare text s ≠ 0 := by
  cases operator with
  | contains => exact absurd rfl h
  | startsWith | endsWith => exact Iff.rfl

/-! ## Where the operators are right -/

section Correct

variable {context : ContextMap V} {left left' right : Expression} {texts : List QString} {s : QString}

theorem correct_stringList_iff (laws : api.TextLaws)
    (hleft : HasTexts api .stringList (left.execute api context) texts)
    (hright : IsText api (right.execute api context) s) (operator : ListOperator) :
    Correct api operator context left right texts s ↔ Holds api operator .stringList texts s := by
  unfold Correct
  rw [Expression.execute, result_stringList laws hleft hright operator]
  by_cases hcontains : operator = .contains
  · subst hcontains
    exact iff_of_true Iff.rfl trivial
  · have hholds : Holds api operator .stringList texts s ↔ texts = [] := by
      cases operator with
      | contains => exact absurd rfl hcontains
      | startsWith | endsWith => exact Iff.rfl
    rw [hholds]
    unfold Means
    rcases elements_end hcontains texts with ⟨hnil, helements⟩ | ⟨hne, text, helements⟩
    · rw [helements]
      simp [hnil]
    · simp [helements, hne, tested_end hcontains]

theorem correct_variantList_iff (laws : api.TextLaws)
    (hleft : HasTexts api .variantList (left.execute api context) texts)
    (hright : IsText api (right.execute api context) s) (operator : ListOperator) :
    Correct api operator context left right texts s ↔ Holds api operator .variantList texts s := by
  unfold Correct
  rw [Expression.execute, result_variantList laws hleft hright operator]
  -- what is equal is equal up to the case
  have hmeans : s ∈ operator.elements texts → Means api operator texts s := fun hmem =>
    ⟨s, hmem, laws.compare_self s⟩
  exact ⟨fun h => h.mpr, fun h => ⟨hmeans, h⟩⟩

theorem same_iff (laws : api.TextLaws)
    (hleft : HasTexts api .stringList (left.execute api context) texts)
    (hleft' : HasTexts api .variantList (left'.execute api context) texts)
    (hright : IsText api (right.execute api context) s) (operator : ListOperator) :
    Same api operator context left left' right ↔ Agree api operator texts s := by
  unfold Same
  rw [Bool.eq_iff_iff, Expression.execute, Expression.execute, result_stringList laws hleft hright operator,
    result_variantList laws hleft' hright operator]
  by_cases hcontains : operator = .contains
  · subst hcontains
    have hmeans : s ∈ texts → Means api .contains texts s := fun hmem => ⟨s, hmem, laws.compare_self s⟩
    exact ⟨fun h => h.mp, fun h => ⟨h, hmeans⟩⟩
  · have hagree : Agree api operator texts s ↔
        ∀ text ∈ operator.elements texts, api.compare text s = 0 ∧ text ≠ s := by
      cases operator with
      | contains => exact absurd rfl hcontains
      | startsWith | endsWith => exact Iff.rfl
    rw [hagree]
    rcases elements_end hcontains texts with ⟨-, helements⟩ | ⟨-, text, helements⟩
    · simp [helements]
    · rw [helements]
      simp only [List.mem_singleton, exists_eq_left, forall_eq, tested_end hcontains]
      by_cases hs : text = s
      · simp [hs, laws.compare_self]
      · simp [hs, Ne.symm hs]

/-- **The operators on lists of texts.** For each operator and each representation, where it is right, for
each operator where the representations agree, and that all of it is so for the empty list only. -/
theorem listOperators_iff (laws : api.TextLaws) (hright : IsText api (right.execute api context) s) :
    (∀ operator representation left, HasTexts api representation (left.execute api context) texts →
      (Correct api operator context left right texts s ↔ Holds api operator representation texts s)) ∧
    ∀ left left', HasTexts api .stringList (left.execute api context) texts →
      HasTexts api .variantList (left'.execute api context) texts →
        (∀ operator, Same api operator context left left' right ↔ Agree api operator texts s) ∧
        ((∀ operator, Correct api operator context left right texts s ∧
            Correct api operator context left' right texts s ∧
            Same api operator context left left' right) ↔ texts = []) := by
  refine ⟨fun operator representation left hleft => ?_, fun left left' hleft hleft' => ⟨fun operator =>
    same_iff laws hleft hleft' hright operator, fun h => ?_, fun h operator => ⟨?_, ?_, ?_⟩⟩⟩
  · cases representation with
    | stringList => exact correct_stringList_iff laws hleft hright operator
    | variantList => exact correct_variantList_iff laws hleft hright operator
  · exact (correct_stringList_iff laws hleft hright .startsWith).mp (h .startsWith).1
  · refine (correct_stringList_iff laws hleft hright operator).mpr ?_
    cases operator with
    | contains => trivial
    | startsWith | endsWith => exact h
  · refine (correct_variantList_iff laws hleft' hright operator).mpr ?_
    rintro ⟨text, htext, -⟩
    subst h
    cases operator <;> exact nomatch htext
  · refine (same_iff laws hleft hleft' hright operator).mpr ?_
    subst h
    cases operator with
    | contains => exact fun ⟨text, htext, _⟩ => nomatch htext
    | startsWith | endsWith => exact fun text htext => nomatch htext

/-! ## Plain values -/

/-- A list of the filter, and one of the context. -/
theorem listOperators_iff_plain :
    let context : ContextMap PlainValue := [("author.badges".toList, .list [.string "Foo".toList])]
    let left := Expression.list [.value (.string "Foo".toList) .string]
    let left' := Expression.value (.string "author.badges".toList) .identifier
    let right := Expression.value (.string "foo".toList) .string
    (Correct PlainValue.api .contains context left right ["Foo".toList] "foo".toList ↔
      Holds PlainValue.api .contains .stringList ["Foo".toList] "foo".toList) ∧
    (Correct PlainValue.api .contains context left' right ["Foo".toList] "foo".toList ↔
      Holds PlainValue.api .contains .variantList ["Foo".toList] "foo".toList) ∧
    (∀ operator, Same PlainValue.api operator context left left' right ↔
      Agree PlainValue.api operator ["Foo".toList] "foo".toList) := by
  intro context left left' right
  have hleft : HasTexts PlainValue.api .stringList (left.execute PlainValue.api context) ["Foo".toList] :=
    hasTexts_list PlainValue.api_textLaws fun v hv => by
      obtain rfl := List.mem_singleton.mp hv
      rfl
  have hleft' : HasTexts PlainValue.api .variantList (left'.execute PlainValue.api context)
      ["Foo".toList] :=
    ⟨rfl, fun w hw => (List.mem_singleton.mp hw ▸ rfl), rfl⟩
  have hright : IsText PlainValue.api (right.execute PlainValue.api context) "foo".toList := ⟨rfl, rfl⟩
  obtain ⟨hcorrect, hsame⟩ := listOperators_iff PlainValue.api_textLaws hright
  exact ⟨hcorrect .contains .stringList left hleft, hcorrect .contains .variantList left' hleft',
    (hsame left left' hleft hleft').1⟩

/-- A list does not start with its first element. -/
theorem startsWith_first : ∃ parser, FilterParser.new "(\x7b(\"a\")\x7d) startswith (\"a\")".toList = .ok parser ∧
    parser.valid = true ∧ ∃ left right : Expression,
      parser.builtExpression = .binary ListOperator.startsWith.op left right ∧
      HasTexts PlainValue.api .stringList (left.execute PlainValue.api []) ["a".toList] ∧
      IsText PlainValue.api (right.execute PlainValue.api []) "a".toList ∧
      ¬ Correct PlainValue.api .startsWith [] left right ["a".toList] "a".toList := by
  let left := Expression.list [.value (.string "a".toList) .string]
  let right := Expression.value (.string "a".toList) .string
  have hwell : Expression.WellTyped (.binary .startsWith left right) := by
    refine .binary _ _ _ (by decide) (.list _ fun e he => ?_) (.string _)
    obtain rfl := List.mem_singleton.mp he
    exact .string _
  have htokens : (Tokenizer.new "(\x7b(\"a\")\x7d) startswith (\"a\")".toList).tokens
      = exprTokens (.binary .startsWith left right) := by
    decide +kernel
  obtain ⟨parser, hnew, hvalid, hexpression⟩ := FilterParser.new_of_tokens hwell htokens
  refine ⟨parser, hnew, hvalid, left, right, hexpression, ⟨rfl, rfl⟩, ⟨rfl, rfl⟩, fun h => ?_⟩
  have htrue := h.mpr ⟨"a".toList, by decide, PlainValue.api_textLaws.compare_self _⟩
  exact nomatch htrue

end Correct

end Dankerino.Filters
