import Dankerino.Filters.ParserSpec
import Dankerino.Qt.PlaceMarkers

/-!
# The text of an expression

`filterString` puts its parts together with `QString::arg`. The operands of a binary operation are
put in one after the other, so the second and third call see the text of the left operand. They
leave it alone if none of its literals has a place marker with a number up to three. Then every part
stands in its place.
-/

namespace Dankerino

namespace Expression

open QString

/-! ## The condition -/

mutual

/-- The literals of the left operands have no place markers with numbers up to three. -/
def ArgSafe : Expression → Prop
  | .value _ _ => True
  | .regex _ _ => True
  | .list exps => ArgSafeAll exps
  | .binary _ left right =>
    (∀ literal ∈ left.literals, ∀ number ∈ markers literal, 3 < number) ∧
      ArgSafe left ∧ ArgSafe right
  | .unary _ right => ArgSafe right

def ArgSafeAll : List Expression → Prop
  | [] => True
  | exp :: exps => ArgSafe exp ∧ ArgSafeAll exps

end

theorem argSafe_of_mem {exps : List Expression} (h : ArgSafeAll exps) :
    ∀ e ∈ exps, ArgSafe e := by
  induction exps with
  | nil => exact fun e he => nomatch he
  | cons exp exps ih =>
    rw [ArgSafeAll] at h
    rintro e (_ | ⟨_, he⟩)
    · exact h.1
    · exact ih h.2 e he

/-! ## The parts in their places -/

theorem filterString_string (s : QString) : filterString (.value (.string s) .string) = quoted s := by
  rw [filterString]
  rfl

theorem filterString_regex (s : QString) (caseInsensitive : Bool) :
    filterString (.regex s caseInsensitive) = quotedRegex s caseInsensitive := by
  rw [filterString]
  cases caseInsensitive <;> rfl

theorem filterString_not (right : Expression) :
    filterString (.unary .not right) = '!' :: '(' :: (filterString right ++ [')']) := by
  rw [filterString]
  rfl

/-- The items of a list, with the separator before each. -/
def itemTexts : List Expression → QString
  | [] => []
  | e :: exps => ',' :: ' ' :: '(' :: (filterString e ++ ')' :: itemTexts exps)

theorem intercalate_filterStrings (e : Expression) (exps : List Expression) :
    List.intercalate ", ".toList (filterStrings (e :: exps))
      = '(' :: (filterString e ++ ')' :: itemTexts exps) := by
  induction exps generalizing e with
  | nil =>
    rw [filterStrings, filterStrings, List.intercalate_singleton]
    rfl
  | cons e' exps ih =>
    have hitems := ih e'
    rw [filterStrings] at hitems ⊢
    rw [filterStrings, List.intercalate_cons_cons, hitems, itemTexts]
    show '(' :: (filterString e ++ [')']) ++ [',', ' '] ++ _ = _
    simp

theorem filterString_list (exps : List Expression) :
    filterString (.list exps) = '\x7b' :: ((itemTexts exps).drop 2 ++ ['\x7d']) := by
  cases exps with
  | nil => rfl
  | cons e exps =>
    rw [filterString, intercalate_filterStrings]
    rfl

/-- What is put in for the operator. -/
theorem arg_op {left : QString} (h : ∀ number ∈ markers left, 3 < number) (op : TokenType) :
    arg ('(' :: (left ++ ") %2 (%3)".toList)) (binaryOpText op)
      = '(' :: (left ++ ')' :: ' ' :: (binaryOpText op ++ " (%3)".toList)) := by
  have hstops : Stops ") %2 (%3)".toList := stops_cons (c := ')') rfl (by decide) _
  have hmarkers : markers ('(' :: (left ++ ") %2 (%3)".toList)) = markers left ++ [2, 3] := by
    rw [markers_cons (by decide), markers_append hstops]
    rfl
  have hmin : (markers left ++ [2, 3]).min? = some 2 := by
    rw [List.min?_eq_some_iff]
    constructor
    · simp
    · intro number hnumber
      rcases List.mem_append.mp hnumber with hnumber | hnumber
      · exact Nat.le_of_lt (Nat.lt_trans (by decide) (h number hnumber))
      · rcases List.mem_cons.mp hnumber with rfl | hnumber
        · exact Nat.le_refl _
        · rw [List.mem_singleton.mp hnumber]
          decide
  have hnot : 2 ∉ markers left := fun hmem => absurd (h 2 hmem) (by decide)
  unfold arg
  rw [hmarkers, hmin]
  simp only
  rw [substitute_cons (by decide), substitute_append hstops, substitute_of_notMem hnot]
  rfl

/-- What is put in for the right operand. -/
theorem arg_right {left : QString} (h : ∀ number ∈ markers left, 3 < number) (op : TokenType)
    (right : QString) :
    arg ('(' :: (left ++ ')' :: ' ' :: (binaryOpText op ++ " (%3)".toList))) right
      = '(' :: (left ++ ')' :: ' ' :: (binaryOpText op ++ ' ' :: '(' :: (right ++ [')']))) := by
  have hmarkers : markers ('(' :: (left ++ ')' :: ' ' :: (binaryOpText op ++ " (%3)".toList)))
      = markers left ++ [3] := by
    rw [markers_cons (by decide), markers_append (stops_cons rfl (by decide) _)]
    congr 1
    cases op <;> rfl
  have hmin : (markers left ++ [3]).min? = some 3 := by
    rw [List.min?_eq_some_iff]
    constructor
    · simp
    · intro number hnumber
      rcases List.mem_append.mp hnumber with hnumber | hnumber
      · exact Nat.le_of_lt (h number hnumber)
      · exact Nat.le_of_eq (List.mem_singleton.mp hnumber).symm
  have hnot : 3 ∉ markers left := fun hmem => absurd (h 3 hmem) (by decide)
  unfold arg
  rw [hmarkers, hmin]
  simp only
  rw [substitute_cons (by decide), substitute_append (stops_cons rfl (by decide) _),
    substitute_of_notMem hnot]
  congr 2
  cases op <;> rfl

theorem filterString_binary_of_markers {left : Expression}
    (h : ∀ number ∈ markers left.filterString, 3 < number) (op : TokenType) (right : Expression) :
    filterString (.binary op left right)
      = '(' :: (left.filterString ++ ')' :: ' ' :: (binaryOpText op ++
          ' ' :: '(' :: (right.filterString ++ [')']))) := by
  have hleft : arg "(%1) %2 (%3)".toList left.filterString
      = '(' :: (left.filterString ++ ") %2 (%3)".toList) := rfl
  rw [filterString, hleft, arg_op h, arg_right h]

/-! ## The markers of the text -/

theorem markers_of_notMem {s : QString} (h : '%' ∉ s) : markers s = [] := by
  induction s with
  | nil => rfl
  | cons c s ih =>
    rw [markers_cons fun hc => h (hc ▸ .head _), ih fun hs => h (.tail _ hs)]

/-- An operator is no marker, and neither begins one. -/
theorem markers_op (op : TokenType) (s : QString) :
    markers (')' :: ' ' :: (binaryOpText op ++ ' ' :: '(' :: s)) = markers s := by
  have hbehind : markers (' ' :: '(' :: s) = markers s := by
    rw [markers_cons (by decide), markers_cons (by decide)]
  rw [markers_cons (by decide), markers_cons (by decide),
    markers_append (stops_cons rfl (by decide) _), hbehind]
  have hop : markers (binaryOpText op) = [] := by cases op <;> rfl
  rw [hop]
  rfl

theorem number_eq (n : Nat) : QString.number n = Nat.toDigits 10 n := rfl

theorem notMem_number {c : Char} (h : c.isDigit = false) (n : Nat) : c ∉ QString.number n := by
  intro hc
  rw [number_eq] at hc
  rw [Nat.isDigit_of_mem_toDigits (by decide) (by decide) hc] at h
  exact nomatch h

theorem notMem_validIdentifiers {s : QString} (h : s ∈ validIdentifiers) : '%' ∉ s ∧ '"' ∉ s := by
  revert s
  decide

theorem markers_itemTexts {exps : List Expression}
    (h : ∀ e ∈ exps, markers e.filterString = e.literals.flatMap markers) :
    markers (itemTexts exps) = (literalsAll exps).flatMap markers := by
  induction exps with
  | nil => rfl
  | cons e exps ih =>
    rw [itemTexts, literalsAll, List.flatMap_append, markers_cons (by decide),
      markers_cons (by decide), markers_cons (by decide), markers_append (stops_cons rfl (by decide) _),
      markers_cons (by decide), h e (.head _), ih fun e' he' => h e' (.tail _ he')]

/-- The separator before the first item makes no difference. -/
theorem markers_drop_itemTexts (exps : List Expression) :
    markers ((itemTexts exps).drop 2) = markers (itemTexts exps) := by
  cases exps with
  | nil => rfl
  | cons e exps =>
    rw [itemTexts, markers_cons (by decide), markers_cons (by decide)]
    rfl

/-- The place markers of the text are those of its literals. -/
theorem markers_filterString {e : Expression} (hwell : WellTyped e) (hsafe : ArgSafe e) :
    markers e.filterString = e.literals.flatMap markers := by
  induction hwell with
  | int n hn =>
    rw [filterString, literals]
    · exact markers_of_notMem (notMem_number rfl n)
    · simp
  | string s =>
    rw [filterString_string, literals, List.flatMap_singleton]
    rfl
  | identifier s hs =>
    rw [filterString, literals]
    · exact markers_of_notMem (notMem_validIdentifiers hs).1
    · simp
  | regex s caseInsensitive =>
    rw [filterString_regex, literals, List.flatMap_singleton]
  | list exps hexps ih =>
    rw [ArgSafe] at hsafe
    rw [filterString_list, literals, markers_cons (by decide),
      markers_append (stops_cons rfl (by decide) _), markers_drop_itemTexts,
      markers_itemTexts fun e he => ih e he (argSafe_of_mem hsafe e he)]
    exact List.append_nil _
  | binary op left right hop hl hr ihl ihr =>
    rw [ArgSafe] at hsafe
    obtain ⟨hliterals, hleft, hright⟩ := hsafe
    have hmarkers : ∀ number ∈ markers left.filterString, 3 < number := by
      rw [ihl hleft]
      intro number hnumber
      obtain ⟨literal, hliteral, hnumber⟩ := List.mem_flatMap.mp hnumber
      exact hliterals literal hliteral number hnumber
    rw [filterString_binary_of_markers hmarkers, literals, List.flatMap_append,
      markers_cons (by decide), markers_append (stops_cons rfl (by decide) _), markers_op,
      markers_append (stops_cons rfl (by decide) _), ihl hleft, ihr hright]
    congr 1
    exact List.append_nil _
  | not right hr ih =>
    rw [ArgSafe] at hsafe
    rw [filterString_not, literals, markers_cons (by decide), markers_cons (by decide),
      markers_append (stops_cons rfl (by decide) _), ih hsafe]
    exact List.append_nil _

/-- In a safe expression the operands are where they belong. -/
theorem filterString_binary {op : TokenType} {left right : Expression} (hwell : WellTyped left)
    (hsafe : ArgSafe (.binary op left right)) :
    filterString (.binary op left right)
      = '(' :: (left.filterString ++ ')' :: ' ' :: (binaryOpText op ++
          ' ' :: '(' :: (right.filterString ++ [')']))) := by
  rw [ArgSafe] at hsafe
  obtain ⟨hliterals, hleft, -⟩ := hsafe
  refine filterString_binary_of_markers ?_ op right
  rw [markers_filterString hwell hleft]
  intro number hnumber
  obtain ⟨literal, hliteral, hnumber⟩ := List.mem_flatMap.mp hnumber
  exact hliterals literal hliteral number hnumber

end Expression

end Dankerino
