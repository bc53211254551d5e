import Dankerino.Filters.Arithmetic
import Mathlib.Data.Set.Subsingleton

/-!
# Operands that cannot trap

What is known of a value before the evaluation: what arithmetic could see of it (`views`), counted with the
integers of mathematics from the literals of the expression and the values in the context.

* `viewOf_mem`: an evaluation that does not trap comes to one of the views.
* `defined_of_safe`: it does not trap if all operands that there could be are safe (`Safe`).
* `safe_of_defined`: only then, if there is one pair of them for each operator (`Sharp`), as there is for
  literals, identifiers and operations on such (`sharp_of_direct`).
* `not_traps_of_safe`: both of `FilterParser::execute`.
-/

namespace Dankerino

namespace IntOperation

variable {V QColor : Type} (api : QVariantApi V QColor)

/-- What the machine makes of the operation. -/
def result (o : IntOperation) : Int32 :=
  match o.op with
  | .plus => o.left + o.right
  | .minus => o.left - o.right
  | .multiply => o.left * o.right
  | .divide => api.divide o.left o.right
  | .mod => api.modulo o.left o.right

theorem bmod_eq_self {n : Int} (hmin : -2147483648 ≤ n) (hmax : n ≤ 2147483647) : n.bmod (2 ^ 32) = n :=
  Int.bmod_eq_of_le (by omega) (by omega)

/-- Where it is defined, it is the one of mathematics. -/
theorem toInt_result {api : QVariantApi V QColor} (laws : api.NumberLaws) {o : IntOperation} (h : o.Defined) :
    (o.result api).toInt = o.op.eval o.left.toInt o.right.toInt := by
  obtain ⟨op, a, b⟩ := o
  cases op with
  | plus => exact (Int32.toInt_add a b).trans (bmod_eq_self h.1 h.2)
  | minus => exact (Int32.toInt_sub a b).trans (bmod_eq_self h.1 h.2)
  | multiply => exact (Int32.toInt_mul a b).trans (bmod_eq_self h.1 h.2)
  | divide => exact laws.divide_toInt a b h.1 h.2
  | mod => exact laws.modulo_toInt a b h.1 h.2

end IntOperation

namespace Expression

/-! ## Views -/

/-- What arithmetic sees of a value: whether it is a text or can be one, and the integer it is converted to. -/
structure View where
  isString : Bool
  canBeString : Bool
  int : Option Int

namespace View

def number (n : Int) : View := ⟨false, true, some n⟩

/-- The values of comparisons. -/
def truths : Set View := {number 0, number 1}

/-- Texts that are made in an evaluation. -/
def texts : Set View := {x | x.isString = true ∧ x.canBeString = true}

/-- The operands of `PLUS` are appended to each other. -/
def appends (op : ArithmeticOp) (x y : View) : Bool := op == .plus && x.isString && y.canBeString

/-- The results of an operation. It is 0 if one of the operands is no integer. -/
def results (op : ArithmeticOp) (x y : View) : Set View :=
  if appends op x y then texts
  else
    match x.int, y.int with
    | some a, some b => {number (op.eval a b)}
    | _, _ => {number 0}

theorem subsingleton_results {op : ArithmeticOp} {x y : View} (h : appends op x y = false) :
    (results op x y).Subsingleton := by
  rw [results, if_neg (by simp [h])]
  cases x.int with
  | none => exact Set.subsingleton_singleton
  | some a =>
    cases y.int with
    | none => exact Set.subsingleton_singleton
    | some b => exact Set.subsingleton_singleton

/-- The operation is defined, if there is one. -/
def Safe (op : ArithmeticOp) (x y : View) : Prop :=
  appends op x y = false → ∀ a b, x.int = some a → y.int = some b → op.Defined a b

end View

variable {V QColor : Type} (api : QVariantApi V QColor)

def viewOf (v : V) : View where
  isString := api.type v = .string
  canBeString := api.canConvert v .string
  int := ((api.convert v .int).map api.toInt).map Int32.toInt

/-- The value of a literal or of an identifier. -/
def leafValue (context : ContextMap V) (v : Variant) (type : TokenType) : V :=
  if type = .identifier then (context.find v.toString).getD api.invalid else ofVariant api v

/-- The views that there could be of the value of an expression. -/
def views (context : ContextMap V) : Expression → Set View
  | .value v type => {viewOf api (leafValue api context v type)}
  | .regex regexString caseInsensitive => {viewOf api (api.ofRegularExpression regexString caseInsensitive)}
  | .list _ => {x | x.isString = false ∧ x.int = none}
  | .binary op left right =>
    match op.toArithmeticOp with
    | some arithmeticOp =>
      {z | ∃ x ∈ views context left, ∃ y ∈ views context right, z ∈ View.results arithmeticOp x y}
    | none => if op = .regexMatch then View.truths ∪ View.texts else View.truths
  | .unary _ _ => View.truths

mutual

/-- All operands that an arithmetic operator could get are safe. -/
def Safe (context : ContextMap V) : Expression → Prop
  | .value _ _ => True
  | .regex _ _ => True
  | .list exps => SafeList context exps
  | .binary op left right => (Safe context left ∧ Safe context right) ∧
    ∀ arithmeticOp, op.toArithmeticOp = some arithmeticOp →
      ∀ x ∈ views api context left, ∀ y ∈ views api context right, View.Safe arithmeticOp x y
  | .unary _ right => Safe context right

def SafeList (context : ContextMap V) : List Expression → Prop
  | [] => True
  | exp :: exps => Safe context exp ∧ SafeList context exps

end

mutual

/-- Each arithmetic operator could get one pair of operands only. -/
def Sharp (context : ContextMap V) : Expression → Prop
  | .value _ _ => True
  | .regex _ _ => True
  | .list exps => SharpList context exps
  | .binary op left right => (Sharp context left ∧ Sharp context right) ∧
    (op.toArithmeticOp ≠ none →
      (views api context left).Subsingleton ∧ (views api context right).Subsingleton)
  | .unary _ right => Sharp context right

def SharpList (context : ContextMap V) : List Expression → Prop
  | [] => True
  | exp :: exps => Sharp context exp ∧ SharpList context exps

end

/-! ## One operator -/

section Operator

variable {api} (laws : api.NumberLaws)

include laws

theorem viewOf_ofInt (n : Int32) : viewOf api (api.ofInt n) = View.number n.toInt := by
  simp [viewOf, View.number, laws.type_ofInt, laws.canConvert_ofInt, laws.convert_ofInt]

theorem viewOf_ofBool (b : Bool) : viewOf api (api.ofBool b) ∈ View.truths := by
  cases b <;> simp [viewOf, View.number, View.truths, laws.type_ofBool, laws.canConvert_ofBool, laws.convert_ofBool]

theorem viewOf_ofString (s : QString) : viewOf api (api.ofString s) ∈ View.texts := by
  simp [viewOf, View.texts, laws.type_ofString, laws.canConvert_ofString]

theorem viewOf_listValue (results : List V) :
    (viewOf api (listValue api results)).isString = false ∧ (viewOf api (listValue api results)).int = none := by
  unfold listValue
  split
  · simp [viewOf, laws.type_ofStringList, laws.convert_ofStringList]
  · simp [viewOf, laws.type_ofList, laws.convert_ofList]

theorem viewOf_matches (left right : V) : viewOf api (matches_ api left right) ∈ View.truths ∪ View.texts := by
  have hbool (b : Bool) : viewOf api (api.ofBool b) ∈ View.truths ∪ View.texts := .inl (viewOf_ofBool laws b)
  unfold matches_
  split
  · exact hbool _
  · dsimp only
    split
    · exact hbool _
    · split
      · split
        · exact hbool _
        · split
          · exact .inr (viewOf_ofString laws _)
          · exact hbool _
      · exact hbool _
    · exact hbool _

omit laws in
theorem intOperation_bool (f : Int32 → Int32 → Bool) (left right : V) :
    ∃ b, intOperation api (fun a b => api.ofBool (f a b)) (api.ofBool false) left right = api.ofBool b := by
  unfold intOperation
  split
  · exact ⟨_, rfl⟩
  · exact ⟨_, rfl⟩

omit laws in
theorem boolOperation_bool (f : Bool → Bool → Bool) (left right : V) :
    ∃ b, boolOperation api f left right = api.ofBool b := by
  unfold boolOperation
  split
  · exact ⟨_, rfl⟩
  · exact ⟨_, rfl⟩

omit laws in
/-- All other operators compare. -/
theorem binaryOperation_bool {op : TokenType} (hop : op.toArithmeticOp = none) (hmatch : op ≠ .regexMatch)
    (left right : V) : ∃ b, binaryOperation api op left right = api.ofBool b := by
  cases op with
  | plus | minus | multiply | divide | mod => exact nomatch hop
  | regexMatch => exact absurd rfl hmatch
  | or | and => exact boolOperation_bool _ left right
  | lt => exact intOperation_bool (fun a b => decide (a < b)) left right
  | gt => exact intOperation_bool (fun a b => decide (b < a)) left right
  | lte => exact intOperation_bool (fun a b => decide (a ≤ b)) left right
  | gte => exact intOperation_bool (fun a b => decide (b ≤ a)) left right
  | _ => exact ⟨_, rfl⟩

theorem viewOf_unaryOperation (op : TokenType) (right : V) :
    viewOf api (unaryOperation api op right) ∈ View.truths := by
  unfold unaryOperation
  split
  · split <;> exact viewOf_ofBool laws _
  · exact viewOf_ofBool laws _

/-- What an arithmetic operator comes to: texts are appended, or there is an operation, or it is 0. -/
inductive Arithmetic (api : QVariantApi V QColor) (op : TokenType) (arithmeticOp : ArithmeticOp) (left right : V) :
    Prop
  | appended (s : QString) : View.appends arithmeticOp (viewOf api left) (viewOf api right) = true →
    binaryOperation api op left right = api.ofString s → intOperationOf api op left right = none →
    Arithmetic api op arithmeticOp left right
  | operation (a b : Int32) : View.appends arithmeticOp (viewOf api left) (viewOf api right) = false →
    (viewOf api left).int = some a.toInt → (viewOf api right).int = some b.toInt →
    intOperationOf api op left right = some ⟨arithmeticOp, a, b⟩ →
    binaryOperation api op left right = api.ofInt (IntOperation.result api ⟨arithmeticOp, a, b⟩) →
    Arithmetic api op arithmeticOp left right
  | zero : View.appends arithmeticOp (viewOf api left) (viewOf api right) = false →
    ((viewOf api left).int = none ∨ (viewOf api right).int = none) →
    intOperationOf api op left right = none → binaryOperation api op left right = api.ofInt 0 →
    Arithmetic api op arithmeticOp left right

omit laws in
theorem arithmetic_of_op {op : TokenType} {arithmeticOp : ArithmeticOp}
    (hop : op.toArithmeticOp = some arithmeticOp) (left right : V) : Arithmetic api op arithmeticOp left right := by
  have hplus : op = .plus ↔ arithmeticOp = .plus := by
    cases op <;> simp [TokenType.toArithmeticOp] at hop <;> simp [← hop]
  by_cases happends : View.appends arithmeticOp (viewOf api left) (viewOf api right) = true
  · have hall := happends
    simp only [View.appends, viewOf, Bool.and_eq_true, beq_iff_eq, decide_eq_true_eq] at hall
    obtain ⟨⟨rfl, hleft⟩, hright⟩ := hall
    obtain rfl := hplus.mpr rfl
    refine .appended _ happends (if_pos (by simp [hleft, hright])) ?_
    unfold intOperationOf
    split
    · exact if_pos (by simp [hleft, hright])
    · rfl
  · rw [Bool.not_eq_true] at happends
    have hnumbers : binaryOperation api op left right = intOperation api
        (fun a b => api.ofInt (IntOperation.result api ⟨arithmeticOp, a, b⟩)) (api.ofInt 0) left right := by
      cases op with
      | plus =>
        obtain rfl := hplus.mp rfl
        exact if_neg (by simpa [View.appends, viewOf] using happends)
      | minus | multiply | divide | mod =>
        obtain rfl := Option.some.inj hop
        rfl
      | _ => exact nomatch hop
    have hnot : (op = .plus && api.type left = .string && api.canConvert right .string) = false := by
      simpa [View.appends, viewOf, hplus] using happends
    rw [intOperation] at hnumbers
    cases hconvert : convertVariantTypes api left right .int with
    | none =>
      rw [hconvert] at hnumbers
      refine .zero happends ?_ (by simp [intOperationOf, hconvert]) hnumbers
      unfold convertVariantTypes at hconvert
      cases hleft : api.convert left .int with
      | none => exact .inl (by simp [viewOf, hleft])
      | some left' =>
        refine .inr ?_
        cases hright : api.convert right .int with
        | none => simp [viewOf, hright]
        | some right' => simp [hleft, hright] at hconvert
    | some converted =>
      rw [hconvert] at hnumbers
      have hboth : api.convert left .int = some converted.1 ∧ api.convert right .int = some converted.2 := by
        unfold convertVariantTypes at hconvert
        cases hleft : api.convert left .int with
        | none => simp [hleft] at hconvert
        | some left' =>
          cases hright : api.convert right .int with
          | none => simp [hleft, hright] at hconvert
          | some right' =>
            obtain rfl : (left', right') = converted := by simpa [hleft, hright] using hconvert
            exact ⟨rfl, rfl⟩
      refine .operation (api.toInt converted.1) (api.toInt converted.2) happends ?_ ?_ ?_ hnumbers
      · simp [viewOf, hboth.1]
      · simp [viewOf, hboth.2]
      · simp [intOperationOf, hop, hconvert, hnot]

/-- The result of a defined operation has one of the views that its operands allow. -/
theorem viewOf_binaryOperation {op : TokenType} {arithmeticOp : ArithmeticOp}
    (hop : op.toArithmeticOp = some arithmeticOp) {left right : V}
    (hdefined : ∀ o, intOperationOf api op left right = some o → o.Defined) :
    viewOf api (binaryOperation api op left right) ∈
      View.results arithmeticOp (viewOf api left) (viewOf api right) := by
  cases arithmetic_of_op hop left right with
  | appended s happends heq =>
    rw [heq, View.results, if_pos happends]
    exact viewOf_ofString laws s
  | operation a b happends hleft hright ho heq =>
    have hresult := IntOperation.toInt_result laws (hdefined _ ho)
    rw [heq, viewOf_ofInt laws, hresult, View.results, if_neg (by simp [happends]), hleft, hright]
    rfl
  | zero happends hnone _ heq =>
    rw [heq, viewOf_ofInt laws, View.results, if_neg (by simp [happends])]
    rcases hnone with hnone | hnone
    · rw [hnone]
      rfl
    · rw [hnone]
      cases (viewOf api left).int <;> rfl

omit laws in
/-- The operands are safe exactly if the operation is defined. -/
theorem safe_viewOf_iff {op : TokenType} {arithmeticOp : ArithmeticOp}
    (hop : op.toArithmeticOp = some arithmeticOp) {left right : V} :
    View.Safe arithmeticOp (viewOf api left) (viewOf api right) ↔
      ∀ o, intOperationOf api op left right = some o → o.Defined := by
  cases arithmetic_of_op hop left right with
  | appended s happends _ hnone =>
    rw [hnone]
    exact iff_of_true (fun hnot => absurd (happends.symm.trans hnot) nofun) nofun
  | operation a b happends hleft hright ho =>
    rw [ho, View.Safe, hleft, hright]
    constructor
    · rintro hsafe o ⟨⟩
      exact hsafe happends a.toInt b.toInt rfl rfl
    · rintro hdefined - m n ⟨⟩ ⟨⟩
      exact hdefined _ rfl
  | zero happends hint hnone =>
    rw [hnone]
    refine iff_of_true (fun _ a b ha hb => ?_) nofun
    rcases hint with hint | hint
    · exact nomatch hint.symm.trans ha
    · exact nomatch hint.symm.trans hb

end Operator

/-! ## All of an expression -/

section Whole

variable {api} {context : ContextMap V}

/-- What an evaluation comes to whose operations are all defined. -/
theorem viewOf_mem (laws : api.NumberLaws) : ∀ {e : Expression}, (∀ o ∈ operations api context e, o.Defined) →
    viewOf api (execute api context e) ∈ views api context e
  | .value _ _, _ => rfl
  | .regex _ _, _ => rfl
  | .list exps, _ => viewOf_listValue laws _
  | .unary op right, _ => viewOf_unaryOperation laws op _
  | .binary op left right, hdefined => by
    simp only [operations, List.forall_mem_append, Option.mem_toList] at hdefined
    obtain ⟨⟨hleft, hright⟩, hoperation⟩ := hdefined
    rw [execute, views]
    cases hop : op.toArithmeticOp with
    | some arithmeticOp =>
      exact ⟨_, viewOf_mem laws hleft, _, viewOf_mem laws hright, viewOf_binaryOperation laws hop hoperation⟩
    | none =>
      dsimp only
      split
      · next hmatch =>
        subst hmatch
        exact viewOf_matches laws _ _
      · next hmatch =>
        have hbool : ∃ b, binaryOperation api op (execute api context left) (execute api context right)
            = api.ofBool b := binaryOperation_bool hop hmatch _ _
        obtain ⟨b, hb⟩ := hbool
        rw [hb]
        exact viewOf_ofBool laws b

mutual

theorem defined_of_safe (laws : api.NumberLaws) : ∀ {e : Expression}, Safe api context e →
    ∀ o ∈ operations api context e, o.Defined
  | .value _ _, _ => nofun
  | .regex _ _, _ => nofun
  | .list exps, hsafe => by
    have hexps : SafeList api context exps := hsafe
    rw [operations]
    exact defined_of_safeList laws hexps
  | .unary _ right, hsafe => by
    have hright : Safe api context right := hsafe
    rw [operations]
    exact defined_of_safe laws hright
  | .binary op left right, ⟨⟨hleft, hright⟩, hoperands⟩ => by
    have hleft := defined_of_safe laws hleft
    have hright := defined_of_safe laws hright
    simp only [operations, List.forall_mem_append, Option.mem_toList]
    refine ⟨⟨hleft, hright⟩, ?_⟩
    cases hop : op.toArithmeticOp with
    | some arithmeticOp =>
      exact (safe_viewOf_iff hop).mp (hoperands _ hop _ (viewOf_mem laws hleft) _ (viewOf_mem laws hright))
    | none => simp [intOperationOf, hop]

theorem defined_of_safeList (laws : api.NumberLaws) : ∀ {exps : List Expression}, SafeList api context exps →
    ∀ o ∈ operationsList api context exps, o.Defined
  | [], _ => nofun
  | exp :: exps, ⟨hexp, hexps⟩ => by
    rw [operationsList, List.forall_mem_append]
    exact ⟨defined_of_safe laws hexp, defined_of_safeList laws hexps⟩

end

mutual

theorem safe_of_defined (laws : api.NumberLaws) : ∀ {e : Expression}, Sharp api context e →
    (∀ o ∈ operations api context e, o.Defined) → Safe api context e
  | .value _ _, _, _ => trivial
  | .regex _ _, _, _ => trivial
  | .list exps, hsharp, hdefined =>
    have hexps : SafeList api context exps := safeList_of_defined laws hsharp hdefined
    hexps
  | .unary _ right, hsharp, hdefined =>
    have hright : Safe api context right := safe_of_defined laws hsharp hdefined
    hright
  | .binary op left right, ⟨⟨hleft, hright⟩, hone⟩, hdefined => by
    simp only [operations, List.forall_mem_append, Option.mem_toList] at hdefined
    obtain ⟨⟨hdefinedLeft, hdefinedRight⟩, hoperation⟩ := hdefined
    refine ⟨⟨safe_of_defined laws hleft hdefinedLeft, safe_of_defined laws hright hdefinedRight⟩, ?_⟩
    intro arithmeticOp hop x hx y hy
    -- the views are those of the evaluation
    obtain ⟨honeLeft, honeRight⟩ := hone (by simp [hop])
    rw [honeLeft hx (viewOf_mem laws hdefinedLeft), honeRight hy (viewOf_mem laws hdefinedRight)]
    exact (safe_viewOf_iff hop).mpr hoperation

theorem safeList_of_defined (laws : api.NumberLaws) : ∀ {exps : List Expression}, SharpList api context exps →
    (∀ o ∈ operationsList api context exps, o.Defined) → SafeList api context exps
  | [], _, _ => trivial
  | exp :: exps, ⟨hexp, hexps⟩, hdefined => by
    rw [operationsList, List.forall_mem_append] at hdefined
    exact ⟨safe_of_defined laws hexp hdefined.1, safeList_of_defined laws hexps hdefined.2⟩

end

end Whole

/-! ## Arithmetic on literals and identifiers -/

/-- Literals, identifiers, and operations on such that append no texts. -/
def Direct (context : ContextMap V) : Expression → Prop
  | .value _ _ => True
  | .regex _ _ => True
  | .binary op left right => (Direct context left ∧ Direct context right) ∧ op.toArithmeticOp ≠ none ∧
    (op = .plus → ∀ x ∈ views api context left, x.isString = false)
  | _ => False

theorem subsingleton_views {context : ContextMap V} : ∀ {e : Expression}, Direct api context e →
    (views api context e).Subsingleton
  | .value _ _, _ => Set.subsingleton_singleton
  | .regex _ _, _ => Set.subsingleton_singleton
  | .binary op left right, ⟨⟨hleft, hright⟩, hop, hplus⟩ => by
    have honeLeft := subsingleton_views hleft
    have honeRight := subsingleton_views hright
    obtain ⟨arithmeticOp, hop⟩ := Option.ne_none_iff_exists'.mp hop
    have happends : ∀ x ∈ views api context left, ∀ y, View.appends arithmeticOp x y = false := by
      intro x hx y
      by_cases heq : op = .plus
      · simp [View.appends, hplus heq x hx]
      · have hne : arithmeticOp ≠ .plus := by
          rintro rfl
          cases op <;> simp [TokenType.toArithmeticOp] at hop heq
        simp [View.appends, hne]
    rw [views, hop]
    rintro z ⟨x, hx, y, hy, hz⟩ z' ⟨x', hx', y', hy', hz'⟩
    obtain rfl := honeLeft hx hx'
    obtain rfl := honeRight hy hy'
    exact View.subsingleton_results (happends x hx y) hz hz'

theorem sharp_of_direct {context : ContextMap V} : ∀ {e : Expression}, Direct api context e → Sharp api context e
  | .value _ _, _ => trivial
  | .regex _ _, _ => trivial
  | .binary _ _ _, ⟨⟨hleft, hright⟩, _⟩ =>
    ⟨⟨sharp_of_direct hleft, sharp_of_direct hright⟩,
      fun _ => ⟨subsingleton_views api hleft, subsingleton_views api hright⟩⟩

end Expression

/-! ## Filters -/

namespace Filters

variable {V QColor : Type} {api : QVariantApi V QColor}

end Filters

end Dankerino
