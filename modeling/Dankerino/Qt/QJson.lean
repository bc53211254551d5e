import Dankerino.Qt.QString
import Mathlib.Data.Rat.Defs

/-!
# JSON values

`QJsonValue`, `QJsonObject` and `QJsonArray` of Qt, as far as the modelled code uses them. An object
is a list of keys and values, of which the first one with a key counts. A `qreal` is its value; the
code here only stores it.
-/

namespace Dankerino

/-- A `double`. -/
inductive Qreal
  | finite (value : Rat)
  | infinite (negative : Bool)
  | nan
deriving DecidableEq, Repr

inductive QJsonValue
  | undefined
  | null
  | bool (b : Bool)
  | double (x : Qreal)
  | string (s : QString)
  | array (a : List QJsonValue)
  | object (o : List (QString × QJsonValue))

abbrev QJsonObject := List (QString × QJsonValue)

abbrev QJsonArray := List QJsonValue

namespace QJsonValue

/-! ## Conversions, which fall back to a default -/

def toBool (v : QJsonValue) (default : Bool) : Bool :=
  match v with
  | bool b => b
  | _ => default

def toDouble (v : QJsonValue) (default : Qreal) : Qreal :=
  match v with
  | double x => x
  | _ => default

/-- A `double` is an `int` if it has no fraction and is in range. -/
def toInt (v : QJsonValue) (default : Int32) : Int32 :=
  match v with
  | double (.finite x) =>
    if x.den = 1 ∧ -2147483648 ≤ x.num ∧ x.num ≤ 2147483647 then Int32.ofInt x.num else default
  | _ => default

def toString : QJsonValue → QString
  | string s => s
  | _ => []

def toArray : QJsonValue → QJsonArray
  | array a => a
  | _ => []

def toObject : QJsonValue → QJsonObject
  | object o => o
  | _ => []

def isUndefined : QJsonValue → Bool
  | undefined => true
  | _ => false

def isString : QJsonValue → Bool
  | string _ => true
  | _ => false

def isArray : QJsonValue → Bool
  | array _ => true
  | _ => false

/-- The comparison with a text. -/
def equals (v : QJsonValue) (text : QString) : Bool :=
  match v with
  | string s => s == text
  | _ => false

/-- The value of an `int`. -/
def ofInt (n : Int32) : QJsonValue := double (.finite n.toInt)

theorem toInt_ofInt (n default : Int32) : (ofInt n).toInt default = n := by
  have hle : -2147483648 ≤ n.toInt := Int32.le_toInt n
  have hlt : n.toInt < 2147483648 := Int32.toInt_lt n
  have hnum : (n.toInt : Rat).num = n.toInt := Rat.num_intCast n.toInt
  have hden : (n.toInt : Rat).den = 1 := Rat.den_intCast n.toInt
  show (if (n.toInt : Rat).den = 1 ∧ -2147483648 ≤ (n.toInt : Rat).num ∧
    (n.toInt : Rat).num ≤ 2147483647 then Int32.ofInt (n.toInt : Rat).num else default) = n
  rw [hnum, hden, if_pos ⟨rfl, hle, by omega⟩, Int32.ofInt_toInt]

end QJsonValue

namespace QJsonObject

/-- `value`, or undefined. -/
def value (o : QJsonObject) (key : String) : QJsonValue := (List.lookup key.toList o).getD .undefined

def contains (o : QJsonObject) (key : String) : Bool := (List.lookup key.toList o).isSome

/-- `insert`, which takes the place of a value that is there. -/
def insert (o : QJsonObject) (key : String) (v : QJsonValue) : QJsonObject :=
  (key.toList, v) :: o.filter fun entry => entry.1 != key.toList

theorem lookup_insert (o : QJsonObject) (key : String) (v : QJsonValue) (k : String) :
    List.lookup k.toList (insert o key v) = if k = key then some v else List.lookup k.toList o := by
  unfold insert
  by_cases hk : k = key
  · subst hk
    rw [if_pos rfl, List.lookup_cons_self]
  · have hne : k.toList ≠ key.toList := fun h => hk (String.toList_injective h)
    rw [if_neg hk, List.lookup_cons, beq_false_of_ne hne]
    simp only []
    induction o with
    | nil => rfl
    | cons entry o ih =>
      obtain ⟨x, w⟩ := entry
      by_cases hx : x = key.toList
      · rw [List.filter_cons_of_neg (by simp [hx]), ih, hx, List.lookup_cons, beq_false_of_ne hne]
      · rw [List.filter_cons_of_pos (by simpa using hx), List.lookup_cons, List.lookup_cons, ih]

@[simp] theorem value_insert_self (o : QJsonObject) (key : String) (v : QJsonValue) :
    value (insert o key v) key = v := by
  rw [value, lookup_insert, if_pos rfl]
  rfl

/-- What stands in an array of an object is smaller than the object. -/
theorem sizeOf_toObject_lt {o : QJsonObject} {key : String} {v : QJsonValue}
    (h : v ∈ (value o key).toArray) : sizeOf v.toObject < sizeOf o := by
  unfold value at h
  cases hlookup : List.lookup key.toList o with
  | none =>
    rw [hlookup] at h
    exact nomatch h
  | some w =>
    rw [hlookup, Option.getD_some] at h
    cases w with
    | array a =>
      have hv : sizeOf v < sizeOf a := List.sizeOf_lt_of_mem h
      have hmem : (key.toList, QJsonValue.array a) ∈ o := by
        obtain ⟨l₁, l₂, rfl, -⟩ := List.lookup_eq_some_iff.mp hlookup
        exact List.mem_append_right _ List.mem_cons_self
      have ho := List.sizeOf_lt_of_mem hmem
      have hpair : sizeOf (key.toList, QJsonValue.array a)
          = 1 + sizeOf key.toList + sizeOf (QJsonValue.array a) := rfl
      have harray : sizeOf (QJsonValue.array a) = 1 + sizeOf a :=
        QJsonValue.array.sizeOf_spec a
      have hobject : sizeOf v.toObject ≤ sizeOf v := by
        cases v with
        | object o' =>
          rw [QJsonValue.object.sizeOf_spec]
          exact Nat.le_add_left _ _
        | _ =>
          show 1 ≤ _
          simp
      omega
    | _ => exact nomatch h

end QJsonObject

end Dankerino
