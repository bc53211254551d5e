/-!
# Timers

How early a timer of Qt may fire. It may be late by any amount.
-/

namespace Dankerino

/--
A timer object is coarse, which may be early by 5 % of its interval. A single shot is precise below two seconds, and
then never early, and coarse otherwise. All times are in milliseconds.
-/
structure QTimer where
  /-- The time after which a timer object fires at the earliest. -/
  timeout : Nat → Nat
  /-- The time after which `singleShot` fires at the earliest. -/
  singleShot : Nat → Nat
  timeout_coarse : ∀ msec, 95 * msec ≤ 100 * timeout msec
  singleShot_coarse : ∀ msec, 95 * msec ≤ 100 * singleShot msec
  singleShot_precise : ∀ msec < 2000, msec ≤ singleShot msec

namespace QTimer

/-- A clock on which no timer is early. -/
def punctual : QTimer where
  timeout msec := msec
  singleShot msec := msec
  timeout_coarse msec := by omega
  singleShot_coarse msec := by omega
  singleShot_precise msec _ := Nat.le_refl msec

/-- A clock on which all coarse timers are as early as they may be. -/
def early : QTimer where
  timeout msec := msec - msec / 20
  singleShot msec := if msec < 2000 then msec else msec - msec / 20
  timeout_coarse msec := by omega
  singleShot_coarse msec := by split <;> omega
  singleShot_precise _ h := Nat.le_of_eq (if_pos h).symm

end QTimer

end Dankerino
