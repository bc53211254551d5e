import Dankerino.Common.SignalVector
import Dankerino.Infra.Run
import Dankerino.Qt.QString
import Mathlib.Logic.Function.Basic
import Mathlib.Order.Bounds.Defs
import Mathlib.Order.MinMax

/-!
# The index of the custom commands

`CommandController` of `controllers/commands`, as far as it keeps the custom commands: the vector
`items`, the map `userCommands_` from names to commands, and `maxSpaces_`. The map and the number are
brought up to date by one function, which is connected to both signals of the vector.

Several commands may have the same name. The first one counts.
-/

namespace Dankerino

open Infra

structure Command where
  name : QString
  func : QString
  showInMsgContextMenu : Bool
deriving DecidableEq, Repr

structure CommandController where
  items : SignalVector Command
  userCommands : QString → Option Command
  maxSpaces : Nat

namespace CommandController

/-- The controller before any command is loaded. The vector has no order of its own. -/
def new : CommandController where
  items := { items := [], itemCompare := none }
  userCommands _ := none
  maxSpaces := 0

/-- The loop for `maxSpaces_`. -/
def maxSpacesLoop (maxSpaces : Nat) : List Command → Nat
  | [] => maxSpaces
  | cmd :: cmds =>
    let localMaxSpaces := cmd.name.count ' '
    maxSpacesLoop (if localMaxSpaces > maxSpaces then localMaxSpaces else maxSpaces) cmds

/-- The loop for `userCommands_`, which stops at the first command of the name. -/
def firstMatchLoop (name : QString) (userCommands : QString → Option Command) :
    List Command → QString → Option Command
  | [] => userCommands
  | cmd :: cmds =>
    if cmd.name = name then Function.update userCommands cmd.name (some cmd)
    else firstMatchLoop name userCommands cmds

/-- What is connected to `itemInserted` and `itemRemoved`. -/
def addFirstMatchToMap (item : Command) (s : CommandController) : CommandController :=
  { s with
    userCommands := firstMatchLoop item.name (Function.update s.userCommands item.name none) s.items.items
    maxSpaces := maxSpacesLoop 0 s.items.items }

inductive Op
  | insert (item : Command) (index : Option Nat)
  | removeAt (index : Nat)

/-- The vector changes, and then its signal is sent. `none` stands for a failed assertion. -/
def apply (s : CommandController) : Op → Option CommandController
  | .insert item index =>
    (s.items.insert item index).map fun r => addFirstMatchToMap item { s with items := r.1 }
  | .removeAt index =>
    (s.items.removeAt index).map fun r => addFirstMatchToMap r.2 { s with items := r.1 }

/-! ## One signal -/

def hasName (name : QString) (cmd : Command) : Bool := cmd.name = name

theorem firstMatchLoop_eq {name : QString} {userCommands : QString → Option Command}
    (h : userCommands name = none) (cmds : List Command) :
    firstMatchLoop name userCommands cmds
      = Function.update userCommands name (cmds.find? (hasName name)) := by
  induction cmds with
  | nil =>
    rw [firstMatchLoop, List.find?_nil, ← h, Function.update_eq_self]
  | cons cmd cmds ih =>
    rw [firstMatchLoop]
    by_cases hname : cmd.name = name
    · rw [if_pos hname, List.find?_cons_of_pos (by simpa [hasName] using hname), hname]
    · rw [if_neg hname, ih, List.find?_cons_of_neg (by simpa [hasName] using hname)]

theorem maxSpacesLoop_eq (cmds : List Command) : ∀ maxSpaces : Nat,
    maxSpacesLoop maxSpaces cmds = cmds.foldl (fun n cmd => max n (cmd.name.count ' ')) maxSpaces := by
  induction cmds with
  | nil => exact fun _ => rfl
  | cons cmd cmds ih =>
    intro maxSpaces
    rw [maxSpacesLoop, List.foldl_cons, ih]
    congr 1
    split
    · next h => exact (Nat.max_eq_right (Nat.le_of_lt h)).symm
    · next h => exact (Nat.max_eq_left (Nat.le_of_not_gt h)).symm

/-- The number that the loop started with, or one that it met. -/
theorem isGreatest_maxSpacesLoop (cmds : List Command) (maxSpaces : Nat) :
    IsGreatest ({n | n = maxSpaces} ∪ {n | ∃ cmd ∈ cmds, cmd.name.count ' ' = n})
      (maxSpacesLoop maxSpaces cmds) := by
  rw [maxSpacesLoop_eq]
  induction cmds generalizing maxSpaces with
  | nil =>
    constructor
    · exact .inl rfl
    · rintro n (rfl | ⟨cmd, hcmd, -⟩)
      · exact Nat.le_refl _
      · exact nomatch hcmd
  | cons cmd cmds ih =>
    obtain ⟨hmem, hle⟩ := ih (max maxSpaces (cmd.name.count ' '))
    rw [List.foldl_cons]
    constructor
    · rcases hmem with hmax | ⟨cmd', hcmd', hcount⟩
      · rcases max_choice maxSpaces (cmd.name.count ' ') with h | h
        · exact .inl (hmax.trans h)
        · exact .inr ⟨cmd, .head _, (hmax.trans h).symm⟩
      · exact .inr ⟨cmd', .tail _ hcmd', hcount⟩
    · have hmax := hle (.inl rfl)
      rintro n (rfl | ⟨cmd', hcmd' | ⟨_, hcmd'⟩, rfl⟩)
      · exact Nat.le_trans (Nat.le_max_left _ _) hmax
      · exact Nat.le_trans (Nat.le_max_right _ _) hmax
      · exact hle (.inr ⟨cmd', hcmd', rfl⟩)

/-! ## Runs -/

/-- The map has the first command of every name, and the number is the largest one. -/
structure Exact (s : CommandController) : Prop where
  userCommands : ∀ name, s.userCommands name = s.items.items.find? (hasName name)
  maxSpaces : s.maxSpaces = maxSpacesLoop 0 s.items.items

theorem exact_new : Exact new := ⟨fun _ => rfl, rfl⟩

/-- A change that other names do not notice. -/
theorem exact_addFirstMatchToMap {s : CommandController} {item : Command} {items : List Command}
    (hmap : ∀ name, s.userCommands name = items.find? (hasName name))
    (hother : ∀ name, item.name ≠ name →
      s.items.items.find? (hasName name) = items.find? (hasName name)) :
    Exact (addFirstMatchToMap item s) := by
  refine ⟨fun name => ?_, rfl⟩
  show firstMatchLoop _ _ _ _ = _
  rw [firstMatchLoop_eq (Function.update_self _ _ _)]
  by_cases hname : item.name = name
  · rw [← hname, Function.update_self]
    rfl
  · rw [Function.update_of_ne (Ne.symm hname), Function.update_of_ne (Ne.symm hname), hmap,
      ← hother name hname]
    rfl

theorem exact_of_apply {s s' : CommandController} {op : Op} (h : Exact s)
    (happly : s.apply op = some s') : Exact s' := by
  cases op with
  | insert item index =>
    obtain ⟨r, hinsert, rfl⟩ := Option.map_eq_some_iff.mp happly
    obtain ⟨a, b, hitems, rfl⟩ := SignalVector.insert_cut hinsert
    refine exact_addFirstMatchToMap h.userCommands fun name hname => ?_
    have hnot : ¬ hasName name item = true := by simpa [hasName] using hname
    rw [hitems]
    simp [hnot]
  | removeAt index =>
    obtain ⟨r, hremove, rfl⟩ := Option.map_eq_some_iff.mp happly
    obtain ⟨a, item, b, hitems, rfl⟩ := SignalVector.eq_of_removeAt hremove
    refine exact_addFirstMatchToMap h.userCommands fun name hname => ?_
    have hnot : ¬ hasName name item = true := by simpa [hasName] using hname
    rw [hitems]
    simp [hnot]

/--
**The index is exact.** After every list of insertions and removals the map has the first command of
every name that occurs and nothing else, and the number is the largest number of spaces in a name.
-/
theorem userCommands_exact {ops : List Op} {s : CommandController}
    (h : ops.foldlM apply new = some s) :
    (∀ name cmd, s.userCommands name = some cmd ↔
        ∃ before after, s.items.items = before ++ cmd :: after ∧ cmd.name = name ∧
          ∀ cmd' ∈ before, cmd'.name ≠ name) ∧
      IsGreatest ({0} ∪ {n | ∃ cmd ∈ s.items.items, cmd.name.count ' ' = n}) s.maxSpaces := by
  have hrun : Run (fun s op s' => apply s op = some s') new ops s := Run.of_foldlM (fun _ _ _ h => h) h
  have hstep (s : CommandController) (op : Op) (s' : CommandController) (hs : Exact s)
      (happly : apply s op = some s') : Exact s' := exact_of_apply hs happly
  have hexact : Exact s := Run.invariant hstep exact_new hrun
  constructor
  · intro name cmd
    rw [hexact.userCommands, List.find?_eq_some_iff_append]
    constructor
    · rintro ⟨hname, before, after, hitems, hbefore⟩
      refine ⟨before, after, hitems, of_decide_eq_true hname, fun cmd' hcmd' => ?_⟩
      simpa [hasName] using hbefore cmd' hcmd'
    · rintro ⟨before, after, hitems, hname, hbefore⟩
      refine ⟨decide_eq_true hname, before, after, hitems, fun cmd' hcmd' => ?_⟩
      simpa [hasName] using hbefore cmd' hcmd'
  · rw [hexact.maxSpaces]
    exact isGreatest_maxSpacesLoop s.items.items 0

/-- Two commands of one name, and one with a space. The first two go. -/
theorem userCommands_exact_duplicate :
    let first : Command := ⟨"/a".toList, "1".toList, false⟩
    let second : Command := ⟨"/a".toList, "2".toList, false⟩
    ∃ s, [.insert first none, .insert second none, .insert ⟨"/a b".toList, [], false⟩ none,
        .removeAt 2, .removeAt 0].foldlM apply new = some s ∧
      s.userCommands "/a".toList = some second ∧ s.maxSpaces = 0 := by
  intro first second
  have hrun : ∃ s, [.insert first none, .insert second none, .insert ⟨"/a b".toList, [], false⟩ none,
      .removeAt 2, .removeAt 0].foldlM apply new = some s ∧ s.items.items = [second] := ⟨_, rfl, rfl⟩
  obtain ⟨s, hrun, hitems⟩ := hrun
  obtain ⟨hmap, ⟨hmem, -⟩⟩ := userCommands_exact hrun
  refine ⟨s, hrun, (hmap _ _).mpr ⟨[], [], hitems, rfl, fun _ h => nomatch h⟩, ?_⟩
  rcases hmem with h | ⟨cmd, hcmd, hcount⟩
  · exact h
  · rw [hitems] at hcmd
    obtain rfl := List.mem_singleton.mp hcmd
    exact hcount.symm

end CommandController

end Dankerino
