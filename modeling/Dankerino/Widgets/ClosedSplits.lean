import Dankerino.Qt.QString
import Mathlib.Logic.Function.Iterate

/-!
# Closed splits

`ClosedSplits`, with the connections that keep it from holding a tab that is gone: each split that is
closed connects `invalidateTab` to the signal `destroyed` of its tab once more. A call clears one
entry, so it takes as many calls as the tab has entries.
-/

namespace Dankerino

/-- The address of a tab. -/
abbrev NotebookTab := Nat

structure SplitInfo (QUuid : Type) where
  channelName : QString
  filters : List QUuid
  tab : Option NotebookTab
deriving DecidableEq

namespace SplitInfo

variable {QUuid : Type}

/-- The entry without the tab. -/
def forget (tab : NotebookTab) (item : SplitInfo QUuid) : SplitInfo QUuid :=
  if item.tab = some tab then { item with tab := none } else item

theorem forget_of_eq {tab : NotebookTab} {item : SplitInfo QUuid} (h : item.tab = some tab) :
    forget tab item = { item with tab := none } :=
  if_pos h

theorem forget_of_ne {tab : NotebookTab} {item : SplitInfo QUuid} (h : item.tab ≠ some tab) :
    forget tab item = item :=
  if_neg h

end SplitInfo

structure ClosedSplits (QUuid : Type) where
  closedSplits_ : List (SplitInfo QUuid) := []
  /-- The tabs whose `destroyed` calls `invalidateTab`, once for each connection. -/
  connections : List NotebookTab := []
deriving DecidableEq

namespace ClosedSplits

variable {QUuid : Type}

/-- `invalidateTab`: the first entry of the tab. -/
def invalidateTab (tab : NotebookTab) : List (SplitInfo QUuid) → List (SplitInfo QUuid)
  | [] => []
  | item :: rest =>
    if item.tab = some tab then { item with tab := none } :: rest
    else item :: invalidateTab tab rest

/-- `Split::Action::Delete`, after `deleteSplit`. -/
def closeSplit (channelName : QString) (filters : List QUuid) (tab : NotebookTab)
    (s : ClosedSplits QUuid) : ClosedSplits QUuid :=
  { closedSplits_ := s.closedSplits_ ++ [⟨channelName, filters, some tab⟩]
    connections := s.connections ++ [tab] }

def pop (s : ClosedSplits QUuid) : Option (SplitInfo QUuid × ClosedSplits QUuid) :=
  match s.closedSplits_.getLast? with
  | none => none
  | some si => some (si, { s with closedSplits_ := s.closedSplits_.dropLast })

/-- The signal `destroyed` of the tab. -/
def tabDestroyed (tab : NotebookTab) (s : ClosedSplits QUuid) : ClosedSplits QUuid :=
  { closedSplits_ := (invalidateTab tab)^[s.connections.count tab] s.closedSplits_
    connections := s.connections.filter (· != tab) }

/-! ## Entries of a tab that is gone -/

/-- How many entries the tab has. -/
def entries (tab : NotebookTab) (l : List (SplitInfo QUuid)) : Nat := l.countP (·.tab = some tab)

theorem forget_of_entries {tab : NotebookTab} {l : List (SplitInfo QUuid)} (h : entries tab l = 0) :
    l.map (SplitInfo.forget tab) = l := by
  have hnone := List.countP_eq_zero.mp h
  refine (List.map_congr_left fun item hitem => ?_).trans (List.map_id l)
  exact SplitInfo.forget_of_ne (by simpa using hnone item hitem)

theorem entries_cons (tab : NotebookTab) (item : SplitInfo QUuid) (rest : List (SplitInfo QUuid)) :
    entries tab (item :: rest) = entries tab rest + if item.tab = some tab then 1 else 0 := by
  unfold entries
  rw [List.countP_cons]
  simp

theorem entries_invalidateTab (tab : NotebookTab) (l : List (SplitInfo QUuid)) :
    entries tab (invalidateTab tab l) = entries tab l - 1 := by
  induction l with
  | nil => rfl
  | cons item rest ih =>
    unfold invalidateTab
    rw [entries_cons]
    by_cases htab : item.tab = some tab
    · rw [if_pos htab, if_pos htab, entries_cons, if_neg (by simp)]
      omega
    · rw [if_neg htab, if_neg htab, entries_cons, if_neg htab, ih, Nat.add_zero]
      omega

theorem forget_invalidateTab (tab : NotebookTab) (l : List (SplitInfo QUuid)) :
    (invalidateTab tab l).map (SplitInfo.forget tab) = l.map (SplitInfo.forget tab) := by
  induction l with
  | nil => rfl
  | cons item rest ih =>
    unfold invalidateTab
    by_cases htab : item.tab = some tab
    · rw [if_pos htab, List.map_cons, List.map_cons, SplitInfo.forget_of_eq htab]
      rfl
    · rw [if_neg htab, List.map_cons, List.map_cons, ih]

/-- As many calls as there are entries clear all of them. -/
theorem invalidateTab_iterate {tab : NotebookTab} {n : Nat} {l : List (SplitInfo QUuid)}
    (h : entries tab l ≤ n) : (invalidateTab tab)^[n] l = l.map (SplitInfo.forget tab) := by
  induction n generalizing l with
  | zero => exact (forget_of_entries (Nat.le_zero.mp h)).symm
  | succ n ih =>
    have hentries := entries_invalidateTab tab l
    rw [Function.iterate_succ_apply, ih (by omega), forget_invalidateTab]

/-! ## The connections suffice -/

/-- Each tab has as many connections as entries. -/
def Connected (s : ClosedSplits QUuid) : Prop :=
  ∀ tab, entries tab s.closedSplits_ ≤ s.connections.count tab

theorem connected_empty : Connected ({} : ClosedSplits QUuid) := fun _ => Nat.le_refl 0

theorem Connected.closeSplit {s : ClosedSplits QUuid} (h : Connected s) (channelName : QString)
    (filters : List QUuid) (tab : NotebookTab) : Connected (s.closeSplit channelName filters tab) := by
  intro tab'
  have hold := h tab'
  unfold entries at hold
  unfold entries ClosedSplits.closeSplit
  rw [List.countP_append, List.count_append]
  by_cases htab : tab = tab'
  · subst htab
    simpa using hold
  · simpa [htab] using hold

theorem Connected.pop {s s' : ClosedSplits QUuid} {si : SplitInfo QUuid} (h : Connected s)
    (hpop : s.pop = some (si, s')) : Connected s' := by
  unfold ClosedSplits.pop at hpop
  split at hpop
  · exact nomatch hpop
  · obtain ⟨-, rfl⟩ := Prod.mk.inj (Option.some.inj hpop)
    intro tab
    exact Nat.le_trans (List.Sublist.countP_le (List.dropLast_sublist _)) (h tab)

theorem closedSplits_tabDestroyed {s : ClosedSplits QUuid} (h : Connected s) (tab : NotebookTab) :
    (s.tabDestroyed tab).closedSplits_ = s.closedSplits_.map (SplitInfo.forget tab) :=
  invalidateTab_iterate (h tab)

theorem entries_forget {tab tab' : NotebookTab} (l : List (SplitInfo QUuid)) :
    entries tab' (l.map (SplitInfo.forget tab)) = if tab' = tab then 0 else entries tab' l := by
  induction l with
  | nil =>
    split <;> rfl
  | cons item rest ih =>
    rw [List.map_cons, entries_cons, entries_cons, ih]
    by_cases htab : item.tab = some tab
    · rw [SplitInfo.forget_of_eq htab, htab]
      by_cases heq : tab' = tab
      · simp [heq]
      · simp [heq, Ne.symm heq]
    · rw [SplitInfo.forget_of_ne htab]
      by_cases heq : tab' = tab
      · simp [heq, htab]
      · simp [heq]

theorem Connected.tabDestroyed {s : ClosedSplits QUuid} (h : Connected s) (tab : NotebookTab) :
    Connected (s.tabDestroyed tab) := by
  intro tab'
  rw [closedSplits_tabDestroyed h, entries_forget]
  unfold ClosedSplits.tabDestroyed
  by_cases htab : tab' = tab
  · rw [if_pos htab]
    exact Nat.zero_le _
  · rw [if_neg htab, List.count_filter (by simpa using htab)]
    exact h tab'

end ClosedSplits

end Dankerino
