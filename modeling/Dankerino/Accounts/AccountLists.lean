import Dankerino.Accounts.AccountController
import Dankerino.Infra.Run
import Mathlib.Data.List.Nodup
import Mathlib.Data.List.Perm.Basic

/-!
# The account lists agree

Both lists have the same accounts as long as accounts are removed through `accounts_` only. A
removal through the manager looks for the account where it no longer is: unless the list had the
account twice, the search fails.
-/

namespace Dankerino

open Infra

namespace AccountController

/-- Both lists have the same accounts, each as often, and both are sorted. -/
structure Inv (s : AccountController) : Prop where
  twitchSorted : s.twitchAccounts.itemCompare = some TwitchAccount.less
  accountsSorted : s.accounts.itemCompare = some Account.less
  perm : s.accounts.items.Perm (s.twitchAccounts.items.map TwitchAccount.toAccount)

theorem inv_new : Inv new := ⟨rfl, rfl, .nil⟩

theorem toAccount_injective : Function.Injective TwitchAccount.toAccount := by
  rintro ⟨_, _⟩ ⟨_, _⟩ h
  cases h
  rfl

/-- A list that has the account has it where `std::find` says. -/
theorem find_cut {accs : List TwitchAccount} {account : TwitchAccount} (h : account ∈ accs) :
    ∃ l r, accs = l ++ account :: r ∧ find accs account.toAccount = some l.length := by
  obtain ⟨n, hn⟩ : ∃ n, find accs account.toAccount = some n :=
    ⟨_, List.findIdx?_eq_some_of_exists ⟨account, h, decide_eq_true rfl⟩⟩
  obtain ⟨hlt, hat, -⟩ := List.findIdx?_eq_some_iff_getElem.mp hn
  refine ⟨accs.take n, accs.drop (n + 1), ?_, ?_⟩
  · rw [← toAccount_injective (of_decide_eq_true hat), List.getElem_cons_drop, List.take_append_drop]
  · rw [List.length_take_of_le (Nat.le_of_lt hlt)]
    exact hn

theorem find_eq_none {accs : List TwitchAccount} {account : TwitchAccount} (h : account ∉ accs) :
    find accs account.toAccount = none := by
  unfold find
  rw [List.findIdx?_eq_none_iff]
  intro x hx
  rw [decide_eq_false_iff_not]
  intro heq
  exact h (toAccount_injective heq ▸ hx)

theorem insertTwitch_spec {s : AccountController} (hs : Inv s) (account : TwitchAccount)
    (index : Option Nat) :
    ∃ s', s.insertTwitch account index = some s' ∧ Inv s' ∧
      s'.twitchAccounts.items.Perm (account :: s.twitchAccounts.items) := by
  obtain ⟨i, hi, hinsert⟩ := SignalVector.insert_of_compare hs.twitchSorted account index
  obtain ⟨j, hj, hinsert'⟩ := SignalVector.insert_of_compare hs.accountsSorted account.toAccount none
  refine ⟨{
    twitchAccounts := { s.twitchAccounts with items := s.twitchAccounts.items.insertIdx i account }
    accounts := { s.accounts with items := s.accounts.items.insertIdx j account.toAccount } }, ?_,
    ⟨hs.twitchSorted, hs.accountsSorted, ?_⟩, List.perm_insertIdx _ _ hi⟩
  · unfold insertTwitch
    rw [hinsert, hinsert']
    rfl
  · simp only []
    rw [List.map_insertIdx]
    exact List.Perm.insertIdx_of_le hj (by rwa [List.length_map]) _ hs.perm

theorem removeAccountAt_spec {s : AccountController} (hs : Inv s) {index : Nat}
    (hindex : index < s.accounts.items.length) (id : Nat) :
    ∃ s', s.removeAccountAt index (.other id) = some s' ∧ Inv s' ∧
      s'.twitchAccounts.items.Sublist s.twitchAccounts.items := by
  obtain ⟨a, x, b, hitems, -, hremove⟩ := SignalVector.removeAt_cut hindex
  have hmem : x ∈ s.twitchAccounts.items.map TwitchAccount.toAccount :=
    hs.perm.mem_iff.mp (by simp [hitems])
  obtain ⟨account, haccount, rfl⟩ := List.mem_map.mp hmem
  obtain ⟨l, r, hsplit, hfind⟩ := find_cut haccount
  have hlt : l.length < s.twitchAccounts.items.length := by
    rw [hsplit, List.length_append, List.length_cons]
    omega
  obtain ⟨l', y, r', hsplit', hlen, hremove'⟩ := SignalVector.removeAt_cut hlt
  obtain ⟨rfl, htail⟩ := List.append_inj (hsplit.symm.trans hsplit') hlen
  obtain ⟨rfl, rfl⟩ := List.cons.inj htail
  refine ⟨{
    twitchAccounts := { s.twitchAccounts with items := l ++ r }
    accounts := { s.accounts with items := a ++ b } }, ?_,
    ⟨hs.twitchSorted, hs.accountsSorted, ?_⟩, ?_⟩
  · unfold removeAccountAt
    rw [hremove]
    show onAccountRemoved _ account.toAccount (.other id) = _
    unfold onAccountRemoved
    simp only [TwitchAccount.toAccount] at hfind ⊢
    rw [if_neg (by simp), hfind]
    simp only [hremove', Option.bind_eq_bind, Option.bind_some]
    rfl
  · have hperm := hs.perm
    rw [hitems, hsplit, List.map_append, List.map_cons] at hperm
    simp only []
    rw [List.map_append]
    exact (List.perm_middle.symm.trans (hperm.trans List.perm_middle)).cons_inv
  · rw [hsplit]
    exact (List.sublist_cons_self account r).append_left l

/-- A removal through the manager of an account that is there once fails. -/
theorem removeTwitchAt_eq_none {s : AccountController} (hs : s.twitchAccounts.items.Nodup)
    (index id : Nat) : s.removeTwitchAt index (.other id) = none := by
  unfold removeTwitchAt
  by_cases hindex : index < s.twitchAccounts.items.length
  · obtain ⟨a, x, b, hitems, -, hremove⟩ := SignalVector.removeAt_cut hindex
    rw [hitems] at hs
    have hnew : x ∉ a ++ b := (List.nodup_middle.mp hs).notMem
    rw [hremove]
    show onTwitchRemoved _ x.toAccount (.other id) = none
    unfold onTwitchRemoved
    rw [if_neg (by simp)]
    simp only [find_eq_none hnew]
  · unfold SignalVector.removeAt
    rw [List.getElem?_eq_none (Nat.le_of_not_lt hindex)]
    rfl

/-! ## Runs -/

/-- What can be done to the lists from outside. -/
inductive Op
  | insert (account : TwitchAccount) (index : Option Nat)
  | removeTwitch (index caller : Nat)
  | removeAccount (index caller : Nat)

def apply (s : AccountController) : Op → Option AccountController
  | .insert account index => s.insertTwitch account index
  | .removeTwitch index caller => s.removeTwitchAt index (.other caller)
  | .removeAccount index caller => s.removeAccountAt index (.other caller)

/-- The index is one of the list. -/
def InRange (s : AccountController) : Op → Prop
  | .insert _ _ => True
  | .removeTwitch index _ => index < s.twitchAccounts.items.length
  | .removeAccount index _ => index < s.accounts.items.length

/-- An account that is inserted is not there yet. -/
def Fresh (s : AccountController) : Op → Prop
  | .insert account _ => account ∉ s.twitchAccounts.items
  | .removeTwitch _ _ => True
  | .removeAccount _ _ => True

/-- The operation removes an account through the manager. -/
def Op.Direct : Op → Prop
  | .insert _ _ => False
  | .removeTwitch _ _ => True
  | .removeAccount _ _ => False

/-- A step. After a failed assertion (`none`) there is none. -/
def Step (o : Option AccountController) (op : Op) (o' : Option AccountController) : Prop :=
  ∃ s, o = some s ∧ InRange s op ∧ apply s op = o'

def FreshStep (o : Option AccountController) (op : Op) (o' : Option AccountController) : Prop :=
  ∃ s, o = some s ∧ InRange s op ∧ Fresh s op ∧ apply s op = o'

/-- No assertion failed, and the lists have the same Twitch accounts. -/
def Agree : Option AccountController → Prop
  | none => False
  | some s => ∀ account : Account, account.providerId = .twitch →
    (account ∈ s.accounts.items ↔ ∃ t ∈ s.twitchAccounts.items, t.toAccount = account)

theorem Inv.agree {s : AccountController} (hs : Inv s) : Agree (some s) := by
  intro account _
  rw [hs.perm.mem_iff, List.mem_map]

theorem apply_spec {s : AccountController} (hs : Inv s) {op : Op} (hop : InRange s op)
    (hdirect : ¬ op.Direct) : ∃ s', apply s op = some s' ∧ Inv s' := by
  cases op with
  | insert account index =>
    obtain ⟨s', hs', hinv, -⟩ := insertTwitch_spec hs account index
    exact ⟨s', hs', hinv⟩
  | removeTwitch index caller => exact absurd trivial hdirect
  | removeAccount index caller =>
    obtain ⟨s', hs', hinv, -⟩ := removeAccountAt_spec hs hop caller
    exact ⟨s', hs', hinv⟩

/-- The invariant of a state that is not failed, while every account is inserted once. -/
def Once (o : Option AccountController) : Prop :=
  ∀ s, o = some s → Inv s ∧ s.twitchAccounts.items.Nodup

theorem FreshStep.once {o o' : Option AccountController} {op : Op} (h : FreshStep o op o')
    (ho : Once o) : Once o' := by
  obtain ⟨s, rfl, hop, hfresh, rfl⟩ := h
  obtain ⟨hs, hnodup⟩ := ho s rfl
  intro s₁ hs₁
  cases op with
  | insert account index =>
    obtain ⟨s', hs', hinv, hperm⟩ := insertTwitch_spec hs account index
    obtain rfl := Option.some.inj (hs₁.symm.trans hs')
    exact ⟨hinv, hperm.nodup_iff.mpr (List.nodup_cons.mpr ⟨hfresh, hnodup⟩)⟩
  | removeTwitch index caller =>
    have hnone : apply s (.removeTwitch index caller) = none := removeTwitchAt_eq_none hnodup index caller
    rw [hnone] at hs₁
    exact nomatch hs₁
  | removeAccount index caller =>
    obtain ⟨s', hs', hinv, hsub⟩ := removeAccountAt_spec hs hop caller
    obtain rfl := Option.some.inj (hs₁.symm.trans hs')
    exact ⟨hinv, hnodup.sublist hsub⟩

theorem FreshStep.agree_iff {o o' : Option AccountController} {op : Op} (h : FreshStep o op o')
    (ho : Once o) : Agree o' ↔ ¬ op.Direct := by
  obtain ⟨s, rfl, hop, -, rfl⟩ := h
  obtain ⟨hs, hnodup⟩ := ho s rfl
  by_cases hdirect : op.Direct
  · refine iff_of_false ?_ (not_not.mpr hdirect)
    cases op with
    | removeTwitch index caller =>
      have hnone : apply s (.removeTwitch index caller) = none :=
        removeTwitchAt_eq_none hnodup index caller
      rw [hnone]
      exact id
    | insert account index => exact hdirect.elim
    | removeAccount index caller => exact hdirect.elim
  · obtain ⟨s', hs', hinv⟩ := apply_spec hs hop hdirect
    rw [hs']
    exact iff_of_true hinv.agree hdirect

/--
**The lists agree** in every state of a run that removes no account through the manager, however
often an account is inserted. Where every account is inserted once, only these runs keep them so:
the first removal through the manager fails.
-/
theorem run_agree_iff (ops : List Op) (o : Option AccountController) :
    (Run (fun o op o' => Step o op o' ∧ ¬ op.Direct) (some new) ops o → Agree o) ∧
      (Run (fun o op o' => FreshStep o op o' ∧ Agree o') (some new) ops o ↔
        Run (fun o op o' => FreshStep o op o' ∧ ¬ op.Direct) (some new) ops o) := by
  constructor
  · intro h
    have hkeep : ∀ o op o', (∃ s, o = some s ∧ Inv s) → Step o op o' ∧ ¬ op.Direct →
        ∃ s, o' = some s ∧ Inv s := by
      rintro o op o' ⟨s, rfl, hs⟩ ⟨⟨t, ht, hop, rfl⟩, hdirect⟩
      obtain rfl := Option.some.inj ht
      exact apply_spec hs hop hdirect
    obtain ⟨s, rfl, hs⟩ := h.invariant hkeep ⟨new, rfl, inv_new⟩
    exact hs.agree
  · have honce : Once (some new) := by
      intro s hs
      obtain rfl := Option.some.inj hs
      exact ⟨inv_new, List.nodup_nil⟩
    have hinv : ∀ o op o', Once o → FreshStep o op o' → Once o' := fun _ _ _ ho h => h.once ho
    have hstep : ∀ o op o', Once o → Agree o → FreshStep o op o' → (Agree o' ↔ ¬ op.Direct) :=
      fun _ _ _ ho _ h => h.agree_iff ho
    exact Run.guarded_iff hinv hstep honce inv_new.agree

/-- An account is inserted and removed through `accounts_`. -/
theorem run_agree_iff_removed : ∃ o,
    Run (fun o op o' => Step o op o' ∧ ¬ op.Direct) (some new)
      [.insert ⟨1, "a".toList⟩ none, .removeAccount 0 0] o ∧ Agree o := by
  have hrun : Run (fun o op o' => Step o op o' ∧ ¬ op.Direct) (some new)
      [.insert ⟨1, "a".toList⟩ none, .removeAccount 0 0] (some new) :=
    .cons ⟨⟨_, rfl, trivial, rfl⟩, id⟩ (.cons ⟨⟨_, rfl, Nat.zero_lt_one, rfl⟩, id⟩ (.nil _))
  exact ⟨some new, hrun, (run_agree_iff _ _).1 hrun⟩

/-- Two accounts are inserted, and one of them is removed through the manager. -/
theorem removed_through_manager : ∃ s,
    Run Step (some new) [.insert ⟨1, "a".toList⟩ none, .insert ⟨2, "b".toList⟩ none] (some s) ∧
      s.twitchAccounts.items = [⟨1, "a".toList⟩, ⟨2, "b".toList⟩] ∧
      Step (some s) (.removeTwitch 0 0) none ∧ ¬ Agree none := by
  refine ⟨_, .cons ⟨_, rfl, trivial, rfl⟩ (.cons ⟨_, rfl, trivial, rfl⟩ (.nil _)), rfl, ?_, id⟩
  exact ⟨_, rfl, Nat.zero_lt_two, rfl⟩

end AccountController

end Dankerino
