import Dankerino.Hotkeys.HotkeyTable
import Dankerino.Infra.Run

/-!
# Runs of the hotkey table

The vector of the controller sorts by category, whatever is inserted. The table is created on a
vector with any history, and follows it from there.
-/

namespace Dankerino

open Infra SignalVectorModel

namespace HotkeyModel

/-! ## The vector -/

/-- `hotkeys_` of a new `HotkeyController`. -/
def newHotkeys : SignalVector Hotkey := { items := [], itemCompare := some hotkeySortCompare }

/-- What can be done to the vector. -/
inductive Op
  | insert (item : Hotkey) (index : Option Nat) (caller : Nat)
  | removeAt (index caller : Nat)

/-- An operation while no table is there. -/
def applyVector (v : SignalVector Hotkey) : Op → Option (SignalVector Hotkey)
  | .insert item index _ => (v.insert item index).map Prod.fst
  | .removeAt index _ => (v.removeAt index).map Prod.fst

def VectorStep (v : SignalVector Hotkey) (op : Op) (v' : SignalVector Hotkey) : Prop :=
  applyVector v op = some v'

theorem le_of_compare {x y : Hotkey} (h : hotkeySortCompare x y = true) : x.category ≤ y.category := by
  unfold hotkeySortCompare at h
  by_cases heq : x.category = y.category
  · exact le_of_eq heq
  · rw [if_neg heq] at h
    exact le_of_lt (of_decide_eq_true h)

theorem le_of_not_compare {x y : Hotkey} (h : ¬ hotkeySortCompare x y = true) :
    y.category ≤ x.category := by
  unfold hotkeySortCompare at h
  by_cases heq : x.category = y.category
  · exact le_of_eq heq.symm
  · rw [if_neg heq, decide_eq_true_iff] at h
    exact not_lt.mp h

theorem lowerBound_cut {x : Hotkey} {items : List Hotkey} (h : Sorted items) :
    ∃ a b, items = a ++ b ∧ SignalVector.lowerBound hotkeySortCompare items x = a.length ∧
      (∀ y ∈ a, y.category ≤ x.category) ∧ ∀ y ∈ b, x.category ≤ y.category := by
  induction h with
  | nil => exact ⟨[], [], rfl, rfl, by simp, by simp⟩
  | @cons y items hy _ ih =>
    by_cases hless : hotkeySortCompare y x = true
    · obtain ⟨a, b, rfl, hindex, ha, hb⟩ := ih
      refine ⟨y :: a, b, rfl, ?_, ?_, hb⟩
      · unfold SignalVector.lowerBound at hindex ⊢
        rw [List.takeWhile_cons_of_pos (p := fun z => hotkeySortCompare z x) hless, List.length_cons,
          hindex, List.length_cons]
      · rintro z (_ | ⟨_, hz⟩)
        · exact le_of_compare hless
        · exact ha z hz
    · refine ⟨[], y :: items, rfl, ?_, by simp, ?_⟩
      · unfold SignalVector.lowerBound
        rw [List.takeWhile_cons_of_neg (p := fun z => hotkeySortCompare z x) hless]
      · have hxy := le_of_not_compare hless
        rintro z (_ | ⟨_, hz⟩)
        · exact hxy
        · exact hxy.trans (hy z hz)

/-- The vector is sorted. -/
structure Kept (v : SignalVector Hotkey) : Prop where
  compare : v.itemCompare = some hotkeySortCompare
  sorted : Sorted v.items

theorem Kept.insert {v : SignalVector Hotkey} (hv : Kept v) (x : Hotkey) (index : Option Nat) :
    ∃ a b, v.items = a ++ b ∧ (∀ y ∈ a, y.category ≤ x.category) ∧
      (∀ y ∈ b, x.category ≤ y.category) ∧
      v.insert x index = some ({ v with items := a ++ x :: b }, a.length) := by
  obtain ⟨a, b, hitems, hindex, ha, hb⟩ := lowerBound_cut (x := x) hv.sorted
  refine ⟨a, b, hitems, ha, hb, ?_⟩
  unfold SignalVector.insert
  rw [hitems] at hindex
  simp only [hv.compare, hitems, hindex, insertIdx_length_append]

theorem sorted_insert {x : Hotkey} {a b : List Hotkey} (h : Sorted (a ++ b))
    (ha : ∀ y ∈ a, y.category ≤ x.category) (hb : ∀ y ∈ b, x.category ≤ y.category) :
    Sorted (a ++ x :: b) := by
  obtain ⟨hsa, hsb, hab⟩ := List.pairwise_append.mp h
  refine List.pairwise_append.mpr ⟨hsa, List.pairwise_cons.mpr ⟨hb, hsb⟩, ?_⟩
  rintro y hy z (_ | ⟨_, hz⟩)
  · exact ha y hy
  · exact hab y hy z hz

theorem Sorted.erase {x : Hotkey} {a b : List Hotkey} (h : Sorted (a ++ x :: b)) : Sorted (a ++ b) :=
  h.sublist ((List.sublist_cons_self x b).append_left a)

theorem kept_newHotkeys : Kept newHotkeys := ⟨rfl, List.Pairwise.nil⟩

theorem VectorStep.kept {v v' : SignalVector Hotkey} {op : Op} (hv : Kept v)
    (h : VectorStep v op v') : Kept v' := by
  cases op with
  | insert x index caller =>
    obtain ⟨a, b, hitems, ha, hb, hinsert⟩ := hv.insert x index
    unfold VectorStep applyVector at h
    simp only [hinsert] at h
    obtain rfl := Option.some.inj h
    exact ⟨hv.compare, sorted_insert (hitems ▸ hv.sorted) ha hb⟩
  | removeAt index caller =>
    obtain ⟨r, hr, rfl⟩ := Option.map_eq_some_iff.mp h
    obtain ⟨a, x, b, hitems, rfl⟩ := SignalVector.eq_of_removeAt hr
    exact ⟨hv.compare, Sorted.erase (hitems ▸ hv.sorted)⟩

/-! ## The table -/

abbrev Shown := ShownVector Hotkey HotkeyCell Counts

variable (actionNames : HotkeyCategory → List QString)

/-- `HotkeyController::createModel`. -/
def createModel (v : SignalVector Hotkey) : Option Shown :=
  ShownVector.initialized (subclass actionNames) v (fun _ => none) 2 []

/-- An operation while the table is there. -/
def apply (s : Shown) : Op → Option Shown
  | .insert item index caller => s.insert (subclass actionNames) item index (.other caller)
  | .removeAt index caller => s.removeAt (subclass actionNames) index (.other caller)

def Step (s : Shown) (op : Op) (s' : Shown) : Prop := apply actionNames s op = some s'

/-- The rows are the sections of the hotkeys that the vector has. -/
def Grouped (s : Shown) : Prop := s.model.rows = table actionNames s.vector.items

/-- The hotkey joins its category, or its category is the last one. -/
def Fits (s : Shown) : Op → Prop
  | .insert item _ _ =>
    (∃ y ∈ s.vector.items, y.category = item.category) ∨
      ∀ y ∈ s.vector.items, y.category < item.category
  | .removeAt _ _ => True

/-- An index to remove at is one of the vector. -/
def InRange (s : Shown) : Op → Prop
  | .insert _ _ _ => True
  | .removeAt index _ => index < s.vector.items.length

/-- What holds whatever the rows look like. -/
structure Inv (s : Shown) : Prop where
  kept : Kept s.vector
  counted : Counted s.model.members s.vector.items

section Steps

variable {s s' : Shown}

theorem Inv.insert (hs : Inv s) (x : Hotkey) (index : Option Nat) (caller : Nat) :
    ∃ a b, s.vector.items = a ++ b ∧ (∀ y ∈ a, y.category ≤ x.category) ∧
      (∀ y ∈ b, x.category ≤ y.category) ∧
      apply actionNames s (.insert x index caller)
        = (onItemInserted (subclass actionNames) s.model x a.length).map fun model =>
          { s with vector := { s.vector with items := a ++ x :: b }, model } := by
  obtain ⟨a, b, hitems, ha, hb, hinsert⟩ := hs.kept.insert x index
  refine ⟨a, b, hitems, ha, hb, ?_⟩
  unfold apply ShownVector.insert
  simp only [hinsert, Option.bind_eq_bind, Option.bind_some]
  rw [if_neg (by simp), Option.map_eq_bind]
  rfl

theorem Inv.removeAt {index : Nat} (hindex : index < s.vector.items.length) (caller : Nat) :
    ∃ a x b, s.vector.items = a ++ x :: b ∧
      apply actionNames s (.removeAt index caller)
        = (onItemRemoved (subclass actionNames) s.model x a.length).map fun model =>
          { s with vector := { s.vector with items := a ++ b }, model } := by
  obtain ⟨a, x, b, hitems, rfl, hremove⟩ := SignalVector.removeAt_cut hindex
  refine ⟨a, x, b, hitems, ?_⟩
  unfold apply ShownVector.removeAt
  simp only [hremove, Option.bind_eq_bind, Option.bind_some]
  rw [if_neg (by simp), Option.map_eq_bind]
  rfl

theorem inRange_of_step {op : Op} (h : Step actionNames s op s') : InRange s op := by
  cases op with
  | insert x index caller => trivial
  | removeAt index caller =>
    obtain ⟨r, hr, -⟩ := Option.bind_eq_some_iff.mp h
    exact SignalVector.lt_of_removeAt hr

/-- **One step** keeps the vector sorted and the counts right. -/
theorem Step.inv {op : Op} (h : Step actionNames s op s') (hs : Inv s) : Inv s' := by
  cases op with
  | insert x index caller =>
    obtain ⟨a, b, hitems, ha, hb, happly⟩ := hs.insert actionNames x index caller
    obtain ⟨m, hm, rfl⟩ := Option.map_eq_some_iff.mp (happly.symm.trans h)
    refine ⟨⟨hs.kept.compare, sorted_insert (hitems ▸ hs.kept.sorted) ha hb⟩, ?_⟩
    have hcounted := hs.counted
    rw [hitems] at hcounted
    simp only [onItemInserted_members actionNames hm]
    exact hcounted.insert
  | removeAt index caller =>
    obtain ⟨a, x, b, hitems, happly⟩ :=
      Inv.removeAt actionNames (inRange_of_step actionNames h) caller
    obtain ⟨m, hm, rfl⟩ := Option.map_eq_some_iff.mp (happly.symm.trans h)
    refine ⟨⟨hs.kept.compare, Sorted.erase (hitems ▸ hs.kept.sorted)⟩, ?_⟩
    have hcounted := hs.counted
    rw [hitems] at hcounted
    simp only [onItemRemoved_members actionNames (countP_mid hcounted) hm]
    exact hcounted.remove

/-- **One step** from a grouped table succeeds, and groups the table exactly if it fits. -/
theorem apply_grouped (hs : Inv s) (hg : Grouped actionNames s) {op : Op} (hop : InRange s op) :
    ∃ s', Step actionNames s op s' ∧ (Grouped actionNames s' ↔ Fits s op) := by
  cases op with
  | insert x index caller =>
    obtain ⟨a, b, hitems, ha, hb, happly⟩ := hs.insert actionNames x index caller
    have hm : Shows actionNames s.model (a ++ b) := ⟨hitems ▸ hg, hitems ▸ hs.counted⟩
    obtain ⟨hsa, hsb, -⟩ := List.pairwise_append.mp (hitems ▸ hs.kept.sorted : Sorted (a ++ b))
    unfold Step
    rw [happly]
    simp only [Fits, hitems]
    by_cases hfits : (∃ y ∈ a ++ b, y.category = x.category) ∨ b = []
    · obtain ⟨m, hm', hshows⟩ := insert_shows actionNames hsa hsb ha hb hm hfits
      refine ⟨_, congrArg _ hm', iff_of_true hshows.rows ?_⟩
      by_cases hsame : ∃ y ∈ a ++ b, y.category = x.category
      · exact .inl hsame
      · obtain rfl := hfits.resolve_left hsame
        rw [List.append_nil] at hsame ⊢
        exact .inr fun y hy => lt_of_le_of_ne (ha y hy) fun heq => hsame ⟨y, hy, heq⟩
    · obtain ⟨hsame, hne⟩ := not_or.mp hfits
      cases b with
      | nil => exact absurd rfl hne
      | cons y b =>
        have hnew : ∀ z ∈ a ++ y :: b, z.category ≠ x.category := fun z hz heq => hsame ⟨z, hz, heq⟩
        obtain ⟨m, hm', hrows⟩ := insert_not_shown actionNames hsb ha hb hm hnew
        refine ⟨_, congrArg _ hm', iff_of_false hrows ?_⟩
        rintro (hex | hall)
        · exact hsame hex
        · exact not_lt.mpr (hb y List.mem_cons_self)
            (hall y (List.mem_append_right _ List.mem_cons_self))
  | removeAt index caller =>
    obtain ⟨a, x, b, hitems, happly⟩ := Inv.removeAt actionNames hop caller
    have hm : Shows actionNames s.model (a ++ x :: b) := ⟨hitems ▸ hg, hitems ▸ hs.counted⟩
    obtain ⟨m, hm', hshows⟩ := remove_shows actionNames (hitems ▸ hs.kept.sorted) hm
    refine ⟨{ s with vector := { s.vector with items := a ++ b }, model := m }, ?_,
      iff_of_true hshows.rows trivial⟩
    unfold Step
    rw [happly, hm']
    rfl

end Steps

/-- The loop of `initialize` appends the hotkeys in their order. -/
theorem showItems_spec : ∀ (rest before : List Hotkey) {m : State},
    Sorted (before ++ rest) → Shows actionNames m before →
      ∃ m', ShownVector.showItems (subclass actionNames) m rest before.length = some m' ∧
        Shows actionNames m' (before ++ rest)
  | [], before, m, _, hm => ⟨m, rfl, by rwa [List.append_nil]⟩
  | x :: rest, before, m, hsorted, hm => by
    obtain ⟨hbefore, -, hcross⟩ := List.pairwise_append.mp hsorted
    have hm₀ : Shows actionNames m (before ++ []) := by rwa [List.append_nil]
    obtain ⟨m₁, hinserted, hm₁⟩ := insert_shows actionNames hbefore List.Pairwise.nil
      (fun y hy => hcross y hy x List.mem_cons_self) (by simp) hm₀ (.inr rfl)
    have hassoc : before ++ x :: rest = (before ++ [x]) ++ rest := by simp
    rw [hassoc] at hsorted ⊢
    obtain ⟨m', hshow, hm'⟩ := showItems_spec rest (before ++ [x]) hsorted hm₁
    refine ⟨m', ?_, hm'⟩
    rw [List.length_append, List.length_singleton] at hshow
    unfold ShownVector.showItems
    rw [hinserted]
    exact hshow

theorem createModel_grouped {v : SignalVector Hotkey} (hv : Kept v) :
    ∃ s, createModel actionNames v = some s ∧ Inv s ∧ Grouped actionNames s := by
  have hempty : Shows actionNames { rows := [], members := fun _ => none } [] :=
    ⟨rfl, fun _ => rfl⟩
  obtain ⟨m, hshow, hm⟩ := showItems_spec actionNames v.items [] hv.sorted hempty
  refine ⟨{ vector := v, model := m, columnCount := 2 }, ?_, ⟨hv, hm.counted⟩, hm.rows⟩
  unfold createModel ShownVector.initialized
  rw [show (0 : Nat) = ([] : List Hotkey).length from rfl, hshow]
  rfl

/-! ## Every run -/

/--
**Sections.** The table is created on a vector with any history and shows its sections. A run keeps
them exactly if each hotkey that is inserted joins its category or begins the last one. As long as
all do, no insertion and no removal fails.
-/
theorem run_grouped_iff {v : SignalVector Hotkey} {history : List Op}
    (hhistory : Run VectorStep newHotkeys history v) :
    ∃ s₀, createModel actionNames v = some s₀ ∧ Grouped actionNames s₀ ∧
      (∀ ops s, Run (fun s op s' => Step actionNames s op s' ∧ Grouped actionNames s') s₀ ops s ↔
        Run (fun s op s' => Step actionNames s op s' ∧ Fits s op) s₀ ops s) ∧
      ∀ ops s op, Run (fun s op s' => Step actionNames s op s' ∧ Fits s op) s₀ ops s →
        InRange s op → ∃ s', Step actionNames s op s' := by
  have hkept : ∀ v op v', Kept v → VectorStep v op v' → Kept v' :=
    fun v op v' hv hstep => VectorStep.kept hv hstep
  have hv : Kept v := hhistory.invariant hkept kept_newHotkeys
  obtain ⟨s₀, hcreate, hs₀, hg₀⟩ := createModel_grouped actionNames hv
  have hinv : ∀ s op s', Inv s → Step actionNames s op s' → Inv s' :=
    fun s op s' hs hstep => Step.inv actionNames hstep hs
  have hstep : ∀ s op s', Inv s → Grouped actionNames s → Step actionNames s op s' →
      (Grouped actionNames s' ↔ Fits s op) := by
    intro s op s' hs hg h
    obtain ⟨t, ht, hiff⟩ := apply_grouped actionNames hs hg (inRange_of_step actionNames h)
    obtain rfl := Option.some.inj (Eq.trans (Eq.symm h) ht)
    exact hiff
  refine ⟨s₀, hcreate, hg₀, fun ops s => Run.guarded_iff hinv hstep hs₀ hg₀, ?_⟩
  intro ops s op h hop
  have hkeep : ∀ s op s', Inv s ∧ Grouped actionNames s →
      Step actionNames s op s' ∧ Fits s op → Inv s' ∧ Grouped actionNames s' := by
    rintro s op s' ⟨hs, hg⟩ ⟨h1, hfits⟩
    exact ⟨hinv s op s' hs h1, (hstep s op s' hs hg h1).mpr hfits⟩
  obtain ⟨hs, hg⟩ := h.invariant hkeep ⟨hs₀, hg₀⟩
  obtain ⟨s', hs', -⟩ := apply_grouped actionNames hs hg hop
  exact ⟨s', hs'⟩

/-- A hotkey of the category, without an action. -/
def plainHotkey (category : HotkeyCategory) (name : String) : Hotkey :=
  { category, keySequence := [], action := [], arguments := [], name := name.toList }

/-- The vector already has a hotkey of the splits. -/
theorem run_grouped_iff_split : ∃ v s₀, createModel (fun _ => []) v = some s₀ ∧
    v.items = [plainHotkey .split "reply"] ∧
    (∀ ops s, Run (fun s op s' => Step (fun _ => []) s op s' ∧ Grouped (fun _ => []) s') s₀ ops s ↔
      Run (fun s op s' => Step (fun _ => []) s op s' ∧ Fits s op) s₀ ops s) ∧
    ∀ ops s op, Run (fun s op s' => Step (fun _ => []) s op s' ∧ Fits s op) s₀ ops s →
      InRange s op → ∃ s', Step (fun _ => []) s op s' := by
  let v : SignalVector Hotkey := { newHotkeys with items := [plainHotkey .split "reply"] }
  have hstep : VectorStep newHotkeys (.insert (plainHotkey .split "reply") none 0) v := rfl
  obtain ⟨s₀, hcreate, -, hrun, hdone⟩ := run_grouped_iff (fun _ => []) (Run.single hstep)
  exact ⟨v, s₀, hcreate, rfl, hrun, hdone⟩

/-- The header of the popup windows is put behind the header of the splits. -/
theorem header_behind_next_header : ∃ s₀ s, createModel (fun _ => []) newHotkeys = some s₀ ∧
    Run (Step fun _ => []) s₀
      [.insert (plainHotkey .split "reply") none 0, .insert (plainHotkey .popupWindow "close") none 0] s ∧
    s.vector.items = [plainHotkey .popupWindow "close", plainHotkey .split "reply"] ∧
    s.model.rows = [header .split, header .popupWindow,
      hotkeyRow (fun _ => []) (plainHotkey .popupWindow "close"),
      hotkeyRow (fun _ => []) (plainHotkey .split "reply")] ∧
    ¬ Grouped (fun _ => []) s := by
  refine ⟨_, _, rfl, .cons rfl (.cons rfl (.nil _)), rfl, rfl, ?_⟩
  intro hg
  have htexts := congrArg (List.map customRowValue) hg
  exact absurd htexts (by decide)

end HotkeyModel

end Dankerino
