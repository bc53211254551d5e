import Mathlib.Data.List.Nodup
import Mathlib.Data.List.Perm.Basic
import Mathlib.Order.Lattice

/-!
# Maps as lists in the order of their keys

What a map holds is said up to `List.Perm`: a new entry is put in front, and an entry that is there
can be pulled to the front. Sums and unions over the values follow from that.
-/

namespace Infra

universe u v

/-- The entries of a map, in the order of the keys. -/
abbrev OrderedMap (κ : Type u) (α : Type v) := List (κ × α)

namespace OrderedMap

variable {κ : Type u} {α : Type v} [DecidableEq κ]

def keys (m : OrderedMap κ α) : List κ := m.map Prod.fst

def find (m : OrderedMap κ α) (k : κ) : Option α := m.lookup k

def erase (m : OrderedMap κ α) (k : κ) : OrderedMap κ α := m.filter (fun p => p.1 != k)

/-- Writes a value to an entry that is there. -/
def update (m : OrderedMap κ α) (k : κ) (v : α) : OrderedMap κ α :=
  m.map (fun p => if p.1 = k then (p.1, v) else p)

/-- Adds an entry unless the key is there. -/
def emplace [LT κ] [DecidableLT κ] (k : κ) (v : α) : OrderedMap κ α → OrderedMap κ α
  | [] => [(k, v)]
  | (h, w) :: rest =>
    if k < h then (k, v) :: (h, w) :: rest
    else if k = h then (h, w) :: rest
    else (h, w) :: emplace k v rest

omit [DecidableEq κ] in
theorem mem_keys_of_mem {m : OrderedMap κ α} {p : κ × α} (h : p ∈ m) : p.1 ∈ m.keys :=
  List.mem_map_of_mem h

theorem emplace_perm [LT κ] [DecidableLT κ] {k : κ} (v : α) {m : OrderedMap κ α} (h : k ∉ m.keys) :
    (m.emplace k v).Perm ((k, v) :: m) := by
  induction m with
  | nil => exact List.Perm.refl _
  | cons p rest ih =>
    obtain ⟨h', w⟩ := p
    have hk : k ≠ h' ∧ k ∉ keys rest := by simpa [keys] using h
    unfold emplace
    by_cases hlt : k < h'
    · rw [if_pos hlt]
    · rw [if_neg hlt, if_neg hk.1]
      exact (List.Perm.cons _ (ih hk.2)).trans (List.Perm.swap _ _ _)

theorem erase_of_not_mem {m : OrderedMap κ α} {k : κ} (h : k ∉ m.keys) : m.erase k = m := by
  refine List.filter_eq_self.mpr fun p hp => ?_
  have hne : p.1 ≠ k := fun he => h (he ▸ mem_keys_of_mem hp)
  simpa using hne

theorem update_of_not_mem {m : OrderedMap κ α} {k : κ} (v : α) (h : k ∉ m.keys) :
    m.update k v = m := by
  refine (List.map_congr_left fun p hp => ?_).trans (List.map_id _)
  have hne : p.1 ≠ k := fun he => h (he ▸ mem_keys_of_mem hp)
  rw [if_neg hne, id]

/-- The entry of a key pulled to the front. -/
theorem perm_erase {m : OrderedMap κ α} (hnd : m.keys.Nodup) {k : κ} {v : α}
    (h : m.find k = some v) : m.Perm ((k, v) :: m.erase k) := by
  induction m with
  | nil => exact nomatch h
  | cons p rest ih =>
    obtain ⟨h', w⟩ := p
    rw [keys, List.map_cons, List.nodup_cons] at hnd
    unfold find at h
    by_cases hk : k = h'
    · subst hk
      rw [List.lookup_cons_self] at h
      cases h
      have her : erase ((k, v) :: rest) k = rest := by
        rw [erase, List.filter_cons_of_neg (by simp)]
        exact erase_of_not_mem hnd.1
      rw [her]
    · rw [List.lookup_cons, beq_eq_false_iff_ne.mpr hk] at h
      have her : erase ((h', w) :: rest) k = (h', w) :: erase rest k := by
        rw [erase, List.filter_cons_of_pos (by simpa using Ne.symm hk)]
        rfl
      rw [her]
      exact (List.Perm.cons _ (ih hnd.2 h)).trans (List.Perm.swap _ _ _)

theorem update_perm {m m' : OrderedMap κ α} (h : m.Perm m') (k : κ) (v : α) :
    (m.update k v).Perm (m'.update k v) :=
  h.map _

/-- A new entry that is written to right away. -/
theorem update_emplace_perm [LT κ] [DecidableLT κ] {k : κ} (v w : α) {m : OrderedMap κ α}
    (h : k ∉ m.keys) : ((m.emplace k v).update k w).Perm ((k, w) :: m) := by
  refine (update_perm (emplace_perm v h) k w).trans ?_
  show ((if k = k then (k, w) else (k, v)) :: m.update k w).Perm _
  rw [if_pos rfl, update_of_not_mem w h]

@[simp] theorem update_keys (m : OrderedMap κ α) (k : κ) (v : α) : (m.update k v).keys = m.keys := by
  simp only [keys, update, List.map_map]
  refine List.map_congr_left fun p _ => ?_
  simp only [Function.comp]
  split <;> rfl

theorem erase_keys (m : OrderedMap κ α) (k : κ) : (m.erase k).keys.Sublist m.keys :=
  List.filter_sublist.map _

theorem emplace_keys [LT κ] [DecidableLT κ] {k : κ} (v : α) {m : OrderedMap κ α} (h : k ∉ m.keys) :
    (m.emplace k v).keys.Perm (k :: m.keys) :=
  (emplace_perm v h).map Prod.fst

/-! ## Finding -/

/-- Writes a value, whether the key is there or not. -/
def insert [LT κ] [DecidableLT κ] (k : κ) (v : α) : OrderedMap κ α → OrderedMap κ α
  | [] => [(k, v)]
  | (h, w) :: rest =>
    if k < h then (k, v) :: (h, w) :: rest
    else if k = h then (k, v) :: rest
    else (h, w) :: insert k v rest

@[simp]
theorem find_nil (k : κ) : find ([] : OrderedMap κ α) k = none := rfl

theorem find_cons (h : κ) (w : α) (m : OrderedMap κ α) (k : κ) :
    find ((h, w) :: m) k = if k = h then some w else m.find k := by
  unfold find
  rw [List.lookup_cons]
  by_cases hk : k = h
  · simp [hk]
  · rw [if_neg hk, beq_eq_false_iff_ne.mpr hk]

theorem find_insert [LT κ] [DecidableLT κ] (k : κ) (v : α) (m : OrderedMap κ α) (k' : κ) :
    (m.insert k v).find k' = if k' = k then some v else m.find k' := by
  induction m with
  | nil => rw [insert, find_cons]
  | cons p rest ih =>
    obtain ⟨h, w⟩ := p
    rw [insert]
    by_cases hlt : k < h
    · rw [if_pos hlt, find_cons]
    · by_cases heq : k = h
      · subst heq
        rw [if_neg hlt, if_pos rfl, find_cons, find_cons]
        split_ifs <;> rfl
      · rw [if_neg hlt, if_neg heq, find_cons, find_cons, ih]
        by_cases hk : k' = h
        · subst hk
          rw [if_pos rfl, if_neg (Ne.symm heq), if_pos rfl]
        · rw [if_neg hk, if_neg hk]

theorem mem_of_mem_insert [LT κ] [DecidableLT κ] {k : κ} {v : α} {m : OrderedMap κ α} {p : κ × α}
    (h : p ∈ m.insert k v) : p = (k, v) ∨ p ∈ m := by
  induction m with
  | nil => exact .inl (List.mem_singleton.mp h)
  | cons q rest ih =>
    obtain ⟨h', w⟩ := q
    rw [insert] at h
    split_ifs at h with hlt heq
    · exact List.mem_cons.mp h
    · rcases List.mem_cons.mp h with hp | hp
      · exact .inl hp
      · exact .inr (List.mem_cons_of_mem _ hp)
    · rcases List.mem_cons.mp h with rfl | hp
      · exact .inr List.mem_cons_self
      · exact (ih hp).imp_right (List.mem_cons_of_mem _)

theorem mem_of_find {m : OrderedMap κ α} {k : κ} {v : α} (h : m.find k = some v) : (k, v) ∈ m := by
  obtain ⟨l₁, l₂, rfl, -⟩ := List.lookup_eq_some_iff.mp h
  exact List.mem_append_right _ List.mem_cons_self

theorem find_erase (m : OrderedMap κ α) (k k' : κ) :
    (m.erase k).find k' = if k' = k then none else m.find k' := by
  induction m with
  | nil => simp [erase]
  | cons p rest ih =>
    obtain ⟨h, w⟩ := p
    have hcons : erase ((h, w) :: rest) k = if h = k then erase rest k else (h, w) :: erase rest k := by
      unfold erase
      rw [List.filter_cons]
      by_cases hk : h = k <;> simp [hk]
    rw [hcons, find_cons]
    by_cases hh : h = k
    · subst hh
      rw [if_pos rfl, ih]
      split_ifs <;> rfl
    · rw [if_neg hh, find_cons, ih]
      by_cases hk : k' = h
      · subst hk
        rw [if_pos rfl, if_neg hh, if_pos rfl]
      · rw [if_neg hk, if_neg hk]

theorem mem_keys_iff_find {m : OrderedMap κ α} {k : κ} : k ∈ m.keys ↔ ∃ v, m.find k = some v := by
  induction m with
  | nil => simp [keys]
  | cons p rest ih =>
    obtain ⟨h, w⟩ := p
    rw [keys, List.map_cons, List.mem_cons, find_cons]
    by_cases hk : k = h
    · simp [hk]
    · rw [if_neg hk, ← ih]
      exact or_iff_right hk

theorem find_eq_none {m : OrderedMap κ α} {k : κ} (h : k ∉ m.keys) : m.find k = none := by
  cases hfind : m.find k with
  | none => rfl
  | some v => exact absurd (mem_keys_iff_find.mpr ⟨v, hfind⟩) h

/-- Each key is there once. -/
theorem mem_iff_find {m : OrderedMap κ α} (hnd : m.keys.Nodup) {k : κ} {v : α} :
    (k, v) ∈ m ↔ m.find k = some v := by
  induction m with
  | nil => simp
  | cons p rest ih =>
    obtain ⟨h, w⟩ := p
    obtain ⟨hnot, hrest⟩ := List.nodup_cons.mp hnd
    rw [List.mem_cons, find_cons]
    by_cases hk : k = h
    · subst hk
      rw [if_pos rfl, Option.some.injEq, Prod.mk.injEq]
      constructor
      · rintro (⟨-, rfl⟩ | hmem)
        · rfl
        · exact absurd (mem_keys_of_mem hmem) hnot
      · rintro rfl
        exact .inl ⟨rfl, rfl⟩
    · rw [if_neg hk, ← ih hrest, Prod.mk.injEq]
      exact or_iff_right fun h => hk h.1

/-- The keys increase. -/
def Sorted [LT κ] (m : OrderedMap κ α) : Prop := m.keys.Pairwise (· < ·)

omit [DecidableEq κ] in
theorem Sorted.nodup [Preorder κ] {m : OrderedMap κ α} (h : m.Sorted) : m.keys.Nodup :=
  h.imp ne_of_lt

theorem Sorted.erase [LT κ] {m : OrderedMap κ α} (h : m.Sorted) (k : κ) : (m.erase k).Sorted :=
  h.sublist (erase_keys m k)

theorem Sorted.insert [LinearOrder κ] {m : OrderedMap κ α} (h : m.Sorted) (k : κ) (v : α) :
    (m.insert k v).Sorted := by
  induction m with
  | nil => exact List.pairwise_singleton _ _
  | cons p rest ih =>
    obtain ⟨h', w⟩ := p
    obtain ⟨hall, hrest⟩ := List.pairwise_cons.mp h
    rw [OrderedMap.insert]
    split_ifs with hlt heq
    · refine List.pairwise_cons.mpr ⟨fun k' hk' => ?_, h⟩
      rcases List.mem_cons.mp hk' with rfl | hk'
      · exact hlt
      · exact hlt.trans (hall k' hk')
    · subst heq
      exact h
    · refine List.pairwise_cons.mpr ⟨fun k' hk' => ?_, ih hrest⟩
      obtain ⟨v', hv'⟩ := mem_keys_iff_find.mp hk'
      rw [find_insert] at hv'
      split_ifs at hv' with hk
      · subst hk
        exact lt_of_le_of_ne (not_lt.mp hlt) (Ne.symm heq)
      · exact hall k' (mem_keys_iff_find.mpr ⟨v', hv'⟩)

end OrderedMap

end Infra
