import Mathlib.Data.List.Nodup

/-!
# Caches that forget the entry used longest ago

A list of entries, the one used last first, with one entry a key. A cache is found and changed by key. An
entry that is put in moves to the front, as does one that is read. If there are then more entries than the
size allows, the last one is forgotten.
-/

namespace Infra

universe u v

structure LruCache (κ : Type u) (ν : Type v) where
  items : List (κ × ν)
  maxSize : Nat
  nodup : (items.map Prod.fst).Nodup
  size_le : items.length ≤ maxSize

namespace LruCache

variable {κ : Type u} {ν : Type v} [DecidableEq κ]

def empty (maxSize : Nat) : LruCache κ ν where
  items := []
  maxSize
  nodup := List.nodup_nil
  size_le := Nat.zero_le _

def find? (c : LruCache κ ν) (key : κ) : Option ν :=
  (c.items.find? fun item => item.1 = key).map Prod.snd

def contains (c : LruCache κ ν) (key : κ) : Bool := (c.find? key).isSome

theorem eq_of_find? {items : List (κ × ν)} {key : κ} {item : κ × ν}
    (h : (items.find? fun item => item.1 = key) = some item) : item.1 = key := by
  simpa using List.find?_some h

/-- The entries of other keys. -/
def others (items : List (κ × ν)) (key : κ) : List (κ × ν) := items.filter fun item => item.1 ≠ key

theorem mem_others {items : List (κ × ν)} {key : κ} {item : κ × ν} :
    item ∈ others items key ↔ item ∈ items ∧ item.1 ≠ key := by
  rw [others, List.mem_filter, decide_eq_true_iff]

theorem nodup_cons_others {items : List (κ × ν)} (h : (items.map Prod.fst).Nodup) (key : κ) (value : ν) :
    (((key, value) :: others items key).map Prod.fst).Nodup := by
  rw [List.map_cons, List.nodup_cons]
  constructor
  · intro hmem
    obtain ⟨item, hitem, heq⟩ := List.mem_map.mp hmem
    exact (mem_others.mp hitem).2 heq
  · exact h.sublist (List.filter_sublist.map _)

/-- The entry is put in front, and the last one is forgotten if there are too many. -/
def put (c : LruCache κ ν) (key : κ) (value : ν) : LruCache κ ν where
  items :=
    let items := (key, value) :: others c.items key
    if items.length > c.maxSize then items.dropLast else items
  maxSize := c.maxSize
  nodup := by
    have hnodup := nodup_cons_others c.nodup key value
    dsimp only
    split
    · exact hnodup.sublist ((List.dropLast_sublist _).map _)
    · exact hnodup
  size_le := by
    have hle : (others c.items key).length ≤ c.items.length := List.length_filter_le _ _
    have hsize := c.size_le
    dsimp only
    split
    · rw [List.length_dropLast, List.length_cons]
      omega
    · omega

/-- The value of a key, and the cache with the entry in front. -/
def get (c : LruCache κ ν) (key : κ) : Option (ν × LruCache κ ν) :=
  match h : c.items.find? fun item => item.1 = key with
  | none => none
  | some item => some (item.2,
    { c with
      items := item :: others c.items key
      nodup := by
        obtain rfl := eq_of_find? h
        exact nodup_cons_others c.nodup item.1 item.2
      size_le := by
        have hlt : (others c.items key).length < c.items.length := by
          refine List.length_filter_lt_length_iff_exists.mpr ⟨item, List.mem_of_find?_eq_some h, ?_⟩
          simpa using List.find?_some h
        exact Nat.le_trans hlt c.size_le })

/-! ## Entries -/

/-- An entry is what is found at its key. -/
theorem find?_eq_some_iff {c : LruCache κ ν} {key : κ} {value : ν} :
    c.find? key = some value ↔ (key, value) ∈ c.items := by
  constructor
  · intro h
    obtain ⟨⟨key', value'⟩, hitem, rfl⟩ := Option.map_eq_some_iff.mp h
    obtain rfl : key' = key := eq_of_find? hitem
    exact List.mem_of_find?_eq_some hitem
  · intro h
    cases hfind : c.items.find? fun item => item.1 = key with
    | none =>
      have hnot := List.find?_eq_none.mp hfind _ h
      exact absurd (decide_eq_true rfl) hnot
    | some item =>
      have heq := eq_of_find? hfind
      have hitem := List.inj_on_of_nodup_map c.nodup (List.mem_of_find?_eq_some hfind) h heq
      rw [find?, hfind, hitem]
      rfl

theorem find?_eq_none_iff {c : LruCache κ ν} {key : κ} :
    c.find? key = none ↔ ∀ item ∈ c.items, item.1 ≠ key := by
  rw [find?, Option.map_eq_none_iff, List.find?_eq_none]
  exact forall₂_congr fun item _ => by rw [decide_eq_true_iff]

/-- What is put in is found. -/
theorem find?_put_self {c : LruCache κ ν} (hsize : 0 < c.maxSize) (key : κ) (value : ν) :
    (c.put key value).find? key = some value := by
  rw [find?_eq_some_iff, put]
  dsimp only
  split
  · next hlarge =>
    -- the last entry is another one
    rw [List.dropLast_cons_of_ne_nil]
    · exact List.mem_cons_self
    · rintro hnil
      rw [hnil, List.length_singleton] at hlarge
      omega
  · exact List.mem_cons_self

/-- A new entry for which there is room. -/
theorem items_put {c : LruCache κ ν} {key : κ} (hkey : c.find? key = none)
    (hroom : c.items.length < c.maxSize) (value : ν) : (c.put key value).items = (key, value) :: c.items := by
  have hothers : others c.items key = c.items := by
    rw [others, List.filter_eq_self]
    rintro ⟨key', value'⟩ hitem
    rw [decide_eq_true_iff]
    rintro rfl
    rw [find?_eq_some_iff.mpr hitem] at hkey
    exact nomatch hkey
  have hnot : ¬ ((key, value) :: c.items).length > c.maxSize := by
    rw [List.length_cons]
    omega
  simp only [put, hothers, if_neg hnot]

/-- Reading an entry changes no entry. -/
theorem get_eq {c : LruCache κ ν} {key : κ} {value : ν} (h : c.find? key = some value) :
    ∃ c', c.get key = some (value, c') ∧ ∀ key', c'.find? key' = c.find? key' := by
  have hmem := find?_eq_some_iff.mp h
  obtain ⟨⟨key', value'⟩, hitem, rfl⟩ := Option.map_eq_some_iff.mp h
  obtain rfl : key' = key := eq_of_find? hitem
  rw [get]
  split
  · next hnone => exact nomatch hnone.symm.trans hitem
  · next item hsome =>
    obtain rfl := Option.some.inj (hitem.symm.trans hsome)
    refine ⟨_, rfl, fun key => Option.ext fun value => ?_⟩
    rw [find?_eq_some_iff, find?_eq_some_iff, List.mem_cons, mem_others]
    constructor
    · rintro (heq | ⟨hin, -⟩)
      · rw [heq]
        exact hmem
      · exact hin
    · intro hin
      by_cases hkey : key = key'
      · -- a key has one entry
        exact .inl (List.inj_on_of_nodup_map c.nodup hin hmem hkey)
      · exact .inr ⟨hin, hkey⟩

end LruCache

end Infra
