import Mathlib.Data.List.Perm.Basic
import Mathlib.Data.List.Pairwise
import Mathlib.Data.List.Dedup
import Mathlib.Order.Lattice

/-!
# `std::sort` and `std::unique`

`StdSort` is an implementation of `std::sort`: it permutes and sorts, and nothing is said about the
order of equivalent elements. `unique` is `std::unique` with the rest erased.

Where elements are the same if they have the same key, and a list is sorted by the keys, `unique`
keeps of each key the first element, and all elements whose keys do not count.
-/

namespace Infra

universe u v

/-! ## Sorting -/

section Sorting

variable {α : Type u}

/-- What `std::sort` asks of a comparison. -/
structure StrictWeak (less : α → α → Bool) : Prop where
  asymm : ∀ a b, less a b = true → less b a = false
  negTrans : ∀ a b c, less a b = false → less b c = false → less a c = false

theorem StrictWeak.irrefl {less : α → α → Bool} (h : StrictWeak less) (a : α) : less a a = false := by
  cases haa : less a a with
  | false => rfl
  | true => exact haa.symm.trans (h.asymm a a haa)

theorem StrictWeak.trans {less : α → α → Bool} (h : StrictWeak less) {a b c : α}
    (hab : less a b = true) (hbc : less b c = true) : less a c = true := by
  cases hac : less a c with
  | true => rfl
  | false => exact (h.negTrans a c b hac (h.asymm b c hbc)).symm.trans hab

theorem StrictWeak.swap {less : α → α → Bool} (h : StrictWeak less) :
    StrictWeak fun a b => less b a where
  asymm a b := h.asymm b a
  negTrans a b c hab hbc := h.negTrans c b a hbc hab

/-- A comparison of keys that are linearly ordered. -/
theorem strictWeak_of_key {κ : Type v} [LinearOrder κ] {less : α → α → Bool} (key : α → κ)
    (hless : ∀ a b, less a b = true ↔ key a < key b) : StrictWeak less where
  asymm a b h := Bool.eq_false_iff.mpr fun h' => lt_asymm ((hless a b).mp h) ((hless b a).mp h')
  negTrans a b c hab hbc := by
    rw [Bool.eq_false_iff, ne_eq, hless, not_lt] at hab hbc ⊢
    exact hbc.trans hab

/-- An implementation of `std::sort`. -/
structure StdSort (α : Type u) where
  sort : (α → α → Bool) → List α → List α
  perm : ∀ less l, (sort less l).Perm l
  sorted : ∀ less l, StrictWeak less → (sort less l).Pairwise fun a b => less b a = false

/-- The comparison, and among equivalent elements those of `first` before the others. -/
def preferring (first : α → Bool) (less : α → α → Bool) (a b : α) : Bool :=
  !less b a && (less a b || first a || !first b)

theorem preferring_total (first : α → Bool) (less : α → α → Bool) (hless : StrictWeak less) (a b : α) :
    (preferring first less a b || preferring first less b a) = true := by
  unfold preferring
  cases hab : less a b with
  | true => simp [hless.asymm a b hab]
  | false =>
    cases hba : less b a with
    | true => simp
    | false => cases first a <;> cases first b <;> rfl

theorem preferring_trans (first : α → Bool) (less : α → α → Bool) (hless : StrictWeak less)
    (a b c : α) (hab : preferring first less a b = true) (hbc : preferring first less b c = true) :
    preferring first less a c = true := by
  unfold preferring at *
  simp only [Bool.and_eq_true, Bool.not_eq_true', Bool.or_eq_true] at hab hbc ⊢
  refine ⟨hless.negTrans c b a hbc.1 hab.1, ?_⟩
  cases hac : less a c with
  | true => simp
  | false =>
    -- `a` and `c` are equivalent, hence both are equivalent to `b`
    have hab' : less a b = false := hless.negTrans a c b hac hbc.1
    have hbc' : less b c = false := hless.negTrans b a c hab.1 hac
    rcases hab.2 with (h | h) | h
    · rw [hab'] at h
      exact (nomatch h)
    · simp [h]
    · rcases hbc.2 with (h' | h') | h'
      · rw [hbc'] at h'
        exact (nomatch h')
      · rw [h] at h'
        exact (nomatch h')
      · simp [h']

/-- A merge sort that breaks ties by `first`. -/
def StdSort.preferring (first : α → Bool) : StdSort α where
  sort less l := l.mergeSort (Infra.preferring first less)
  perm less l := List.mergeSort_perm l _
  sorted less l hless := by
    refine (List.pairwise_mergeSort (preferring_trans first less hless)
      (preferring_total first less hless) l).imp fun {a b} h => ?_
    unfold Infra.preferring at h
    simp only [Bool.and_eq_true, Bool.not_eq_true'] at h
    exact h.1

theorem StdSort.pairwise_preferring (first : α → Bool) {less : α → α → Bool} (hless : StrictWeak less)
    (l : List α) :
    ((StdSort.preferring first).sort less l).Pairwise fun a b =>
      less a b = true ∨ first a = true ∨ first b = false := by
  refine (List.pairwise_mergeSort (preferring_trans first less hless)
    (preferring_total first less hless) l).imp fun {a b} h => ?_
  unfold Infra.preferring at h
  simp only [Bool.and_eq_true, Bool.or_eq_true, Bool.not_eq_true'] at h
  rcases h.2 with (h | h) | h
  · exact .inl h
  · exact .inr (.inl h)
  · exact .inr (.inr h)

end Sorting

/-! ## Removing neighbours that are the same -/

section Unique

variable {α : Type u}

/-- The loop of `std::unique`: an element goes away if it is the same as the last one that was kept. -/
def uniqueAfter (same : α → α → Bool) : Option α → List α → List α
  | _, [] => []
  | last, b :: l =>
    if last.any (same · b) then uniqueAfter same last l else b :: uniqueAfter same (some b) l

def unique (same : α → α → Bool) (l : List α) : List α := uniqueAfter same none l

theorem uniqueAfter_sublist (same : α → α → Bool) (l : List α) :
    ∀ last, (uniqueAfter same last l).Sublist l := by
  induction l with
  | nil => intro last; exact .slnil
  | cons b l ih =>
    intro last
    unfold uniqueAfter
    split
    · exact (ih last).cons b
    · exact (ih (some b)).cons_cons b

theorem unique_sublist (same : α → α → Bool) (l : List α) : (unique same l).Sublist l :=
  uniqueAfter_sublist same l none

end Unique

section Key

variable {α : Type u} {κ : Type v} [DecidableEq κ] (key : α → κ) (counts : κ → Bool)

/-- The keys are equal, and count. -/
def sameKey (a b : α) : Bool := counts (key a) && key a == key b

variable {key counts}

theorem sameKey_iff {a b : α} : sameKey key counts a b = true ↔ counts (key a) = true ∧ key a = key b := by
  simp [sameKey]

/-- Elements whose keys do not count stay. -/
theorem uniqueAfter_filter (l : List α) : ∀ last,
    (uniqueAfter (sameKey key counts) last l).filter (fun a => !counts (key a))
      = l.filter fun a => !counts (key a) := by
  induction l with
  | nil => intro last; rfl
  | cons b l ih =>
    intro last
    unfold uniqueAfter
    split
    · next h =>
      obtain ⟨a, ha, hsame⟩ : ∃ a, last = some a ∧ sameKey key counts a b = true := by
        cases last with
        | none => exact (nomatch h)
        | some a => exact ⟨a, rfl, h⟩
      obtain ⟨hcounts, heq⟩ := sameKey_iff.mp hsame
      rw [heq] at hcounts
      rw [ih, List.filter_cons_of_neg (by simp [hcounts])]
    · rw [List.filter_cons, List.filter_cons, ih]

theorem unique_filter (l : List α) :
    (unique (sameKey key counts) l).filter (fun a => !counts (key a))
      = l.filter fun a => !counts (key a) :=
  uniqueAfter_filter l none

/-- No key is lost. -/
theorem exists_mem_uniqueAfter {m : α} (l : List α) : ∀ last, m ∈ l →
    (∃ a ∈ last, key a = key m) ∨ ∃ m' ∈ uniqueAfter (sameKey key counts) last l, key m' = key m := by
  induction l with
  | nil => intro last hm; exact (nomatch hm)
  | cons b l ih =>
    intro last hm
    unfold uniqueAfter
    split
    · next h =>
      rcases List.mem_cons.mp hm with rfl | hm
      · cases last with
        | none => exact (nomatch h)
        | some a => exact .inl ⟨a, rfl, (sameKey_iff.mp h).2⟩
      · exact ih last hm
    · refine .inr ?_
      rcases List.mem_cons.mp hm with rfl | hm
      · exact ⟨_, List.mem_cons_self, rfl⟩
      · rcases ih (some b) hm with ⟨a, ha, heq⟩ | ⟨m', hm', heq⟩
        · obtain rfl := Option.some.inj ha
          exact ⟨_, List.mem_cons_self, heq⟩
        · exact ⟨m', List.mem_cons_of_mem _ hm', heq⟩

theorem exists_mem_unique {m : α} {l : List α} (hm : m ∈ l) :
    ∃ m' ∈ unique (sameKey key counts) l, key m' = key m := by
  have hkept : (∃ a ∈ (none : Option α), key a = key m) ∨
      ∃ m' ∈ unique (sameKey key counts) l, key m' = key m := exists_mem_uniqueAfter l none hm
  rcases hkept with ⟨a, ha, -⟩ | h
  · exact (nomatch ha)
  · exact h

section Sorted

variable {S : κ → κ → Prop} (hanti : ∀ a b, S a b → S b a → a = b)

include hanti

/-- In a sorted list, what is kept differs from the last element before it and from each other. -/
theorem uniqueAfter_distinct (l : List α) : ∀ last : Option α,
    (last.toList ++ l).Pairwise (fun a b => S (key a) (key b)) →
    (∀ a ∈ last, ∀ b ∈ uniqueAfter (sameKey key counts) last l, counts (key a) = true → key a ≠ key b) ∧
    (uniqueAfter (sameKey key counts) last l).Pairwise fun a b =>
      counts (key a) = true → key a ≠ key b := by
  induction l with
  | nil => exact fun last _ => ⟨fun a _ b hb => (nomatch hb), .nil⟩
  | cons b l ih =>
    intro last hsorted
    have hbl : (b :: l).Pairwise fun a b => S (key a) (key b) :=
      hsorted.sublist (List.sublist_append_right _ _)
    unfold uniqueAfter
    split
    · exact ih last (hsorted.sublist ((List.Sublist.refl _).append (List.sublist_cons_self b l)))
    · next hne =>
      obtain ⟨hfirst, hrest⟩ := ih (some b) hbl
      refine ⟨?_, List.pairwise_cons.mpr ⟨fun c hc => hfirst b rfl c hc, hrest⟩⟩
      rintro a ha c hc hcounts heq
      obtain rfl : last = some a := ha
      have hab : key a ≠ key b := fun h => hne (sameKey_iff.mpr ⟨hcounts, h⟩)
      rcases List.mem_cons.mp hc with rfl | hc
      · exact hab heq
      · -- a key that comes back would have `b` between two equal ones
        have hcl : c ∈ l := (uniqueAfter_sublist _ l (some b)).subset hc
        have h1 : S (key a) (key b) := (List.pairwise_cons.mp hsorted).1 b List.mem_cons_self
        have h2 : S (key b) (key c) := (List.pairwise_cons.mp hbl).1 c hcl
        rw [← heq] at h2
        exact hab (hanti _ _ h1 h2)

theorem unique_distinct {l : List α} (hsorted : l.Pairwise fun a b => S (key a) (key b)) :
    (unique (sameKey key counts) l).Pairwise fun a b => counts (key a) = true → key a ≠ key b :=
  (uniqueAfter_distinct hanti l none hsorted).2

/-- What is kept stands before everything else that has its key. -/
theorem uniqueAfter_first {R : α → α → Prop} {m m' : α} (l : List α) : ∀ last : Option α,
    (last.toList ++ l).Pairwise (fun a b => S (key a) (key b)) → l.Pairwise R →
    m ∈ uniqueAfter (sameKey key counts) last l → counts (key m) = true → m' ∈ l → key m' = key m →
    m = m' ∨ R m m' := by
  induction l with
  | nil => exact fun last _ _ hm => (nomatch hm)
  | cons b l ih =>
    intro last hsorted hR hm hcounts hm' heq
    have hbl : (b :: l).Pairwise fun a b => S (key a) (key b) :=
      hsorted.sublist (List.sublist_append_right _ _)
    have hlast : (last.toList ++ l).Pairwise fun a b => S (key a) (key b) :=
      hsorted.sublist ((List.Sublist.refl _).append (List.sublist_cons_self b l))
    obtain ⟨hRb, hRl⟩ := List.pairwise_cons.mp hR
    unfold uniqueAfter at hm
    split at hm
    · next h =>
      rcases List.mem_cons.mp hm' with rfl | hm'
      · cases last with
        | none => exact (nomatch h)
        | some a =>
          obtain ⟨hca, hab⟩ := sameKey_iff.mp h
          exact absurd (hab.trans heq) ((uniqueAfter_distinct hanti l (some a) hlast).1 a rfl m hm hca)
      · exact ih last hlast hRl hm hcounts hm' heq
    · rcases List.mem_cons.mp hm with rfl | hm
      · rcases List.mem_cons.mp hm' with rfl | hm'
        · exact .inl rfl
        · exact .inr (hRb m' hm')
      · rcases List.mem_cons.mp hm' with rfl | hm'
        · rw [← heq] at hcounts
          exact absurd heq ((uniqueAfter_distinct hanti l _ hbl).1 _ rfl m hm hcounts)
        · exact ih (some b) hbl hRl hm hcounts hm' heq

theorem unique_first {R : α → α → Prop} {m m' : α} {l : List α}
    (hsorted : l.Pairwise fun a b => S (key a) (key b)) (hR : l.Pairwise R)
    (hm : m ∈ unique (sameKey key counts) l) (hcounts : counts (key m) = true) (hm' : m' ∈ l)
    (heq : key m' = key m) : m = m' ∨ R m m' :=
  uniqueAfter_first hanti l none hsorted hR hm hcounts hm' heq

end Sorted

end Key

end Infra
