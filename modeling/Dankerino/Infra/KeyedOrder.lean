import Mathlib.Data.List.Perm.Basic

/-!
# Sequences that keep the order of each key

Elements have keys, and only the order of elements with the same key matters. What is moved past
elements of other keys changes nothing (`filter_key_move`), and two sequences that agree key by key
have the same elements (`perm_of_filter_key`).
-/

namespace Infra

/-- Lists that agree key by key are permutations of each other. -/
theorem perm_of_filter_key {α κ : Type*} [DecidableEq α] [DecidableEq κ] {key : α → κ} {l l' : List α}
    (h : ∀ k, l.filter (fun a => key a = k) = l'.filter (fun a => key a = k)) : l.Perm l' := by
  rw [List.perm_iff_count]
  intro a
  rw [← List.count_filter (p := fun b => decide (key b = key a)) (by simp),
    ← List.count_filter (p := fun b => decide (key b = key a)) (l := l') (by simp), h]

/-- What is moved past events of other keys stays in the order of its keys. -/
theorem filter_key_move {α κ : Type*} [DecidableEq κ] {key : α → κ} (front moved : List α)
    {back : List α} (h : ∀ b ∈ back, ∀ a ∈ moved, key b ≠ key a) (k : κ) :
    (front ++ moved ++ back).filter (fun a => key a = k)
      = (front ++ back ++ moved).filter (fun a => key a = k) := by
  rw [List.filter_append, List.filter_append, List.filter_append, List.filter_append,
    List.append_assoc, List.append_assoc]
  congr 1
  by_cases hk : ∃ a ∈ moved, key a = k
  · obtain ⟨a, ha, rfl⟩ := hk
    have hback : back.filter (fun b => key b = key a) = [] :=
      List.filter_eq_nil_iff.mpr fun b hb => by simpa using h b hb a ha
    rw [hback, List.append_nil, List.nil_append]
  · have hmoved : moved.filter (fun a => key a = k) = [] :=
      List.filter_eq_nil_iff.mpr fun a ha => by simpa using fun he => hk ⟨a, ha, he⟩
    rw [hmoved, List.append_nil, List.nil_append]

end Infra
