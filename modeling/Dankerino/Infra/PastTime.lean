import Mathlib.Data.List.Induction

/-!
# Past-time formulas over histories

A history is a list of what happened, oldest first. Formulas about the past of its end or of each of
its entries are used with one lemma for a history that grows by one entry, and one for a history
that grows by entries they do not look at:

* `Since p q`: there is an entry with `p` behind which none has `q`.
* `Always R`: every entry is related by `R` to the history before it.
-/

namespace Infra

universe u

variable {α : Type u}

/-- A place in a history with one more entry is the new entry, or a place of the history before. -/
theorem append_cons_eq_snoc {before after history : List α} {x a : α} :
    history ++ [a] = before ++ x :: after ↔
      (after = [] ∧ x = a ∧ before = history) ∨
        ∃ after', after = after' ++ [a] ∧ history = before ++ x :: after' := by
  constructor
  · intro h
    rcases List.eq_nil_or_concat after with rfl | ⟨after', last, rfl⟩
    · obtain ⟨rfl, hlast⟩ := List.append_inj' h rfl
      exact .inl ⟨rfl, (List.singleton_inj.mp hlast).symm, rfl⟩
    · rw [List.concat_eq_append, ← List.cons_append, ← List.append_assoc] at h
      obtain ⟨hhistory, hlast⟩ := List.append_inj' h rfl
      obtain rfl := List.singleton_inj.mp hlast
      exact .inr ⟨after', List.concat_eq_append, hhistory⟩
  · rintro (⟨rfl, rfl, rfl⟩ | ⟨after', rfl, rfl⟩)
    · rfl
    · simp

/-! ## Since -/

/-- There was an entry with `p`, and no entry with `q` since. -/
def Since (p q : α → Prop) (history : List α) : Prop :=
  ∃ before a after, history = before ++ a :: after ∧ p a ∧ ∀ b ∈ after, ¬ q b

variable {p q : α → Prop}

@[simp] theorem not_since_nil : ¬ Since p q [] := by
  rintro ⟨before, a, after, h, -⟩
  simp at h

theorem since_snoc {history : List α} {a : α} :
    Since p q (history ++ [a]) ↔ p a ∨ (Since p q history ∧ ¬ q a) := by
  constructor
  · rintro ⟨before, x, after, hsplit, hx, hafter⟩
    rcases append_cons_eq_snoc.mp hsplit with ⟨-, rfl, -⟩ | ⟨after', rfl, hhistory⟩
    · exact .inl hx
    · exact .inr ⟨⟨before, x, after', hhistory, hx, fun b hb => hafter b (by simp [hb])⟩,
        hafter a (by simp)⟩
  · rintro (ha | ⟨⟨before, x, after, rfl, hx, hafter⟩, ha⟩)
    · exact ⟨history, a, [], rfl, ha, by simp⟩
    · refine ⟨before, x, after ++ [a], by simp, hx, fun b hb => ?_⟩
      rcases List.mem_append.mp hb with hb | hb
      · exact hafter b hb
      · rwa [List.mem_singleton.mp hb]

/-- Entries without `q` only add a new beginning. -/
theorem since_append {history more : List α} (hmore : ∀ a ∈ more, ¬ q a) :
    Since p q (history ++ more) ↔ Since p q history ∨ ∃ a ∈ more, p a := by
  induction more using List.reverseRecOn with
  | nil => simp
  | append_singleton more a ih =>
    simp only [List.mem_append, List.mem_singleton, or_imp, forall_and, forall_eq] at hmore
    rw [← List.append_assoc, since_snoc, ih hmore.1]
    simp [hmore.2, or_and_right, exists_or, or_comm, or_left_comm]

/-! ## Always -/

/-- Every entry is related to the history before it. -/
def Always (R : List α → α → Prop) (history : List α) : Prop :=
  ∀ before a after, history = before ++ a :: after → R before a

variable {R : List α → α → Prop}

@[simp] theorem always_nil : Always R [] := by
  intro before a after h
  simp at h

theorem always_snoc {history : List α} {a : α} :
    Always R (history ++ [a]) ↔ Always R history ∧ R history a := by
  constructor
  · intro h
    exact ⟨fun before x after hsplit => h before x (after ++ [a]) (by simp [hsplit]), h history a [] rfl⟩
  · rintro ⟨hhistory, ha⟩ before x after hsplit
    rcases append_cons_eq_snoc.mp hsplit with ⟨-, rfl, rfl⟩ | ⟨after', -, hsplit⟩
    · exact ha
    · exact hhistory before x after' hsplit

/-- Entries that `R` says nothing about change nothing. -/
theorem always_append {history more : List α} (hmore : ∀ a ∈ more, ∀ before, R before a) :
    Always R (history ++ more) ↔ Always R history := by
  induction more using List.reverseRecOn with
  | nil => simp
  | append_singleton more a ih =>
    simp only [List.mem_append, List.mem_singleton, or_imp, forall_and, forall_eq] at hmore
    rw [← List.append_assoc, always_snoc, ih hmore.1]
    exact and_iff_left (hmore.2 _)

end Infra
