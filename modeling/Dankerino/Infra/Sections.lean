import Mathlib.Algebra.BigOperators.Group.List.Lemmas
import Mathlib.Data.List.Dedup

/-!
# Sections under headers

A list becomes a list of sections: for each key that occurs, in the order of the list, a header and
then a row for each element with this key. What a list without common keys is appended to does not
change, so an edit inside one section can be followed there.
-/

namespace Infra

universe u v w

variable {α : Type u} {κ : Type v} {β : Type w}

section Sections

variable [DecidableEq κ] (key : α → κ) (header : κ → β) (row : α → β)

/-- One header and its rows. -/
def sectionOf (k : κ) (l : List α) : List β :=
  header k :: (l.filter fun x => key x = k).map row

def sections (l : List α) : List β := (l.map key).dedup.flatMap fun k => sectionOf key header row k l

variable {key header row}

theorem sectionOf_append_left {k : κ} {l r : List α} (h : ∀ y ∈ r, key y ≠ k) :
    sectionOf key header row k (l ++ r) = sectionOf key header row k l := by
  have hnil : (r.filter fun y => key y = k) = [] := by
    rw [List.filter_eq_nil_iff]
    intro y hy
    simpa using h y hy
  unfold sectionOf
  rw [List.filter_append, hnil, List.append_nil]

theorem sectionOf_append_right {k : κ} {l r : List α} (h : ∀ x ∈ l, key x ≠ k) :
    sectionOf key header row k (l ++ r) = sectionOf key header row k r := by
  have hnil : (l.filter fun x => key x = k) = [] := by
    rw [List.filter_eq_nil_iff]
    intro x hx
    simpa using h x hx
  unfold sectionOf
  rw [List.filter_append, hnil, List.nil_append]

/-- Lists without a common key keep their sections to themselves. -/
theorem sections_append {l r : List α} (h : ∀ x ∈ l, ∀ y ∈ r, key x ≠ key y) :
    sections key header row (l ++ r) = sections key header row l ++ sections key header row r := by
  have hdisj : List.Disjoint (l.map key) (r.map key) := by
    intro k hl hr
    obtain ⟨x, hx, rfl⟩ := List.mem_map.mp hl
    obtain ⟨y, hy, heq⟩ := List.mem_map.mp hr
    exact h x hx y hy heq.symm
  unfold sections
  rw [List.map_append, hdisj.dedup_append, List.flatMap_append]
  congr 1
  · refine List.flatMap_congr ?_
    intro k hk
    obtain ⟨x, hx, rfl⟩ := List.mem_map.mp (List.mem_dedup.mp hk)
    exact sectionOf_append_left fun y hy => (h x hx y hy).symm
  · refine List.flatMap_congr ?_
    intro k hk
    obtain ⟨y, hy, rfl⟩ := List.mem_map.mp (List.mem_dedup.mp hk)
    exact sectionOf_append_right fun x hx => h x hx y hy

theorem sections_nil : sections key header row [] = [] := rfl

/-- The only section. -/
theorem sections_same {k : κ} {l : List α} (hne : l ≠ []) (h : ∀ x ∈ l, key x = k) :
    sections key header row l = header k :: l.map row := by
  have hkeys : l.map key = List.replicate l.length k := by
    rw [List.eq_replicate_iff]
    refine ⟨List.length_map _, ?_⟩
    intro k' hk'
    obtain ⟨x, hx, rfl⟩ := List.mem_map.mp hk'
    exact h x hx
  have hall : (l.filter fun x => key x = k) = l := by
    rw [List.filter_eq_self]
    intro x hx
    simpa using h x hx
  unfold sections
  rw [hkeys, List.replicate_dedup (fun hlen => hne (List.length_eq_zero_iff.mp hlen)),
    List.flatMap_singleton, sectionOf, hall]

theorem mem_sections {l : List α} {b : β} (h : b ∈ sections key header row l) :
    ∃ x ∈ l, b = header (key x) ∨ b = row x := by
  obtain ⟨k, hk, hb⟩ := List.mem_flatMap.mp h
  rcases List.mem_cons.mp hb with rfl | hb
  · obtain ⟨x, hx, rfl⟩ := List.mem_map.mp (List.mem_dedup.mp hk)
    exact ⟨x, hx, .inl rfl⟩
  · obtain ⟨x, hx, rfl⟩ := List.mem_map.mp hb
    exact ⟨x, (List.mem_filter.mp hx).1, .inr rfl⟩

/-- The sections have a row for each element. -/
theorem length_filter_sections {p : β → Bool} (hheader : ∀ k, p (header k) = false)
    (hrow : ∀ x, p (row x) = true) (l : List α) :
    ((sections key header row l).filter p).length = l.length := by
  have hone : ∀ k, ((sectionOf key header row k l).filter p).length = (l.map key).count k := by
    intro k
    have hrows : ((l.filter fun x => key x = k).map row).filter p
        = (l.filter fun x => key x = k).map row := by
      rw [List.filter_eq_self]
      intro y hy
      obtain ⟨x, -, rfl⟩ := List.mem_map.mp hy
      exact hrow x
    unfold sectionOf
    rw [List.filter_cons_of_neg (by simp [hheader]), hrows, List.length_map, List.count_eq_countP,
      List.countP_map, List.countP_eq_length_filter]
    congr 1
  calc ((sections key header row l).filter p).length
      = ((l.map key).dedup.map fun k => (l.map key).count k).sum := by
        unfold sections
        rw [List.filter_flatMap, List.length_flatMap]
        exact congrArg List.sum (List.map_congr_left fun k _ => hone k)
    _ = l.length := by rw [List.sum_map_count_dedup_eq_length, List.length_map]

end Sections

/-- A list that is ordered by `R` is cut where a property that `R` carries downwards ends. -/
theorem exists_cut_of_pairwise {R : α → α → Prop} {p : α → Prop} [DecidablePred p]
    (hp : ∀ x y, R x y → p y → p x) {l : List α} (h : l.Pairwise R) :
    ∃ lo hi, l = lo ++ hi ∧ (∀ x ∈ lo, p x) ∧ ∀ x ∈ hi, ¬ p x := by
  induction h with
  | nil => exact ⟨[], [], rfl, by simp, by simp⟩
  | @cons a l ha _ ih =>
    by_cases hpa : p a
    · obtain ⟨lo, hi, rfl, hlo, hhi⟩ := ih
      refine ⟨a :: lo, hi, rfl, ?_, hhi⟩
      rintro x (_ | ⟨_, hx⟩)
      · exact hpa
      · exact hlo x hx
    · refine ⟨[], a :: l, rfl, by simp, ?_⟩
      rintro x (_ | ⟨_, hx⟩) hpx
      · exact hpa hpx
      · exact hpa (hp a x (ha x hx) hpx)

end Infra
