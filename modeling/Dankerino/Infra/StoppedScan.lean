import Mathlib.Order.Bounds.Basic
import Mathlib.Order.MinMax

/-!
# A scan that stops

A loop over a list that stops at some elements, skips others, and visits at most `n`. `visited_eq_of_agree`
says when the visited elements are those of the first `n` that have a property, and `mem_visited_iff` for which
elements that must hold.
-/

namespace Infra

universe u

variable {α : Type u} (stop skip keep : α → Bool)

def visited : Nat → List α → List α
  | 0, _ => []
  | _ + 1, [] => []
  | n + 1, a :: l =>
    if stop a then [] else if skip a then visited (n + 1) l else a :: visited n l

/-- Those of the first `n` elements that are not skipped that have the property. -/
def firstKept (n : Nat) (l : List α) : List α := ((l.filter fun a => !skip a).take n).filter keep

/-- Of the first `n` elements that are not skipped, those have the property that the loop comes to. -/
def Agree (n : Nat) (l : List α) : Prop :=
  ∀ front a back, l = front ++ a :: back → skip a = false → (front.countP fun b => !skip b) < n →
    (keep a = true ↔ ∀ b ∈ a :: front, stop b = false)

variable {stop skip keep}

theorem firstKept_cons_skip {n : Nat} {a : α} {l : List α} (h : skip a = true) :
    firstKept skip keep n (a :: l) = firstKept skip keep n l := by
  rw [firstKept, List.filter_cons_of_neg (by simp [h])]
  rfl

theorem firstKept_cons {n : Nat} {a : α} {l : List α} (h : skip a = false) :
    firstKept skip keep (n + 1) (a :: l) =
      if keep a then a :: firstKept skip keep n l else firstKept skip keep n l := by
  rw [firstKept, List.filter_cons_of_pos (by simp [h]), List.take_succ_cons, List.filter_cons]
  rfl

/-- Nothing is kept if no element that counts has the property. -/
theorem firstKept_eq_nil {l : List α} : ∀ {n : Nat},
    (∀ front a back, l = front ++ a :: back → skip a = false → (front.countP fun b => !skip b) < n →
      keep a = false) → firstKept skip keep n l = [] := by
  induction l with
  | nil =>
    intro n h
    rw [firstKept, List.filter_nil, List.take_nil, List.filter_nil]
  | cons a l ih =>
    intro n h
    cases hskip : skip a with
    | true =>
      rw [firstKept_cons_skip hskip]
      refine ih fun front b back hl hb hcount => h (a :: front) b back (by rw [hl]; rfl) hb ?_
      rw [List.countP_cons_of_neg (by simp [hskip])]
      exact hcount
    | false =>
      cases n with
      | zero => rw [firstKept, List.take_zero, List.filter_nil]
      | succ n =>
        rw [firstKept_cons hskip, h [] a l rfl hskip (Nat.succ_pos n), if_neg Bool.false_ne_true]
        refine ih fun front b back hl hb hcount => h (a :: front) b back (by rw [hl]; rfl) hb ?_
        rw [List.countP_cons_of_pos (by simp [hskip])]
        omega

/-- What is behind an element that the loop passes. -/
theorem Agree.tail {n : Nat} {a : α} {l : List α} (h : Agree stop skip keep (n + 1) (a :: l))
    (hstop : stop a = false) : Agree stop skip keep (if skip a then n + 1 else n) l := by
  intro front b back hl hb hcount
  rw [h (a :: front) b back (by rw [hl]; rfl) hb ?_]
  · simp only [List.forall_mem_cons, hstop, true_and]
  · cases hskip : skip a with
    | true =>
      rw [hskip, if_pos rfl] at hcount
      rw [List.countP_cons_of_neg (by simp [hskip])]
      exact hcount
    | false =>
      rw [hskip, if_neg Bool.false_ne_true] at hcount
      rw [List.countP_cons_of_pos (by simp [hskip])]
      omega

/-- The visited elements are those that have the property. -/
theorem visited_eq_of_agree {l : List α} : ∀ {n : Nat}, Agree stop skip keep n l →
    visited stop skip n l = firstKept skip keep n l := by
  induction l with
  | nil =>
    intro n h
    cases n <;> rfl
  | cons a l ih =>
    intro n h
    cases n with
    | zero => rw [visited, firstKept, List.take_zero, List.filter_nil]
    | succ n =>
      rw [visited]
      cases hstop : stop a with
      | true =>
        -- behind an element where the loop stops, none has the property
        rw [if_pos rfl]
        refine (firstKept_eq_nil fun front b back hl hb hcount => ?_).symm
        rw [Bool.eq_false_iff]
        intro hkeep
        have hall := (h front b back hl hb hcount).mp hkeep
        have hmem : a ∈ b :: front := by
          cases front with
          | nil => exact (List.cons.inj hl).1 ▸ List.mem_cons_self
          | cons c front => exact (List.cons.inj hl).1 ▸ List.mem_cons_of_mem _ List.mem_cons_self
        exact absurd ((hall a hmem).symm.trans hstop) Bool.false_ne_true
      | false =>
        have htail := h.tail hstop
        rw [if_neg Bool.false_ne_true]
        cases hskip : skip a with
        | true =>
          rw [hskip, if_pos rfl] at htail
          rw [if_pos rfl, ih htail, firstKept_cons_skip hskip]
        | false =>
          rw [hskip, if_neg Bool.false_ne_true] at htail
          have hkeep : keep a = true := (h [] a l rfl hskip (Nat.succ_pos n)).mpr
            (List.forall_mem_singleton.mpr hstop)
          rw [if_neg Bool.false_ne_true, ih htail, firstKept_cons hskip, if_pos hkeep]

/-- An element that counts is visited if the loop comes to it. -/
theorem mem_visited_iff {a : α} {front : List α} (back : List α) (hskip : skip a = false) (hfront : a ∉ front) :
    ∀ {n : Nat}, (front.countP fun b => !skip b) < n →
      (a ∈ visited stop skip n (front ++ a :: back) ↔ ∀ b ∈ a :: front, stop b = false) := by
  induction front with
  | nil =>
    intro n hcount
    obtain ⟨m, rfl⟩ := Nat.exists_eq_succ_of_ne_zero (Nat.ne_of_gt hcount)
    rw [List.nil_append, visited, List.forall_mem_singleton]
    cases hstop : stop a with
    | true => simp
    | false => simp [hskip]
  | cons c front ih =>
    intro n hcount
    obtain ⟨hne, hfront⟩ := not_or.mp (fun h => hfront (List.mem_cons.mpr h))
    obtain ⟨m, rfl⟩ : ∃ m, n = m + 1 := ⟨n - 1, by omega⟩
    have hswap : (∀ b ∈ a :: c :: front, stop b = false) ↔
        stop c = false ∧ ∀ b ∈ a :: front, stop b = false := by
      simp only [List.forall_mem_cons]
      exact and_left_comm
    rw [List.cons_append, visited, hswap]
    cases hstop : stop c with
    | true => simp
    | false =>
      cases hc : skip c with
      | true =>
        rw [List.countP_cons_of_neg (by simp [hc])] at hcount
        simp only [Bool.false_eq_true, if_false, if_true, true_and]
        exact ih hfront hcount
      | false =>
        rw [List.countP_cons_of_pos (by simp [hc])] at hcount
        simp only [Bool.false_eq_true, if_false, true_and]
        exact (List.mem_cons.trans (or_iff_right hne)).trans (ih hfront (n := m) (by omega))

theorem mem_firstKept_iff {a : α} {front : List α} (back : List α) (hskip : skip a = false) {n : Nat}
    (hcount : (front.countP fun b => !skip b) < n) :
    a ∈ firstKept skip keep n (front ++ a :: back) ↔ keep a = true := by
  have hmem : a ∈ ((front ++ a :: back).filter fun b => !skip b).take n := by
    rw [List.filter_append, List.filter_cons_of_pos (by simp [hskip]), List.take_append]
    refine List.mem_append_right _ ?_
    obtain ⟨m, hm⟩ : ∃ m, n - (front.filter fun b => !skip b).length = m + 1 :=
      ⟨n - (front.filter fun b => !skip b).length - 1, by rw [← List.countP_eq_length_filter]; omega⟩
    rw [hm, List.take_succ_cons]
    exact List.mem_cons_self
  rw [firstKept, List.mem_filter]
  exact and_iff_right hmem

/-- Only elements of the list are visited. -/
theorem mem_of_mem_visited {a : α} {l : List α} : ∀ {n : Nat}, a ∈ visited stop skip n l → a ∈ l := by
  induction l with
  | nil =>
    intro n h
    cases n <;> exact absurd h List.not_mem_nil
  | cons b l ih =>
    intro n h
    cases n with
    | zero => exact absurd h List.not_mem_nil
    | succ n =>
      rw [visited] at h
      split at h
      · exact absurd h List.not_mem_nil
      · split at h
        · exact List.mem_cons_of_mem _ (ih h)
        · rcases List.mem_cons.mp h with rfl | h
          · exact List.mem_cons_self
          · exact List.mem_cons_of_mem _ (ih h)

theorem mem_of_mem_firstKept {a : α} {l : List α} {n : Nat} (h : a ∈ firstKept skip keep n l) : a ∈ l :=
  (List.mem_filter.mp (List.mem_of_mem_take (List.mem_filter.mp h).1)).1

/-! ## The greatest value -/

/-- The greatest element so far, at the end. -/
theorem isGreatest_foldl_max {β : Type u} [LinearOrder β] (l : List β) : ∀ b : β,
    IsGreatest {x | x = b ∨ x ∈ l} (l.foldl max b) := by
  induction l with
  | nil => exact fun b => ⟨.inl rfl, fun x hx => (hx.resolve_right List.not_mem_nil).le⟩
  | cons c l ih =>
    intro b
    obtain ⟨hmem, hle⟩ := ih (max b c)
    refine ⟨?_, fun x hx => ?_⟩
    · rcases hmem with heq | hmem
      · rcases max_choice b c with h | h
        · exact .inl (heq.trans h)
        · exact .inr (List.mem_cons.mpr (.inl (heq.trans h)))
      · exact .inr (List.mem_cons_of_mem _ hmem)
    · have hstart : max b c ≤ l.foldl max (max b c) := hle (.inl rfl)
      rcases hx with rfl | hx
      · exact (le_max_left _ _).trans hstart
      · rcases List.mem_cons.mp hx with rfl | hx
        · exact (le_max_right _ _).trans hstart
        · exact hle (.inr hx)

end Infra
