import Mathlib.Data.List.Nodup
import Mathlib.Data.List.TakeWhile

/-!
# Merging one list into another

`mergeInto before c ms` puts every element of `ms` directly before the first element of `c` that it
goes before, and the rest at the end. The elements of both lists keep their order, provided that
`ms` is `Steady`: what a later element goes before, an earlier one goes before too.

* `mergeInto_concat_before`, `mergeInto_concat_end`: merging one more element
* `exists_eq_of_left`, `exists_eq_of_right`: what stands behind an element of the merged list
-/

namespace Infra

universe u

variable {α : Type u} (before : α → α → Bool)

def mergeInto : List α → List α → List α
  | [], ms => ms
  | s :: c, ms =>
    ms.takeWhile (before · s) ++ s :: mergeInto c (ms.dropWhile (before · s))

/-- What a later element goes before, an earlier one goes before too. -/
def Steady (ms : List α) : Prop :=
  ms.Pairwise fun m m' => ∀ s, before m' s = true → before m s = true

@[simp] theorem mergeInto_nil_left (ms : List α) : mergeInto before [] ms = ms := rfl

@[simp] theorem mergeInto_nil_right (c : List α) : mergeInto before c [] = c := by
  induction c with
  | nil => rfl
  | cons s c ih => rw [mergeInto, List.takeWhile_nil, List.dropWhile_nil, ih, List.nil_append]

variable {before}

theorem Steady.dropWhile {ms : List α} (h : Steady before ms) (p : α → Bool) :
    Steady before (ms.dropWhile p) := h.sublist (List.dropWhile_sublist p)

theorem Steady.dropWhile_eq_filter {ms : List α} (h : Steady before ms) (s : α) :
    ms.dropWhile (before · s) = ms.filter (fun m => !before m s) := by
  induction ms with
  | nil => rfl
  | cons m ms ih =>
    obtain ⟨hm, hms⟩ := List.pairwise_cons.mp h
    cases hb : before m s with
    | true =>
      simp only [List.dropWhile_cons, List.filter_cons, hb, if_true, Bool.not_true,
        Bool.false_eq_true, if_false, ih hms]
    | false =>
      simp only [List.dropWhile_cons, List.filter_cons, hb, Bool.not_false, Bool.false_eq_true,
        if_false, if_true]
      congr 1
      refine (List.filter_eq_self.mpr fun m' hm' => ?_).symm
      cases hb' : before m' s with
      | true => exact Bool.noConfusion (hb.symm.trans (hm m' hm' s hb'))
      | false => rfl

theorem mergeInto_perm (before : α → α → Bool) (c ms : List α) : (mergeInto before c ms).Perm (c ++ ms) := by
  induction c generalizing ms with
  | nil => exact .refl _
  | cons s c ih =>
    calc (ms.takeWhile (before · s) ++ s :: mergeInto before c (ms.dropWhile (before · s))).Perm
          (ms.takeWhile (before · s) ++ s :: (c ++ ms.dropWhile (before · s))) :=
            ((ih _).cons s).append_left _
      _ |>.Perm (s :: (ms.takeWhile (before · s) ++ (c ++ ms.dropWhile (before · s)))) :=
            List.perm_middle
      _ |>.Perm (s :: (c ++ (ms.takeWhile (before · s) ++ ms.dropWhile (before · s)))) := by
            rw [← List.append_assoc, ← List.append_assoc]
            exact (List.perm_append_comm.append_right _).cons s
      _ |>.Perm (s :: c ++ ms) := by rw [List.takeWhile_append_dropWhile]; exact .refl _

theorem sublist_mergeInto (before : α → α → Bool) (c ms : List α) : c.Sublist (mergeInto before c ms) := by
  induction c generalizing ms with
  | nil => exact List.nil_sublist _
  | cons s c ih => exact ((ih _).cons_cons s).trans (List.sublist_append_right ..)

/-! ## One more element -/

theorem takeWhile_concat_of_neg (p : α → Bool) {m : α} (ms : List α) (h : p m = false) :
    (ms ++ [m]).takeWhile p = ms.takeWhile p := by
  induction ms with
  | nil => simp [h]
  | cons a ms ih =>
    rw [List.cons_append, List.takeWhile_cons, List.takeWhile_cons, ih]

theorem dropWhile_concat_of_neg (p : α → Bool) {m : α} (ms : List α) (h : p m = false) :
    (ms ++ [m]).dropWhile p = ms.dropWhile p ++ [m] := by
  induction ms with
  | nil => simp [h]
  | cons a ms ih =>
    rw [List.cons_append, List.dropWhile_cons, List.dropWhile_cons, ih]
    split <;> rfl

/-- An element that goes before nothing is put at the end. -/
theorem mergeInto_concat_end {c : List α} (ms : List α) {m : α} (h : ∀ s ∈ c, before m s = false) :
    mergeInto before c (ms ++ [m]) = mergeInto before c ms ++ [m] := by
  induction c generalizing ms with
  | nil => rfl
  | cons s c ih =>
    have hs := h s (List.mem_cons_self ..)
    rw [mergeInto, mergeInto, takeWhile_concat_of_neg (before · s) ms hs,
      dropWhile_concat_of_neg (before · s) ms hs, ih _ fun s' hs' => h s' (List.mem_cons_of_mem _ hs'),
      List.append_assoc, List.cons_append]

/-- An element is put directly before the first that it goes before, behind the ones put there. -/
theorem mergeInto_concat_before {c₁ c₂ ms : List α} {s m : α} (hst : Steady before (ms ++ [m]))
    (h : ∀ t ∈ c₁, before m t = false) (hs : before m s = true) :
    ∃ front, mergeInto before (c₁ ++ s :: c₂) ms = front ++ s :: c₂ ∧
      mergeInto before (c₁ ++ s :: c₂) (ms ++ [m]) = front ++ m :: s :: c₂ := by
  induction c₁ generalizing ms with
  | nil =>
    have hall : ∀ m' ∈ ms, before m' s = true := fun m' hm' =>
      (List.pairwise_append.mp hst).2.2 m' hm' m (List.mem_singleton_self m) s hs
    have hall' : ∀ m' ∈ ms ++ [m], before m' s = true := by
      intro m' hm'
      rcases List.mem_append.mp hm' with hm' | hm'
      · exact hall m' hm'
      · rw [List.mem_singleton.mp hm']
        exact hs
    refine ⟨ms, ?_, ?_⟩
    · rw [List.nil_append, mergeInto, List.takeWhile_eq_self_iff.mpr hall,
        List.dropWhile_eq_nil_iff.mpr hall, mergeInto_nil_right]
    · rw [List.nil_append, mergeInto, List.takeWhile_eq_self_iff.mpr hall',
        List.dropWhile_eq_nil_iff.mpr hall', mergeInto_nil_right, List.append_assoc]
      rfl
  | cons t c₁ ih =>
    have ht := h t (List.mem_cons_self ..)
    have hst' : Steady before (ms.dropWhile (before · t) ++ [m]) := by
      rw [← dropWhile_concat_of_neg (before · t) ms ht]
      exact hst.dropWhile _
    obtain ⟨front, h1, h2⟩ := ih hst' fun t' ht' => h t' (List.mem_cons_of_mem _ ht')
    refine ⟨ms.takeWhile (before · t) ++ t :: front, ?_, ?_⟩
    · rw [List.cons_append, mergeInto, h1, List.append_assoc, List.cons_append]
    · rw [List.cons_append, mergeInto, takeWhile_concat_of_neg (before · t) ms ht,
        dropWhile_concat_of_neg (before · t) ms ht, h2, List.append_assoc, List.cons_append]

/-! ## What stands behind an element -/

/-- Behind `s`: what was behind it, and what goes before neither `s` nor anything in front of it. -/
theorem exists_eq_of_left (c₁ : List α) (s : α) (c₂ : List α) {ms : List α} (hst : Steady before ms) :
    ∃ front, mergeInto before (c₁ ++ s :: c₂) ms = front ++ s ::
      mergeInto before c₂ (ms.filter fun m => (c₁ ++ [s]).all fun t => !before m t) := by
  induction c₁ generalizing ms with
  | nil =>
    refine ⟨ms.takeWhile (before · s), ?_⟩
    rw [List.nil_append, mergeInto, hst.dropWhile_eq_filter]
    simp
  | cons t c₁ ih =>
    obtain ⟨front, h⟩ := ih (hst.dropWhile (before · t))
    refine ⟨ms.takeWhile (before · t) ++ t :: front, ?_⟩
    rw [List.cons_append, mergeInto, h, hst.dropWhile_eq_filter, List.filter_filter,
      List.append_assoc, List.cons_append]
    simp [Bool.and_comm]

/-- Behind `m`: what was behind it, and the first element that it goes before with its rest. -/
theorem exists_eq_of_right (c : List α) {ms₁ ms₂ : List α} {m : α} (hst : Steady before (ms₁ ++ m :: ms₂)) :
    ∃ front, mergeInto before c (ms₁ ++ m :: ms₂) = front ++ m ::
      mergeInto before (c.dropWhile fun t => !before m t) ms₂ := by
  induction c generalizing ms₁ with
  | nil => exact ⟨ms₁, rfl⟩
  | cons s c ih =>
    obtain ⟨-, hst₂, hbefore⟩ := List.pairwise_append.mp hst
    cases hb : before m s with
    | true =>
      -- `m` and everything in front of it go before `s`
      have hall : ∀ m' ∈ ms₁, before m' s = true := fun m' hm' =>
        hbefore m' hm' m (List.mem_cons_self ..) s hb
      refine ⟨ms₁, ?_⟩
      rw [mergeInto, List.takeWhile_append_of_pos hall, List.dropWhile_append_of_pos hall,
        List.takeWhile_cons_of_pos (p := (before · s)) hb,
        List.dropWhile_cons_of_pos (p := (before · s)) hb,
        List.dropWhile_cons_of_neg (by simp [hb]), mergeInto, List.append_assoc, List.cons_append]
    | false =>
      have hdrop : (ms₁ ++ m :: ms₂).dropWhile (before · s)
          = ms₁.dropWhile (before · s) ++ m :: ms₂ := by
        clear hst hst₂ hbefore ih
        induction ms₁ with
        | nil => simp [hb]
        | cons a ms₁ ih =>
          rw [List.cons_append, List.dropWhile_cons, List.dropWhile_cons, ih]
          split <;> rfl
      have hst' := hst.dropWhile (before · s)
      rw [hdrop] at hst'
      obtain ⟨front, h⟩ := ih hst'
      refine ⟨(ms₁ ++ m :: ms₂).takeWhile (before · s) ++ s :: front, ?_⟩
      rw [mergeInto, hdrop, h, List.dropWhile_cons_of_pos (by simp [hb]), List.append_assoc,
        List.cons_append]

/-! ## Order -/

/-- A relation that holds along both lists holds along the merged one. -/
theorem mergeInto_pairwise {R : α → α → Prop} (hbefore : ∀ m s, before m s = true → R m s)
    (htrans : ∀ m s s', before m s = true → R s s' → R m s')
    (hafter : ∀ m s, before m s = false → R s m) {c ms : List α} (hc : c.Pairwise R)
    (hms : ms.Pairwise R) (hst : Steady before ms) : (mergeInto before c ms).Pairwise R := by
  induction c generalizing ms with
  | nil => exact hms
  | cons s c ih =>
    obtain ⟨hs, hc⟩ := List.pairwise_cons.mp hc
    have hdrop : ∀ m ∈ ms.dropWhile (before · s), before m s = false := fun m hm => by
      rw [hst.dropWhile_eq_filter] at hm
      simpa using (List.mem_filter.mp hm).2
    have htake : ∀ m ∈ ms.takeWhile (before · s), before m s = true := fun m hm =>
      List.mem_takeWhile_imp (p := (before · s)) hm
    have hsplit := List.takeWhile_append_dropWhile (p := (before · s)) (l := ms)
    rw [← hsplit] at hms
    obtain ⟨hms₁, hms₂, hcross⟩ := List.pairwise_append.mp hms
    rw [mergeInto]
    refine List.pairwise_append.mpr ⟨hms₁, List.pairwise_cons.mpr ⟨?_, ih hc hms₂ ?_⟩, ?_⟩
    · intro x hx
      rcases List.mem_append.mp ((mergeInto_perm ..).mem_iff.mp hx) with hx | hx
      · exact hs x hx
      · exact hafter x s (hdrop x hx)
    · exact hst.dropWhile _
    · intro m hm x hx
      rcases List.mem_cons.mp hx with rfl | hx
      · exact hbefore m _ (htake m hm)
      · rcases List.mem_append.mp ((mergeInto_perm ..).mem_iff.mp hx) with hx | hx
        · exact htrans m s x (htake m hm) (hs x hx)
        · exact hcross m hm x hx

end Infra
