import Dankerino.Messages.LimitedQueue

/-!
# Inserting beside an item

`insertBefore` and `insertAfter` should return true exactly if an insertion took place, beside the
first item that equals the needle. A full queue drops its oldest item for the new one, unless this
goes in front of the oldest: then nothing is inserted, and `insertBefore` returns true all the same.
-/

namespace Dankerino

namespace LimitedQueue

universe u

variable {T : Type u}

/-- The first item that equals the needle is `n`. -/
structure FirstAt (eq : T → T → Bool) (needle : T) (items pre : List T) (n : T) (post : List T) :
    Prop where
  split : items = pre ++ n :: post
  found : eq n needle = true
  first : ∀ x ∈ pre, eq x needle = false

/--
The item is there, the other ones are as they were but that the oldest may be missing, and what is
behind the item is `behind n post` if the needle is still there.
-/
def Inserted (eq : T → T → Bool) (needle item : T) (behind : T → List T → List T)
    (old new : List T) : Prop :=
  ∀ pre n post, FirstAt eq needle old pre n post →
    ∃ front back, new = front ++ item :: back ∧
      (front ++ back = old ∧ back = behind n post ∨
        front ++ back = old.tail ∧ (pre = [] ∨ back = behind n post))

/-- True is returned exactly if the needle occurs, and then the item was inserted. -/
structure Truthful (eq : T → T → Bool) (needle item : T) (behind : T → List T → List T)
    (q : LimitedQueue T) (r : LimitedQueue T × Bool) : Prop where
  found : r.2 = true ↔ ∃ x ∈ q.items, eq x needle = true
  inserted : r.2 = true → Inserted eq needle item behind q.items r.1.items

variable {eq : T → T → Bool} {needle item : T}

theorem FirstAt.findIdx? {items pre post : List T} {n : T} (h : FirstAt eq needle items pre n post) :
    items.findIdx? (fun x => eq x needle) = some pre.length := by
  have hpre : pre.findIdx? (fun x => eq x needle) = none := List.findIdx?_eq_none_iff.mpr h.first
  rw [h.split, List.findIdx?_append, hpre]
  simp [List.findIdx?_cons, h.found]

theorem FirstAt.exists {items : List T} (h : ∃ x ∈ items, eq x needle = true) :
    ∃ pre n post, FirstAt eq needle items pre n post := by
  obtain ⟨x, hx, hfound⟩ := h
  cases hfind : items.findIdx? (fun x => eq x needle) with
  | none =>
    rw [List.findIdx?_eq_none_iff.mp hfind x hx] at hfound
    exact nomatch hfound
  | some i =>
    obtain ⟨hi, hn, hfirst⟩ := List.findIdx?_eq_some_iff_getElem.mp hfind
    refine ⟨items.take i, items[i], items.drop (i + 1), ?_, hn, fun y hy => ?_⟩
    · rw [← List.drop_eq_getElem_cons hi, List.take_append_drop]
    · obtain ⟨j, hj, rfl⟩ := List.mem_iff_getElem.mp hy
      rw [List.getElem_take]
      exact Bool.eq_false_iff.mpr (hfirst j (by rw [List.length_take] at hj; omega))

/-- What a bounded queue keeps of the items with a new one that is not in front of all. -/
theorem rtake_insert (item : T) {limit : Nat} {front back : List T} (hle : (front ++ back).length ≤ limit)
    (h : front ≠ [] ∨ (front ++ back).length < limit) :
    ∃ front', (front ++ item :: back).rtake limit = front' ++ item :: back ∧
      (front' ++ back = front ++ back ∨ front' ++ back = (front ++ back).tail) := by
  have hlength : (front ++ item :: back).length = (front ++ back).length + 1 := by simp; omega
  by_cases hfull : (front ++ back).length < limit
  · refine ⟨front, Infra.rtake_of_length_le (by omega), .inl rfl⟩
  · have hne := h.resolve_right hfull
    refine ⟨front.tail, ?_, .inr (List.tail_append_of_ne_nil hne).symm⟩
    rw [← Infra.tail_eq_rtake (by omega), List.tail_append_of_ne_nil hne]

/-- The item that is in the place of the oldest one is that one. -/
theorem eq_of_replaced {x : T} {front back : List T} (h : front ++ item :: back = x :: (front ++ back)) :
    item = x := by
  induction front generalizing x with
  | nil => exact (List.cons.inj h).1
  | cons y front ih =>
    obtain ⟨rfl, htail⟩ := List.cons.inj h
    exact ih htail

section Calls

variable (q : LimitedQueue T)

theorem insertBefore_snd (needle item : T) :
    (q.insertBefore eq needle item).2 = q.items.any fun x => eq x needle := by
  rw [← List.findIdx?_isSome]
  unfold insertBefore items
  split
  · next h => rw [h]; rfl
  · next h => rw [h]; rfl

theorem insertAfter_snd (needle item : T) :
    (q.insertAfter eq needle item).2 = q.items.any fun x => eq x needle := by
  rw [← List.findIdx?_isSome]
  unfold insertAfter items
  split
  · next h => rw [h]; rfl
  · next h => rw [h]; rfl

variable {q} {pre post : List T} {n : T}

theorem FirstAt.insertBefore (h : FirstAt eq needle q.items pre n post) (item : T) :
    (q.insertBefore eq needle item).1.items = (pre ++ item :: n :: post).rtake q.limit := by
  rw [(insertBefore_items h.findIdx? item).1, h.split, List.take_left, List.drop_left]

theorem FirstAt.insertAfter (h : FirstAt eq needle q.items pre n post) (item : T) :
    (q.insertAfter eq needle item).1.items = ((pre ++ [n]) ++ item :: post).rtake q.limit := by
  have hsplit : q.items = (pre ++ [n]) ++ post := by rw [h.split, List.append_assoc]; rfl
  have hlength : pre.length + 1 = (pre ++ [n]).length := by simp
  rw [(insertAfter_items h.findIdx? item).1, hsplit, hlength, List.take_left, List.drop_left]

end Calls

/-- `insertAfter` is truthful. -/
theorem truthful_insertAfter (eq : T → T → Bool) (q : LimitedQueue T) (needle item : T) :
    Truthful eq needle item (fun _ post => post) q (q.insertAfter eq needle item) := by
  refine ⟨by rw [insertAfter_snd, List.any_eq_true], fun _ pre n post h => ?_⟩
  have hsplit : q.items = (pre ++ [n]) ++ post := by rw [h.split, List.append_assoc]; rfl
  have hle := q.length_items_le
  rw [hsplit] at hle
  obtain ⟨front, hfront, hkept⟩ := rtake_insert item hle
    (.inl (List.append_ne_nil_of_right_ne_nil _ (List.cons_ne_nil _ _)))
  refine ⟨front, post, by rw [h.insertAfter, hfront], ?_⟩
  rw [hsplit]
  exact hkept.imp (fun hold => ⟨hold, rfl⟩) fun hold => ⟨hold, .inr rfl⟩

/--
The calls tell the truth, except that `insertBefore` has nothing inserted in front of the oldest item
of a full queue.
-/
theorem truthful_insert_iff (eq : T → T → Bool) (q : LimitedQueue T) (needle item : T) :
    (Truthful eq needle item List.cons q (q.insertBefore eq needle item) ↔
      ¬ (q.items.length = q.limit ∧ ∃ n ∈ q.items.head?, eq n needle = true ∧ n ≠ item)) ∧
    Truthful eq needle item (fun _ post => post) q (q.insertAfter eq needle item) := by
  refine ⟨⟨?_, fun hcond => ?_⟩, truthful_insertAfter eq q needle item⟩
  · rintro htruthful ⟨hfull, n, hn, hfound, hne⟩
    obtain ⟨post, hitems⟩ := List.head?_eq_some_iff.mp hn
    have h : FirstAt eq needle q.items [] n post := ⟨hitems, hfound, nofun⟩
    have hreturns := htruthful.found.mpr ⟨n, by simp [hitems], hfound⟩
    obtain ⟨front, back, hnew, hkept⟩ := htruthful.inserted hreturns [] n post h
    -- what is kept is what was there
    have hsame : (q.insertBefore eq needle item).1.items = n :: post := by
      rw [h.insertBefore, List.nil_append, ← Infra.tail_eq_rtake]
      · rfl
      · rw [List.length_cons, ← hitems, hfull]
    rw [hsame] at hnew
    rcases hkept with ⟨hold, -⟩ | ⟨hold, -⟩
    · have hlength := congrArg List.length (hold.trans (hitems.trans hnew))
      simp at hlength
    · rw [hitems, List.tail_cons] at hold
      rw [← hold] at hnew
      exact hne (eq_of_replaced hnew.symm).symm
  · refine ⟨by rw [insertBefore_snd, List.any_eq_true], fun _ pre n post h => ?_⟩
    have hle := q.length_items_le
    by_cases hfront : pre = [] ∧ q.items.length = q.limit
    · obtain ⟨rfl, hfull⟩ := hfront
      have hitem : n = item := by
        by_contra hne
        exact hcond ⟨hfull, n, by simp [h.split], h.found, hne⟩
      refine ⟨[], post, ?_, .inr ⟨by rw [h.split]; rfl, .inl rfl⟩⟩
      rw [h.insertBefore, List.nil_append, ← Infra.tail_eq_rtake, hitem]
      · rfl
      · rw [List.length_cons, ← hfull, h.split]
        rfl
    · have hroom : pre ≠ [] ∨ (pre ++ n :: post).length < q.limit := by
        rw [← h.split]
        by_cases hpre : pre = []
        · exact .inr (Nat.lt_of_le_of_ne hle fun hfull => hfront ⟨hpre, hfull⟩)
        · exact .inl hpre
      rw [h.split] at hle
      obtain ⟨front, hnew, hkept⟩ := rtake_insert item hle hroom
      refine ⟨front, n :: post, by rw [h.insertBefore, hnew], ?_⟩
      rw [h.split]
      exact hkept.imp (fun hold => ⟨hold, rfl⟩) fun hold => ⟨hold, .inr rfl⟩

/-- The oldest of two items in a queue for two. -/
theorem insertBefore_refused :
    let q : LimitedQueue Nat := (((new 2).pushBack 1).1.pushBack 2).1
    (q.insertBefore (· == ·) 1 3).2 = true ∧ (q.insertBefore (· == ·) 1 3).1.items = [1, 2] ∧
      ¬ Truthful (· == ·) 1 3 List.cons q (q.insertBefore (· == ·) 1 3) := by
  intro q
  refine ⟨by decide, by decide, fun h => ?_⟩
  obtain ⟨front, back, hnew, -⟩ := h.inserted (by decide) [] 1 [2] ⟨by decide, rfl, nofun⟩
  have hmem : 3 ∈ (q.insertBefore (· == ·) 1 3).1.items := by simp [hnew]
  revert hmem
  decide

end LimitedQueue

end Dankerino
