import Dankerino.Widgets.Scrollbar
import Mathlib.Tactic.Linarith
import Mathlib.Tactic.Positivity

/-!
# The message at the top of a view

* `Anchored` says that a view shows the same message at its top before and after an event.
* `Regular` is the condition of an event. The position is corrected while the range of the scrollbar is
  still the old one, and by the number of messages that were offered at the start.
* `anchored_of_regular`: in a run of regular events every event keeps the message.
-/

namespace Dankerino

open Infra

namespace ScrollView

/-- The message at the scroll position. -/
def anchor (s : ScrollView) : Option Layout := s.messages_.items[⌊s.currentValue_⌋₊]?

/-- It is the same message, or the oldest one if it was evicted. -/
def Anchored (s s' : ScrollView) : Prop :=
  ∀ m, s.anchor = some m →
    if m ∈ s'.messages_.items then s'.anchor = some m else ⌊s'.currentValue_⌋₊ = 0

/-- A view with its scrollbar up to date and at rest. -/
structure Rest (s : ScrollView) : Prop where
  minimum : s.minimum_ = 0
  maximum : s.maximum_ = s.messages_.items.length
  page : s.pageSize = some s.largeChange_
  nonneg : 0 ≤ s.desiredValue_
  /-- The two values are the same up to what the scrollbar tolerates at the top. -/
  near : s.currentValue_ = s.desiredValue_ ∨
    s.desiredValue_ = 0 ∧ 0 ≤ s.currentValue_ ∧ s.currentValue_ ≤ tolerance
  nodup : s.messages_.items.Nodup

/-- The events that keep the message. The new position is inside the old range and not at its end, and
all of the messages for the start fit. -/
def Regular (s : ScrollView) : Event → Prop
  | .append _ =>
    s.messages_.items.length = s.messages_.limit →
      s.desiredValue_ ≤ tolerance ∨
        max 0 (s.desiredValue_ - 1) + tolerance < s.maximum_ - s.largeChange_
  | .addAtStart messages =>
    min messages.length (s.messages_.limit - s.messages_.items.length) = 0 ∨
      messages.length ≤ s.messages_.limit - s.messages_.items.length ∧
        s.desiredValue_ + messages.length + tolerance < s.maximum_ - s.largeChange_

/-! ## Pages -/

/-- Less height is used up by the same messages. -/
theorem largeChange_isSome_of_le {l : List Layout} {h h' : Int} {k k' : Nat} (hle : h' ≤ h)
    (hsome : (largeChange h k l).isSome) : (largeChange h' k' l).isSome := by
  induction l generalizing h h' k k' with
  | nil => exact hsome
  | cons message l ih =>
    unfold largeChange at hsome ⊢
    dsimp only at hsome ⊢
    by_cases hneg : h' - message.height < 0
    · rw [if_pos hneg]
      rfl
    · rw [if_neg hneg]
      rw [if_neg (by omega)] at hsome
      exact ih (by omega) hsome

/-- The page does not depend on what is further up. -/
theorem largeChange_append {l : List Layout} {h : Int} {k : Nat} {page : Rat}
    (hpage : largeChange h k l = some page) (l' : List Layout) :
    largeChange h k (l ++ l') = some page := by
  induction l generalizing h k with
  | nil => exact nomatch hpage
  | cons message l ih =>
    unfold largeChange at hpage
    rw [List.cons_append]
    unfold largeChange
    dsimp only at hpage ⊢
    split_ifs at hpage ⊢ with hneg
    · exact hpage
    · exact ih hpage

/-- A page that the messages below leave room on holds them all. -/
theorem le_of_largeChange_none {l : List Layout} {x : Layout} {h h' : Int} {k k' : Nat} {page : Rat}
    (hnone : largeChange h k l = none) (hle : h ≤ h') (hnonneg : 0 ≤ h')
    (hpage : largeChange h' k' (l ++ [x]) = some page) : ((k' + l.length : Nat) : Rat) ≤ page := by
  induction l generalizing h h' k k' with
  | nil =>
    simp only [List.nil_append, largeChange] at hpage
    split_ifs at hpage with hneg
    obtain rfl := Option.some.inj hpage
    have hpos : (0 : Rat) < (max 1 x.height : Nat) := by
      have : 0 < max 1 x.height := by omega
      exact_mod_cast this
    have hdiv : (-1 : Rat) ≤ ((h' - x.height : Int) : Rat) / (max 1 x.height : Nat) := by
      rw [le_div_iff₀ hpos]
      have : -(max 1 x.height : Nat) ≤ h' - (x.height : Int) := by omega
      have : ((-(max 1 x.height : Nat) : Int) : Rat) ≤ ((h' - x.height : Int) : Rat) := by
        exact_mod_cast this
      push_cast at this ⊢
      linarith
    simp only [List.length_nil, Nat.add_zero]
    push_cast at hdiv ⊢
    linarith
  | cons message l ih =>
    rw [List.cons_append] at hpage
    unfold largeChange at hnone hpage
    dsimp only at hnone hpage
    split_ifs at hnone with hneg
    rw [if_neg (by omega)] at hpage
    have hrest := ih hnone (by omega) (by omega) hpage
    rw [List.length_cons]
    have hlength : k' + 1 + l.length = k' + (l.length + 1) := by omega
    rwa [hlength] at hrest

/-! ## Layout and values -/

section Values

variable {s : ScrollView} {set : Rat → ScrollView → Option ScrollView}

/-- A layout that the scrollbar causes while the view is scrolled up only brings it up to date. -/
theorem performLayout_caused (hbottom : s.atBottom_ = false) (hvisible : s.visible = true)
    (hne : s.messages_.items ≠ []) :
    performLayout set true s = some { s with
      showingLatestMessages_ := false
      largeChange_ := s.pageSize.getD s.largeChange_
      visible := s.pageSize.isSome
      maximum_ := s.messages_.items.length } := by
  simp [performLayout, updateScrollbar, hbottom, hvisible, hne, pageSize]

/-- So does any layout, as long as there is more than a page. -/
theorem performLayout_page {page : Rat} (hbottom : s.atBottom_ = false) (hvisible : s.visible = true)
    (hpage : s.pageSize = some page) (caused : Bool) :
    performLayout set caused s = some { s with
      showingLatestMessages_ := false
      largeChange_ := page
      visible := true
      maximum_ := s.messages_.items.length } := by
  have hne : s.messages_.items ≠ [] := by
    intro hnil
    simp [pageSize, hnil, largeChange] at hpage
  unfold pageSize at hpage
  simp [performLayout, updateScrollbar, hbottom, hvisible, hne, pageSize, hpage]

theorem clamp_clamp (value : Rat) (s : ScrollView) : s.clamp (s.clamp value) = s.clamp value := by
  unfold clamp
  rcases le_total s.minimum_ (s.maximum_ - s.largeChange_) with hle | hle
  · rw [min_eq_right (max_le hle (min_le_left _ _)), max_eq_right (le_max_left _ _)]
  · rw [max_eq_left ((min_le_left _ value).trans hle), max_eq_left (min_le_left _ _ |>.trans hle)]

theorem setDesiredValue_still {value : Rat} (hstill : |s.desiredValue_ - s.clamp value| ≤ tolerance)
    (fuel : Nat) :
    setDesiredValue (fuel + 1) value s = some { s with desiredValue_ := s.clamp value } := by
  simp [setDesiredValue, not_lt.mpr hstill]

/-- A new value that is not at the end of the range. -/
theorem setDesiredValue_moved (value : Rat) (hvisible : s.visible = true)
    (hne : s.messages_.items ≠ []) (hdesired : tolerance < |s.desiredValue_ - s.clamp value|)
    (hcurrent : tolerance < |s.currentValue_ - s.clamp value|)
    (hup : tolerance < s.maximum_ - s.largeChange_ - s.clamp value) (fuel : Nat) :
    setDesiredValue (fuel + 1) value s = some { s with
      showingLatestMessages_ := false
      largeChange_ := s.pageSize.getD s.largeChange_
      visible := s.pageSize.isSome
      maximum_ := s.messages_.items.length
      atBottom_ := false
      desiredValue_ := s.clamp value
      currentValue_ := s.clamp value } := by
  have hbottom : decide (s.maximum_ - s.largeChange_ - s.clamp value ≤ tolerance) = false :=
    decide_eq_false (not_le.mpr hup)
  have hclamp : clamp (s.clamp value) { s with desiredValue_ := s.clamp value, atBottom_ := false }
      = s.clamp value := clamp_clamp value s
  unfold setDesiredValue setCurrentValue
  simp only [hbottom, hclamp, if_pos hdesired, if_pos hcurrent, gt_iff_lt]
  have hlayout := @performLayout_caused
    { s with desiredValue_ := s.clamp value, currentValue_ := s.clamp value, atBottom_ := false }
    (setDesiredValue fuel) rfl hvisible hne
  simp only [hlayout]
  rfl

/-- The scrollbar goes to the top while it is hidden. -/
theorem setDesiredValue_hidden (hminimum : s.minimum_ = 0) (hpage : s.pageSize = none)
    (hnear : s.currentValue_ = s.desiredValue_ ∨ |s.currentValue_| ≤ tolerance)
    (hvisible : s.visible = false) (fuel : Nat) :
    ∃ s', setDesiredValue (fuel + 1) 0 s = some s' ∧ s'.messages_ = s.messages_ ∧
      s'.visible = false ∧ |s'.currentValue_| ≤ tolerance := by
  have hclamp (t : ScrollView) (ht : t.minimum_ = 0) : t.clamp 0 = 0 := by
    rw [clamp, ht]
    exact max_eq_left (min_le_right _ _)
  have hzero := hclamp s hminimum
  by_cases hstill : |s.desiredValue_ - s.clamp 0| ≤ tolerance
  · refine ⟨_, setDesiredValue_still hstill fuel, rfl, hvisible, ?_⟩
    rw [hzero, sub_zero] at hstill
    rcases hnear with heq | hsmall
    · exact heq ▸ hstill
    · exact hsmall
  rw [not_le, hzero] at hstill
  unfold pageSize at hpage
  unfold setDesiredValue setCurrentValue
  simp only [gt_iff_lt, if_pos hstill, hzero]
  rw [hclamp { s with desiredValue_ := 0, atBottom_ := decide (s.maximum_ - s.largeChange_ - 0 ≤ tolerance) }
    hminimum]
  by_cases hcurrent : tolerance < |s.currentValue_ - 0|
  · have hsmall : |(0 : Rat)| ≤ tolerance := by norm_num [tolerance]
    simp only [if_pos hcurrent, performLayout, updateScrollbar, pageSize, hpage]
    by_cases hnil : s.messages_.items = []
    · simpa [hnil] using hsmall
    · simpa [hnil] using hsmall
  · simp only [if_neg hcurrent]
    refine ⟨_, rfl, rfl, hvisible, ?_⟩
    simpa using hcurrent

/-- Without a page the view goes to the top. -/
theorem performLayout_hidden (hminimum : s.minimum_ = 0) (hne : s.messages_.items ≠ [])
    (hpage : s.pageSize = none) (hnear : s.currentValue_ = s.desiredValue_ ∨ |s.currentValue_| ≤ tolerance)
    (fuel : Nat) :
    ∃ s', performLayout (setDesiredValue (fuel + 1)) false s = some s' ∧ s'.messages_ = s.messages_ ∧
      s'.visible = false ∧ |s'.currentValue_| ≤ tolerance := by
  obtain ⟨s', hs', hmessages, hvisible, hcurrent⟩ := setDesiredValue_hidden (s := { s with
    showingLatestMessages_ := s.atBottom_ || !s.visible, visible := false }) hminimum hpage hnear rfl fuel
  refine ⟨{ s' with maximum_ := s'.messages_.items.length }, ?_, hmessages, hvisible, hcurrent⟩
  unfold pageSize at hpage
  simp [performLayout, updateScrollbar, hne, pageSize, hpage, hs']

end Values

/-! ## What the events leave at the top -/

theorem getElem?_append_of_eq_some {l : List Layout} {i : Nat} {m : Layout} (h : l[i]? = some m)
    (l' : List Layout) : (l ++ l')[i]? = some m := by
  rw [List.getElem?_append_left (List.getElem?_eq_some_iff.mp h).1]
  exact h

theorem Rest.floor_eq {s : ScrollView} (h : Rest s) : ⌊s.currentValue_⌋₊ = ⌊s.desiredValue_⌋₊ := by
  rcases h.near with heq | ⟨hdesired, hnonneg, hle⟩
  · rw [heq]
  · rw [hdesired, Nat.floor_zero, Nat.floor_eq_zero]
    exact hle.trans_lt (by norm_num [tolerance])

theorem Rest.ne_nil {s : ScrollView} (h : Rest s) : s.messages_.items ≠ [] := by
  intro hnil
  have hpage := h.page
  simp [pageSize, hnil, largeChange] at hpage

theorem anchored_of_append {s s' : ScrollView} {new : List Layout}
    (hitems : s'.messages_.items = s.messages_.items ++ new)
    (hfloor : ⌊s'.currentValue_⌋₊ = ⌊s.currentValue_⌋₊) : Anchored s s' := by
  intro m hm
  have hanchor : s'.anchor = some m := by
    rw [anchor, hitems, hfloor]
    exact getElem?_append_of_eq_some hm new
  rw [if_pos (List.mem_of_getElem? hanchor)]
  exact hanchor

theorem anchored_of_prepend {s s' : ScrollView} {new : List Layout}
    (hitems : s'.messages_.items = new ++ s.messages_.items)
    (hfloor : ⌊s'.currentValue_⌋₊ = ⌊s.currentValue_⌋₊ + new.length) : Anchored s s' := by
  intro m hm
  have hanchor : s'.anchor = some m := by
    rw [anchor, hitems, hfloor, List.getElem?_append_right (Nat.le_add_left _ _), Nat.add_sub_cancel]
    exact hm
  rw [if_pos (List.mem_of_getElem? hanchor)]
  exact hanchor

/-- The oldest message is evicted, and the others move up by one. -/
theorem anchored_of_evict {s s' : ScrollView} {oldest message : Layout} {rest : List Layout}
    (hold : s.messages_.items = oldest :: rest) (hitems : s'.messages_.items = rest ++ [message])
    (hnodup : s.messages_.items.Nodup) (hfresh : message ∉ s.messages_.items)
    (hfloor : ⌊s'.currentValue_⌋₊ = ⌊s.currentValue_⌋₊ - 1) : Anchored s s' := by
  intro m hm
  rw [anchor, hold] at hm
  rw [hold] at hnodup hfresh
  cases hindex : ⌊s.currentValue_⌋₊ with
  | zero =>
    rw [hindex] at hm hfloor
    obtain rfl : oldest = m := by simpa using hm
    have hnot : oldest ∉ s'.messages_.items := by
      rw [hitems, List.mem_append, not_or, List.mem_singleton]
      exact ⟨(List.nodup_cons.mp hnodup).1, fun heq => hfresh (heq ▸ List.mem_cons_self)⟩
    rw [if_neg hnot]
    exact hfloor
  | succ i =>
    rw [hindex] at hm hfloor
    have hanchor : s'.anchor = some m := by
      rw [anchor, hitems, hfloor, Nat.add_sub_cancel]
      exact getElem?_append_of_eq_some (by simpa using hm) [message]
    rw [if_pos (List.mem_of_getElem? hanchor)]
    exact hanchor

/-! ## The queue -/

theorem pushBack_room {q : LimitedQueue Layout} (hroom : q.items.length ≠ q.limit) (message : Layout) :
    (q.pushBack message).2 = false ∧ (q.pushBack message).1.items = q.items ++ [message] := by
  have hle := q.length_items_le
  refine ⟨?_, ?_⟩
  · show q.buffer.full = false
    simp [LimitedQueue.full_eq, hroom]
  · rw [LimitedQueue.pushBack_items, rtake_of_length_le]
    rw [List.length_append, List.length_singleton]
    omega

theorem pushBack_full {q : LimitedQueue Layout} {oldest : Layout} {rest : List Layout}
    (hitems : q.items = oldest :: rest) (hfull : q.items.length = q.limit) (message : Layout) :
    (q.pushBack message).2 = true ∧ (q.pushBack message).1.items = rest ++ [message] := by
  refine ⟨?_, ?_⟩
  · show q.buffer.full = true
    simp [LimitedQueue.full_eq, hfull]
  · rw [LimitedQueue.pushBack_items, ← hfull, hitems]
    simp [List.rtake]

/-! ## The events -/

/-- A view whose position is what it should be, before the layout at the end of an event. -/
structure Placed (s : ScrollView) : Prop where
  bottom : s.atBottom_ = false
  visible : s.pageSize.isSome → s.visible = true
  minimum : s.minimum_ = 0
  nonneg : 0 ≤ s.desiredValue_
  near : s.currentValue_ = s.desiredValue_ ∨
    s.desiredValue_ = 0 ∧ 0 ≤ s.currentValue_ ∧ s.currentValue_ ≤ tolerance

theorem Rest.placed {s : ScrollView} (hs : Rest s) (hup : ScrolledUp s) (messages_ : LimitedQueue Layout) :
    Placed { s with messages_ } :=
  ⟨hup.2, fun _ => hup.1, hs.minimum, hs.nonneg, hs.near⟩

/-- The layout leaves the position, or hides the scrollbar. -/
theorem layout_rest {s : ScrollView} (hs : Placed s) (hne : s.messages_.items ≠ [])
    (hnodup : s.messages_.items.Nodup) :
    ∃ s', performLayout (setDesiredValue depth) false s = some s' ∧ s'.messages_ = s.messages_ ∧
      (s.pageSize.isSome ∧ s'.currentValue_ = s.currentValue_ ∧ Rest s' ∨
        s.pageSize = none ∧ ⌊s'.currentValue_⌋₊ = 0 ∧ s'.visible = false) := by
  cases hpage : s.pageSize with
  | some page =>
    have hlayout := @performLayout_page _ (setDesiredValue depth) _ hs.bottom
      (hs.visible (by simp [hpage])) hpage false
    exact ⟨_, hlayout, rfl, .inl ⟨rfl, rfl, hs.minimum, rfl, hpage, hs.nonneg, hs.near, hnodup⟩⟩
  | none =>
    have hsmall : s.currentValue_ = s.desiredValue_ ∨ |s.currentValue_| ≤ tolerance := by
      rcases hs.near with heq | ⟨-, hpos, hle⟩
      · exact .inl heq
      · exact .inr (abs_le.mpr ⟨by linarith, hle⟩)
    obtain ⟨s', hlayout, hmessages, hhidden, hcurrent⟩ :=
      performLayout_hidden hs.minimum hne hpage hsmall 2
    refine ⟨s', hlayout, hmessages, .inr ⟨rfl, ?_, hhidden⟩⟩
    rw [Nat.floor_eq_zero]
    exact (abs_le.mp hcurrent).2.trans_lt (by norm_num [tolerance])

/-- A message is appended to a queue that is not full. Nothing moves. -/
theorem messageAppended_room {s : ScrollView} (hup : ScrolledUp s) (hs : Rest s) {message : Layout}
    (hfresh : message ∉ s.messages_.items) (hroom : s.messages_.items.length ≠ s.messages_.limit) :
    ∃ s', s.messageAppended message = some s' ∧ Anchored s s' ∧ (ScrolledUp s' → Rest s') := by
  obtain ⟨hdeleted, hitems⟩ := pushBack_room hroom message
  have hpage : (pageSize { s with messages_ := (s.messages_.pushBack message).1 }).isSome := by
    have hsome : (largeChange (s.height - 8) 0 s.messages_.items.reverse).isSome :=
      Option.isSome_of_eq_some hs.page
    rw [pageSize, hitems, List.reverse_append]
    show (largeChange (s.height - 8) 0 (message :: s.messages_.items.reverse)).isSome
    unfold largeChange
    dsimp only
    split_ifs
    · rfl
    · exact largeChange_isSome_of_le (by omega) hsome
  obtain ⟨s', hlayout, hmessages, hrest⟩ := layout_rest (hs.placed hup (s.messages_.pushBack message).1)
    (by simp [hitems]) (by simpa [hitems] using hs.nodup.concat hfresh)
  rcases hrest with ⟨-, hcurrent, hrest⟩ | ⟨hnone, -⟩
  · refine ⟨s', ?_, anchored_of_append (by rw [hmessages]; exact hitems) (by rw [hcurrent]), fun _ => hrest⟩
    unfold messageAppended
    simpa [hdeleted, follow] using hlayout
  · rw [hnone] at hpage
    exact nomatch hpage

/-- When everything fits after an eviction, at most one message was above the last page. -/
theorem range_le_one {s : ScrollView} (hs : Rest s) {oldest message : Layout} {rest : List Layout}
    (hitems : s.messages_.items = oldest :: rest)
    (hnone : largeChange (s.height - 8) 0 (message :: rest.reverse) = none) :
    s.maximum_ - s.largeChange_ ≤ 1 := by
  have hpage := hs.page
  rw [pageSize, hitems, List.reverse_cons] at hpage
  unfold largeChange at hnone
  dsimp only at hnone
  split_ifs at hnone with hneg
  have hle := @le_of_largeChange_none rest.reverse oldest _ (s.height - 8) _ _ _ hnone (by omega)
    (by omega) hpage
  rw [hs.maximum, hitems]
  simp only [List.length_reverse, List.length_cons, Nat.zero_add] at hle ⊢
  push_cast
  linarith

/-- Where `offset(-1)` brings a view that is scrolled up. -/
theorem offset_evict {s : ScrollView} (hup : ScrolledUp s) (hs : Rest s) (messages_ : LimitedQueue Layout)
    (hne : messages_.items ≠ [])
    (hregular : s.desiredValue_ ≤ tolerance ∨
      max 0 (s.desiredValue_ - 1) + tolerance < s.maximum_ - s.largeChange_) :
    ∃ s₂, offset (-1) { s with messages_ } = some s₂ ∧ s₂.messages_ = messages_ ∧
      s₂.height = s.height ∧ Placed s₂ ∧ ⌊s₂.currentValue_⌋₊ = ⌊s.currentValue_⌋₊ - 1 := by
  have hnonneg := hs.nonneg
  have htol : tolerance = 1 / 10000 := rfl
  by_cases htop : s.desiredValue_ ≤ tolerance
  · -- the view is at the top and stays there
    have hclamp : clamp (s.desiredValue_ + -1) { s with messages_ } = 0 := by
      rw [clamp, hs.minimum]
      exact max_eq_left ((min_le_right _ _).trans (by linarith))
    have hstill : |s.desiredValue_ - clamp (s.desiredValue_ + -1) { s with messages_ }| ≤ tolerance := by
      rw [hclamp, sub_zero, abs_of_nonneg hnonneg]
      exact htop
    have hcurrent : 0 ≤ s.currentValue_ ∧ s.currentValue_ ≤ tolerance := by
      rcases hs.near with heq | ⟨-, hpos, hle⟩
      · exact heq ▸ ⟨hnonneg, htop⟩
      · exact ⟨hpos, hle⟩
    refine ⟨_, setDesiredValue_still (s := { s with messages_ }) hstill 2, rfl, rfl,
      ⟨hup.2, fun _ => hup.1, hs.minimum, hclamp.ge, .inr ⟨hclamp, hcurrent⟩⟩, ?_⟩
    have hfloor : ⌊s.currentValue_⌋₊ = 0 := Nat.floor_eq_zero.mpr (by linarith [hcurrent.2])
    show ⌊s.currentValue_⌋₊ = ⌊s.currentValue_⌋₊ - 1
    rw [hfloor]
  · have hup' := hregular.resolve_left htop
    rw [not_le] at htop
    have hclamp : clamp (s.desiredValue_ + -1) { s with messages_ } = max 0 (s.desiredValue_ - 1) := by
      rw [clamp, hs.minimum, ← sub_eq_add_neg, min_eq_right]
      exact (le_max_right 0 _).trans (by linarith)
    have hmoved : tolerance < |s.desiredValue_ - max 0 (s.desiredValue_ - 1)| := by
      rw [lt_abs]
      left
      rcases le_total (s.desiredValue_ - 1) 0 with hle | hle
      · rw [max_eq_left hle]
        linarith
      · rw [max_eq_right hle]
        linarith
    have hcurrent : tolerance < |s.currentValue_ - max 0 (s.desiredValue_ - 1)| := by
      rcases hs.near with heq | ⟨hzero, -⟩
      · rwa [heq]
      · linarith
    have hset := setDesiredValue_moved (s := { s with messages_ }) (s.desiredValue_ + -1) hup.1 hne
      (by rw [hclamp]; exact hmoved) (by rw [hclamp]; exact hcurrent)
      (by rw [hclamp]; show tolerance < s.maximum_ - s.largeChange_ - _; linarith) 2
    refine ⟨_, hset, rfl, rfl, ⟨rfl, fun h => h, hs.minimum, ?_, .inl rfl⟩, ?_⟩
    · rw [hclamp]
      exact le_max_left _ _
    · show ⌊clamp (s.desiredValue_ + -1) { s with messages_ }⌋₊ = _
      rw [hclamp, hs.floor_eq, ← Nat.floor_sub_one]
      rcases le_total (s.desiredValue_ - 1) 0 with hle | hle
      · rw [max_eq_left hle, Nat.floor_zero, Nat.floor_of_nonpos hle]
      · rw [max_eq_right hle]

/-- A message is appended to a full queue. The position goes up by one with the messages. -/
theorem messageAppended_full {s : ScrollView} (hup : ScrolledUp s) (hs : Rest s) {message : Layout}
    (hfresh : message ∉ s.messages_.items) (hfull : s.messages_.items.length = s.messages_.limit)
    (hregular : s.desiredValue_ ≤ tolerance ∨
      max 0 (s.desiredValue_ - 1) + tolerance < s.maximum_ - s.largeChange_) :
    ∃ s', s.messageAppended message = some s' ∧ Anchored s s' ∧ (ScrolledUp s' → Rest s') := by
  obtain ⟨oldest, rest, hold⟩ := List.exists_cons_of_ne_nil hs.ne_nil
  obtain ⟨hdeleted, hitems⟩ := pushBack_full hold hfull message
  have hnodup : (rest ++ [message]).Nodup := by
    have hall := hs.nodup
    rw [hold] at hall hfresh
    rw [← List.concat_eq_append]
    exact (List.nodup_cons.mp hall).2.concat fun hmem => hfresh (List.mem_cons_of_mem _ hmem)
  obtain ⟨s₂, hoffset, hmessages, hheight, hplaced, hfloor⟩ :=
    offset_evict hup hs (s.messages_.pushBack message).1 (by simp [hitems]) hregular
  have hitems₂ : s₂.messages_.items = rest ++ [message] := by rw [hmessages, hitems]
  obtain ⟨s', hlayout, hmessages', hrest⟩ := layout_rest hplaced (by simp [hitems₂]) (by rwa [hitems₂])
  have happended : s.messageAppended message = some s' := by
    have hfollow : follow true (-1) { s with messages_ := (s.messages_.pushBack message).1 } = some s₂ := by
      unfold follow
      rwa [if_pos rfl, if_neg (by simp [hup.2])]
    unfold messageAppended
    simpa [hdeleted, hfollow] using hlayout
  have hitems' : s'.messages_.items = rest ++ [message] := by rw [hmessages', hitems₂]
  rcases hrest with ⟨-, hcurrent, hrest⟩ | ⟨hnone, hzero, hhidden⟩
  · refine ⟨s', happended, ?_, fun _ => hrest⟩
    exact anchored_of_evict hold hitems' hs.nodup hfresh (by rw [hcurrent, hfloor])
  · refine ⟨s', happended, ?_, fun h => ?_⟩
    · -- everything fits, so the position was in one of the first two messages
      have hrange : s.maximum_ - s.largeChange_ ≤ 1 := by
        apply range_le_one hs hold
        rw [pageSize, hheight, hitems₂, List.reverse_append] at hnone
        exact hnone
      have hlt : s.desiredValue_ < 2 := by
        rcases hregular with hle | hlt
        · exact hle.trans_lt (by norm_num [tolerance])
        · have htol : tolerance = 1 / 10000 := rfl
          linarith [le_max_right 0 (s.desiredValue_ - 1)]
      have hfloor₁ : ⌊s.currentValue_⌋₊ < 2 := by
        rw [hs.floor_eq, Nat.floor_lt hs.nonneg]
        exact_mod_cast hlt
      exact anchored_of_evict hold hitems' hs.nodup hfresh (by omega)
    · rw [h.1] at hhidden
      exact nomatch hhidden

/-- Where `offset` brings a view that is scrolled up when the position stays off the end of the range. -/
theorem offset_added {s : ScrollView} (hup : ScrolledUp s) (hs : Rest s) {messages_ : LimitedQueue Layout}
    (hne : messages_.items ≠ []) {n : Nat} (hpos : 0 < n)
    (hrange : s.desiredValue_ + n + tolerance < s.maximum_ - s.largeChange_) :
    ∃ s₂, offset n { s with messages_ } = some s₂ ∧ s₂.messages_ = messages_ ∧
      s₂.height = s.height ∧ Placed s₂ ∧ ⌊s₂.currentValue_⌋₊ = ⌊s.currentValue_⌋₊ + n := by
  have hnonneg := hs.nonneg
  have htol : tolerance = 1 / 10000 := rfl
  have hone : (1 : Rat) ≤ n := by exact_mod_cast hpos
  have hclamp : clamp (s.desiredValue_ + n) { s with messages_ } = s.desiredValue_ + n := by
    rw [clamp, hs.minimum, min_eq_right (by linarith), max_eq_right (by linarith)]
  have hmoved : tolerance < |s.desiredValue_ - (s.desiredValue_ + n)| := by
    rw [abs_sub_comm, lt_abs]
    left
    linarith
  have hcurrent : tolerance < |s.currentValue_ - (s.desiredValue_ + n)| := by
    rcases hs.near with heq | ⟨-, -, hle⟩
    · rwa [heq]
    · rw [abs_sub_comm, lt_abs]
      left
      linarith
  have hset := setDesiredValue_moved (s := { s with messages_ }) (s.desiredValue_ + n) hup.1 hne
    (by rw [hclamp]; exact hmoved) (by rw [hclamp]; exact hcurrent)
    (by rw [hclamp]; show tolerance < s.maximum_ - s.largeChange_ - _; linarith) 2
  refine ⟨_, hset, rfl, rfl, ⟨rfl, fun h => h, hs.minimum, ?_, .inl rfl⟩, ?_⟩
  · rw [hclamp]
    linarith
  · show ⌊clamp (s.desiredValue_ + n) { s with messages_ }⌋₊ = _
    rw [hclamp, hs.floor_eq, Nat.floor_add_natCast hnonneg]

/-- Messages are added at the start, and as many as are offered or none. -/
theorem messageAddedAtStart_step {s : ScrollView} (hup : ScrolledUp s) (hs : Rest s)
    {messages : List Layout} (hfresh : Fresh s (.addAtStart messages))
    (hregular : Regular s (.addAtStart messages)) :
    ∃ s', s.messageAddedAtStart messages = some s' ∧ Anchored s s' ∧ (ScrolledUp s' → Rest s') := by
  obtain ⟨messages_, hpush, -, hitems⟩ := s.messages_.pushFront_eq messages
  generalize hpushed : messages.drop (messages.length -
    min messages.length (s.messages_.limit - s.messages_.items.length)) = pushed at hpush hitems
  have hne : messages_.items ≠ [] := by
    rw [hitems]
    exact List.append_ne_nil_of_right_ne_nil _ hs.ne_nil
  have hnodup : messages_.items.Nodup := by
    rw [hitems, ← hpushed]
    refine List.Nodup.append (hfresh.1.sublist (List.drop_sublist _ _)) hs.nodup ?_
    exact fun m hm => hfresh.2 m (List.mem_of_mem_drop hm)
  -- the page at the end is the same
  have hpage {s₂ : ScrollView} (hheight : s₂.height = s.height) (hmessages : s₂.messages_ = messages_) :
      s₂.pageSize.isSome := by
    rw [pageSize, hheight, hmessages, hitems, List.reverse_append, largeChange_append hs.page]
    rfl
  have hplace : ∃ s₂, follow (pushed.length > 0) messages.length { s with messages_ } = some s₂ ∧
      s₂.messages_ = messages_ ∧ s₂.height = s.height ∧ Placed s₂ ∧
      ⌊s₂.currentValue_⌋₊ = ⌊s.currentValue_⌋₊ + pushed.length := by
    rcases hregular with hnone | ⟨hroom, hrange⟩
    · have hnil : pushed = [] := by
        rw [← hpushed, hnone]
        simp
      subst hnil
      exact ⟨{ s with messages_ }, rfl, rfl, rfl, hs.placed hup messages_, rfl⟩
    · have hall : pushed = messages := by
        rw [← hpushed, Nat.min_eq_left hroom]
        simp
      subst hall
      by_cases hpos : 0 < pushed.length
      · have hadded := offset_added hup hs hne hpos hrange
        unfold follow
        rwa [if_pos (by simpa using hpos), if_neg (by simp [hup.2])]
      · refine ⟨{ s with messages_ }, by simp [follow, hpos], rfl, rfl, hs.placed hup messages_, ?_⟩
        rw [Nat.eq_zero_of_not_pos hpos]
        rfl
  obtain ⟨s₂, hmoved, hmessages, hheight, hplaced, hfloor⟩ := hplace
  obtain ⟨s', hlayout, hmessages', hrest⟩ := layout_rest hplaced (by rwa [hmessages]) (by rwa [hmessages])
  rcases hrest with ⟨-, hcurrent, hrest⟩ | ⟨hnone, -⟩
  · refine ⟨s', ?_, ?_, fun _ => hrest⟩
    · unfold messageAddedAtStart
      simp only [hpush, hmoved, Option.bind_eq_bind, Option.bind_some]
      exact hlayout
    · exact anchored_of_prepend (by rw [hmessages', hmessages, hitems]) (by rw [hcurrent, hfloor])
  · have hsome := hpage hheight hmessages
    rw [hnone] at hsome
    exact nomatch hsome

/-! ## Runs -/

theorem step_regular {s : ScrollView} {e : Event} (hup : ScrolledUp s) (hs : Rest s) (hfresh : Fresh s e)
    (hregular : Regular s e) : ∃ s', Step s e s' ∧ Anchored s s' ∧ (ScrolledUp s' → Rest s') := by
  cases e with
  | append message =>
    by_cases hfull : s.messages_.items.length = s.messages_.limit
    · obtain ⟨s', happly, h⟩ := messageAppended_full hup hs hfresh hfull (hregular hfull)
      exact ⟨s', ⟨hup, hfresh, happly⟩, h⟩
    · obtain ⟨s', happly, h⟩ := messageAppended_room hup hs hfresh hfull
      exact ⟨s', ⟨hup, hfresh, happly⟩, h⟩
  | addAtStart messages =>
    obtain ⟨s', happly, h⟩ := messageAddedAtStart_step hup hs hfresh hregular
    exact ⟨s', ⟨hup, hfresh, happly⟩, h⟩

theorem Step.deterministic {s s' s'' : ScrollView} {e : Event} (h : Step s e s') (h' : Step s e s'') :
    s' = s'' :=
  Option.some.inj (h.2.2.symm.trans h'.2.2)

/--
**The scroll anchor.** In every run of regular events on a view that is scrolled up, each event keeps
the message at the scroll position, or leaves the oldest one there if it was evicted. Such an event
never gets stuck.
-/
theorem anchored_of_regular {s₀ s : ScrollView} (hrest : Rest s₀) {events : List Event}
    (hrun : Run (fun s e s' => Step s e s' ∧ Regular s e) s₀ events s) :
    Run (fun s e s' => Step s e s' ∧ Anchored s s') s₀ events s ∧
      ∀ e, ScrolledUp s → Fresh s e → Regular s e → ∃ s', Step s e s' ∧ Anchored s s' := by
  have hinv : ScrolledUp s₀ → Rest s₀ := fun _ => hrest
  clear hrest
  induction hrun with
  | nil s =>
    refine ⟨.nil s, fun e hup hfresh hregular => ?_⟩
    obtain ⟨s', hstep, hanchored, -⟩ := step_regular hup (hinv hup) hfresh hregular
    exact ⟨s', hstep, hanchored⟩
  | @cons s s₁ s₂ e events hstep _ ih =>
    obtain ⟨hstep, hregular⟩ := hstep
    obtain ⟨s', hstep', hanchored, hrest⟩ := step_regular hstep.1 (hinv hstep.1) hstep.2.1 hregular
    obtain rfl := hstep.deterministic hstep'
    obtain ⟨hrun, hnext⟩ := ih hrest
    exact ⟨.cons ⟨hstep, hanchored⟩ hrun, hnext⟩

/-- A view of ten messages, five to a page, that is scrolled to the position. -/
def scrolledTo (position : Rat) (limit : Nat) : ScrollView where
  messages_ := (List.range 10).foldl (fun q addr => (q.pushBack ⟨addr, 10⟩).1) (.new limit)
  height := 58
  visible := true
  maximum_ := 10
  largeChange_ := 5
  desiredValue_ := position
  currentValue_ := position

/-- There is room for two messages at the start. -/
theorem anchored_of_regular_two :
    ∃ s, Run (fun s e s' => Step s e s' ∧ Anchored s s') (scrolledTo 1 20)
        [.addAtStart [⟨10, 10⟩, ⟨11, 10⟩]] s ∧ s.currentValue_ = 3 := by
  have hrest : Rest (scrolledTo 1 20) :=
    ⟨rfl, by decide +kernel, by decide +kernel, by decide +kernel, .inl rfl, by decide +kernel⟩
  have happly : (apply (scrolledTo 1 20) (.addAtStart [⟨10, 10⟩, ⟨11, 10⟩])).map currentValue_ = some 3 := by
    decide +kernel
  obtain ⟨s, hs, hcurrent⟩ := Option.map_eq_some_iff.mp happly
  have hstep : Step (scrolledTo 1 20) (.addAtStart [⟨10, 10⟩, ⟨11, 10⟩]) s :=
    ⟨⟨rfl, rfl⟩, by unfold Fresh; decide +kernel, hs⟩
  have hregular : Regular (scrolledTo 1 20) (.addAtStart [⟨10, 10⟩, ⟨11, 10⟩]) :=
    .inr ⟨by decide +kernel, by decide +kernel⟩
  exact ⟨s, (anchored_of_regular hrest (.single ⟨hstep, hregular⟩)).1, hcurrent⟩

/-- The position and the messages are not those of a view that is anchored. -/
theorem not_anchored_of {s s' : ScrollView} {m : Layout} {shown : Rat × List Layout}
    (hanchor : s.anchor = some m) (hshown : (s'.currentValue_, s'.messages_.items) = shown)
    (hmem : m ∈ shown.2) (hne : shown.2[⌊shown.1⌋₊]? ≠ some m) : ¬ Anchored s s' := by
  subst hshown
  intro h
  have hanchored := h m hanchor
  rw [if_pos hmem] at hanchored
  exact hne hanchored

/--
Ten messages for the start bring the view to the bottom, which is where the old range ends. And where
only two of three messages fit, the position goes down by three.
-/
theorem not_anchored :
    (∃ s, Rest (scrolledTo 2 20) ∧
      Step (scrolledTo 2 20) (.addAtStart ((List.range 10).map fun i => ⟨i + 10, 10⟩)) s ∧
      ¬ Anchored (scrolledTo 2 20) s) ∧
    ∃ s, Rest (scrolledTo 1 12) ∧
      Step (scrolledTo 1 12) (.addAtStart [⟨10, 10⟩, ⟨11, 10⟩, ⟨12, 10⟩]) s ∧
      ¬ Anchored (scrolledTo 1 12) s := by
  constructor
  · have happly : (apply (scrolledTo 2 20) (.addAtStart ((List.range 10).map fun i => ⟨i + 10, 10⟩))).map
        (fun s => (s.currentValue_, s.messages_.items))
        = some (15, ((List.range 10).map fun i => ⟨i + 10, 10⟩) ++ (List.range 10).map fun i => ⟨i, 10⟩) := by
      decide +kernel
    obtain ⟨s, hs, hshown⟩ := Option.map_eq_some_iff.mp happly
    refine ⟨s, ⟨rfl, by decide +kernel, by decide +kernel, by decide +kernel, .inl rfl, by decide +kernel⟩,
      ⟨⟨rfl, rfl⟩, by unfold Fresh; decide +kernel, hs⟩, ?_⟩
    exact not_anchored_of (m := ⟨2, 10⟩) (by decide +kernel) hshown (by decide +kernel) (by decide +kernel)
  · have happly : (apply (scrolledTo 1 12) (.addAtStart [⟨10, 10⟩, ⟨11, 10⟩, ⟨12, 10⟩])).map
        (fun s => (s.currentValue_, s.messages_.items))
        = some (4, [⟨11, 10⟩, ⟨12, 10⟩] ++ (List.range 10).map fun i => ⟨i, 10⟩) := by
      decide +kernel
    obtain ⟨s, hs, hshown⟩ := Option.map_eq_some_iff.mp happly
    refine ⟨s, ⟨rfl, by decide +kernel, by decide +kernel, by decide +kernel, .inl rfl, by decide +kernel⟩,
      ⟨⟨rfl, rfl⟩, by unfold Fresh; decide +kernel, hs⟩, ?_⟩
    exact not_anchored_of (m := ⟨1, 10⟩) (by decide +kernel) hshown (by decide +kernel) (by decide +kernel)

end ScrollView

end Dankerino
