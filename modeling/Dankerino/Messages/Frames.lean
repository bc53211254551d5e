import Dankerino.Infra.Termination
import Mathlib.Algebra.Order.Ring.Int

/-!
# Animated images

`Frames` of `messages/Image.cpp`: the frames of an image, the one that is shown, and for how long it has been
shown. All images are advanced by one timer. Where an image starts depends on the position of the timer, so
that copies of an animation show the same frame (`after_in_phase`), unless the animation is longer than a
minute.

The position of the timer is a number without a bound. In the source it is an `unsigned long`, whose wrap
is left out.
-/

namespace Dankerino

open Infra StateTransition

/-- Milliseconds from one tick of the timer to the next. -/
def gifFrameLength : Nat := 33

structure Frames.Frame (α : Type) where
  image : α
  duration : Int

structure Frames (α : Type) where
  items : List (Frames.Frame α)
  index : Nat
  durationOffset : Int

namespace Frames

variable {α : Type}

/-- The duration of a frame. -/
def durationAt (items : List (Frame α)) (k : Nat) : Int := (items[k]?.map Frame.duration).getD 0

/-- A round of the loop of `processOffset`, with `none` for the `break`. -/
def step (s : Frames α) : Option (Frames α) :=
  let index := s.index % s.items.length
  if s.durationOffset > durationAt s.items index then
    some { s with
      index := (index + 1) % s.items.length
      durationOffset := s.durationOffset - durationAt s.items index }
  else none

def processOffset (s : Frames α) : Part (Frames α) :=
  if s.items.isEmpty then .some s
  else (eval step s).map fun s => { s with index := s.index % s.items.length }

/-- The sum of the durations. It is an `unsigned long`, which has room for as many `int`s as a vector holds. -/
def totalLength (items : List (Frame α)) : Nat := (items.map Frame.duration).sum.toNat

/-- The constructor, at a position of the timer. -/
def new (items : List (Frame α)) (position : Nat) : Part (Frames α) :=
  processOffset {
    items
    index := 0
    durationOffset :=
      if totalLength items = 0 then 0
      else min (Int.bmod (position % totalLength items : Nat) 4294967296) 60000 }

/-- The offset is added to as an `unsigned long` and kept as an `int`. -/
def advance (s : Frames α) : Part (Frames α) :=
  processOffset { s with durationOffset := Int.bmod (s.durationOffset + gifFrameLength) 4294967296 }

def current (s : Frames α) : Option α := s.items[s.index]?.map Frame.image

/-- The frames after a number of ticks. -/
def after (items : List (Frame α)) (position : Nat) : Nat → Part (Frames α)
  | 0 => new items position
  | n + 1 => (after items position n).bind advance

/-! ## Places on the time line -/

/-- Where a frame starts. -/
def startOf (items : List (Frame α)) (k : Nat) : Int := ((items.map Frame.duration).take k).sum

/-- The frame is the one at a place. -/
structure ShownAt (items : List (Frame α)) (x : Int) (k : Nat) : Prop where
  start : startOf items k < x
  stop : x ≤ startOf items (k + 1)

/-- Frames that are shown for some time, which fits in the offset after one more tick. -/
def Timed (items : List (Frame α)) : Prop :=
  ∀ frame ∈ items, 0 < frame.duration ∧ frame.duration ≤ 2147483647 - gifFrameLength

section Places

variable {items : List (Frame α)} {k : Nat}

theorem startOf_succ (items : List (Frame α)) (k : Nat) :
    startOf items (k + 1) = startOf items k + durationAt items k := by
  rw [startOf, startOf, List.take_add_one, List.sum_append, List.getElem?_map, durationAt]
  cases items[k]? with
  | none => rfl
  | some frame => simp

theorem durationAt_of_lt (h : Timed items) (hk : k < items.length) :
    0 < durationAt items k ∧ durationAt items k ≤ 2147483647 - gifFrameLength := by
  rw [durationAt, List.getElem?_eq_getElem hk]
  exact h _ (List.getElem_mem hk)

theorem durationAt_nonneg (h : Timed items) (k : Nat) : 0 ≤ durationAt items k := by
  rcases Nat.lt_or_ge k items.length with hk | hk
  · exact Int.le_of_lt (durationAt_of_lt h hk).1
  · rw [durationAt, List.getElem?_eq_none hk]
    exact Int.le_refl 0

theorem startOf_mono (h : Timed items) {j : Nat} (hjk : j ≤ k) : startOf items j ≤ startOf items k := by
  induction hjk with
  | refl => exact Int.le_refl _
  | step _ ih =>
    rw [startOf_succ]
    exact Int.le_trans ih (Int.le_add_of_nonneg_right (durationAt_nonneg h _))

theorem startOf_length (h : Timed items) : startOf items items.length = totalLength items := by
  have hzero : startOf items 0 = 0 := rfl
  have hnonneg := startOf_mono h (Nat.zero_le items.length)
  rw [hzero] at hnonneg
  have hall : (items.map Frame.duration).take items.length = items.map Frame.duration :=
    List.take_of_length_le (Nat.le_of_eq (List.length_map _))
  rw [startOf, hall] at hnonneg ⊢
  exact (Int.toNat_of_nonneg hnonneg).symm

/-- There is one frame at a place. -/
theorem ShownAt.unique (h : Timed items) {x : Int} {j : Nat} (hk : ShownAt items x k)
    (hj : ShownAt items x j) : k = j := by
  rcases Nat.lt_trichotomy k j with hlt | heq | hlt
  · have hle := startOf_mono h hlt
    exact absurd (Int.lt_of_lt_of_le hj.start hk.stop) (Int.not_lt.mpr hle)
  · exact heq
  · have hle := startOf_mono h hlt
    exact absurd (Int.lt_of_lt_of_le hk.start hj.stop) (Int.not_lt.mpr hle)

end Places

/-! ## The loop -/

/-- Where the offset points to. -/
def place (s : Frames α) : Int := startOf s.items s.index + s.durationOffset

/-- The loop has ended at a frame, and the offset points to where it did, some rounds ago. -/
structure Settled (s s' : Frames α) : Prop where
  items : s'.items = s.items
  index : s'.index < s'.items.length
  stop : s'.durationOffset ≤ durationAt s'.items s'.index
  place : ∃ rounds : Int, s.place = s'.place + totalLength s.items * rounds
  pos : 0 < s.durationOffset → 0 < s'.durationOffset
  nonneg : 0 ≤ s.durationOffset → 0 ≤ s'.durationOffset

section Loop

variable {s s' : Frames α}

/-- A round moves the offset to the next frame. -/
theorem step_spec (h : Timed s.items) (hindex : s.index < s.items.length)
    (hlonger : durationAt s.items s.index < s.durationOffset) :
    ∃ s', step s = some s' ∧ s'.items = s.items ∧ s'.index < s'.items.length ∧ 0 < s'.durationOffset ∧
      s'.durationOffset < s.durationOffset ∧
      ∃ rounds : Int, s.place = s'.place + totalLength s.items * rounds := by
  have hmod := Nat.mod_eq_of_lt hindex
  have hduration := (durationAt_of_lt h hindex).1
  have hpos : 0 < s.items.length := Nat.zero_lt_of_lt hindex
  have hstep : step s = some { s with
      index := (s.index + 1) % s.items.length
      durationOffset := s.durationOffset - durationAt s.items s.index } := by
    rw [step, hmod]
    exact if_pos hlonger
  refine ⟨_, hstep, rfl, Nat.mod_lt _ hpos, Int.sub_pos.mpr hlonger, by dsimp only; omega, ?_⟩
  have hsucc := startOf_succ s.items s.index
  dsimp only [place]
  rcases Nat.lt_or_eq_of_le (Nat.succ_le_of_lt hindex) with hlt | heq
  · refine ⟨0, ?_⟩
    have hmod' : (s.index + 1) % s.items.length = s.index + 1 := Nat.mod_eq_of_lt hlt
    rw [hmod']
    omega
  · -- the last frame is followed by the first one
    refine ⟨1, ?_⟩
    have heq : s.index + 1 = s.items.length := heq
    have hzero : startOf s.items 0 = 0 := rfl
    rw [heq, startOf_length h] at hsucc
    rw [heq, Nat.mod_self, hzero]
    omega

theorem exists_eval (h : Timed s.items) (hindex : s.index < s.items.length) :
    ∃ s' ∈ eval step s, Settled s s' := by
  induction hn : s.durationOffset.toNat using Nat.strongRecOn generalizing s with
  | ind n ih =>
    by_cases hlonger : durationAt s.items s.index < s.durationOffset
    · obtain ⟨s₁, hstep, hitems, hindex₁, hpos₁, hless, rounds, hplace⟩ := step_spec h hindex hlonger
      obtain ⟨s', hs', hsettled⟩ := ih _ (by omega) (hitems ▸ h) hindex₁ rfl
      refine ⟨s', ?_, hsettled.items.trans hitems, hsettled.index, hsettled.stop, ?_,
        fun _ => hsettled.pos hpos₁, fun _ => Int.le_of_lt (hsettled.pos hpos₁)⟩
      · rwa [reaches_eval (.single hstep)]
      · obtain ⟨rounds', hplace'⟩ := hsettled.place
        rw [hitems] at hplace'
        exact ⟨rounds' + rounds, by rw [hplace, hplace', Int.mul_add, Int.add_assoc]⟩
    · have hnone : step s = none := by
        rw [step, Nat.mod_eq_of_lt hindex]
        exact if_neg hlonger
      exact ⟨s, mem_eval.mpr ⟨.refl, hnone⟩, rfl, hindex, Int.not_lt.mp hlonger,
        ⟨0, by rw [Int.mul_zero, Int.add_zero]⟩, id, id⟩

/-- The loop ends at once. -/
theorem mem_processOffset_of_stop (hstop : step s = none) (hindex : s.index < s.items.length) :
    s ∈ processOffset s := by
  have hne : s.items.isEmpty = false := by
    rw [List.isEmpty_eq_false_iff, ← List.length_pos_iff]
    exact Nat.zero_lt_of_lt hindex
  rw [processOffset, hne]
  refine (Part.mem_map_iff _).mpr ⟨s, mem_eval.mpr ⟨.refl, hstop⟩, ?_⟩
  rw [Nat.mod_eq_of_lt hindex]

theorem exists_processOffset (h : Timed s.items) (hindex : s.index < s.items.length) :
    ∃ s' ∈ processOffset s, Settled s s' := by
  obtain ⟨s', hs', hsettled⟩ := exists_eval h hindex
  have hne : s.items.isEmpty = false := by
    rw [List.isEmpty_eq_false_iff, ← List.length_pos_iff]
    exact Nat.zero_lt_of_lt hindex
  refine ⟨s', ?_, hsettled⟩
  rw [processOffset, hne]
  refine (Part.mem_map_iff _).mpr ⟨s', hs', ?_⟩
  rw [Nat.mod_eq_of_lt hsettled.index]

end Loop

/-! ## Ticks -/

section Ticks

variable {items : List (Frame α)} {position n : Nat}

/-- The offset at the start. -/
def startOffset (items : List (Frame α)) (position : Nat) : Int :=
  min ((position % totalLength items : Nat) : Int) 60000

/-- The frames after some ticks. -/
structure Ticked (items : List (Frame α)) (position n : Nat) (s : Frames α) : Prop where
  same : s.items = items
  index : s.index < items.length
  nonneg : 0 ≤ s.durationOffset
  stop : s.durationOffset ≤ durationAt items s.index
  place : ∃ rounds : Int, startOffset items position + n * gifFrameLength
    = s.place + totalLength items * rounds
  pos : 1 ≤ n → 0 < s.durationOffset

theorem totalLength_pos (h : Timed items) (hne : items ≠ []) : 0 < totalLength items := by
  have hlength := List.length_pos_iff.mpr hne
  have hfirst : startOf items 1 = startOf items 0 + durationAt items 0 := startOf_succ items 0
  have hduration := (durationAt_of_lt h hlength).1
  have hzero : startOf items 0 = 0 := rfl
  have hmono := startOf_mono h (show 1 ≤ items.length from hlength)
  rw [startOf_length h] at hmono
  omega

theorem exists_new (h : Timed items) (hne : items ≠ [])
    (hposition : position % totalLength items < 2147483648) :
    ∃ s ∈ new items position, Ticked items position 0 s := by
  have htotal := totalLength_pos h hne
  have hoffset : (if totalLength items = 0 then 0
      else min (Int.bmod (position % totalLength items : Nat) 4294967296) 60000)
        = startOffset items position := by
    rw [if_neg (Nat.pos_iff_ne_zero.mp htotal), startOffset, Int.bmod_eq_of_le (by omega) (by omega)]
  have hnonneg : 0 ≤ startOffset items position := by
    rw [startOffset]
    omega
  rw [new, hoffset]
  obtain ⟨s, hs, hsettled⟩ := exists_processOffset (s := ⟨items, 0, startOffset items position⟩) h
    (List.length_pos_iff.mpr hne)
  have hsame : s.items = items := hsettled.items
  obtain ⟨rounds, hplace⟩ := hsettled.place
  refine ⟨s, hs, hsame, hsame ▸ hsettled.index, hsettled.nonneg hnonneg, hsame ▸ hsettled.stop,
    ⟨rounds, ?_⟩, fun hone => absurd hone (by decide)⟩
  have hstart : (⟨items, 0, startOffset items position⟩ : Frames α).place
      = startOffset items position := Int.zero_add _
  rw [← hplace, hstart]
  omega

/-- A tick. The offset does not overflow. -/
theorem exists_advance (h : Timed items) {s : Frames α} (hticked : Ticked items position n s) :
    ∃ s' ∈ advance s, Ticked items position (n + 1) s' := by
  obtain ⟨rfl, hindex, hnonneg, hstop, ⟨rounds, hplace⟩, -⟩ := hticked
  have hduration := (durationAt_of_lt h hindex).2
  have hgif : (gifFrameLength : Int) = 33 := rfl
  have hoffset : Int.bmod (s.durationOffset + gifFrameLength) 4294967296
      = s.durationOffset + gifFrameLength := Int.bmod_eq_of_le (by omega) (by omega)
  rw [advance, hoffset]
  obtain ⟨s', hs', hsettled⟩ := exists_processOffset
    (s := ⟨s.items, s.index, s.durationOffset + gifFrameLength⟩) h hindex
  have hsame : s'.items = s.items := hsettled.items
  obtain ⟨rounds', hplace'⟩ := hsettled.place
  have hpos : 0 < s.durationOffset + gifFrameLength := by omega
  refine ⟨s', hs', hsame, hsame ▸ hsettled.index, hsettled.nonneg (Int.le_of_lt hpos),
    hsame ▸ hsettled.stop, ⟨rounds' + rounds, ?_⟩, fun _ => hsettled.pos hpos⟩
  have hnext : (⟨s.items, s.index, s.durationOffset + gifFrameLength⟩ : Frames α).place
      = s.place + gifFrameLength := (Int.add_assoc _ _ _).symm
  have hplace'' : s.place + gifFrameLength = s'.place + totalLength s.items * rounds' := hnext ▸ hplace'
  rw [Int.mul_add, Int.natCast_add, Int.add_mul]
  omega

/-- All ticks. -/
theorem exists_after (h : Timed items) (hne : items ≠ [])
    (hposition : position % totalLength items < 2147483648) (n : Nat) :
    ∃ s ∈ after items position n, Ticked items position n s := by
  induction n with
  | zero => exact exists_new h hne hposition
  | succ n ih =>
    obtain ⟨s, hs, hticked⟩ := ih
    obtain ⟨s', hs', hticked'⟩ := exists_advance h hticked
    exact ⟨s', Part.mem_bind_iff.mpr ⟨s, hs, hs'⟩, hticked'⟩

theorem Ticked.shownAt (h : Timed items) {s : Frames α} (hticked : Ticked items position n s) (hn : 1 ≤ n) :
    ShownAt items ((startOffset items position + n * gifFrameLength - 1) % totalLength items + 1) s.index := by
  obtain ⟨rfl, hindex, hnonneg, hstop, ⟨rounds, hplace⟩, hpos⟩ := hticked
  have hpos := hpos hn
  have hsucc := startOf_succ s.items s.index
  have hzero : startOf s.items 0 = 0 := rfl
  have hfirst := startOf_mono h (Nat.zero_le s.index)
  have hlast : startOf s.items (s.index + 1) ≤ totalLength s.items := by
    rw [← startOf_length h]
    exact startOf_mono h hindex
  have hplace_eq : s.place = startOf s.items s.index + s.durationOffset := rfl
  have hx : (startOffset s.items position + n * gifFrameLength - 1) % totalLength s.items + 1 = s.place := by
    have hsplit : startOffset s.items position + n * gifFrameLength - 1
        = (s.place - 1) + totalLength s.items * rounds := by omega
    rw [hsplit, Int.add_mul_emod_self_left, Int.emod_eq_of_lt (by omega) (by omega)]
    omega
  rw [hx]
  exact ⟨by omega, by omega⟩

/-- Where the animation does not start later than a minute, the place is the one of the timer. -/
theorem emod_startOffset (hposition : position % totalLength items ≤ 60000) :
    (startOffset items position + n * gifFrameLength - 1) % totalLength items
      = ((position + n * gifFrameLength : Nat) - 1 : Int) % totalLength items := by
  have hstart : startOffset items position = (position % totalLength items : Nat) := by
    rw [startOffset]
    omega
  have hdiv : (position : Int) = (position % totalLength items : Nat)
      + totalLength items * (position / totalLength items : Nat) := by
    have hnat := Nat.mod_add_div position (totalLength items)
    exact_mod_cast hnat.symm
  have hsplit : ((position + n * gifFrameLength : Nat) - 1 : Int)
      = (startOffset items position + n * gifFrameLength - 1)
        + totalLength items * (position / totalLength items : Nat) := by
    rw [hstart]
    push_cast at hdiv ⊢
    omega
  rw [hsplit, Int.add_mul_emod_self_left]

/--
After every tick the frame is shown that is at the place that the timer has come to, where an image starts at
the latest a minute from its beginning. Copies that both start earlier show the same frame from then on.
-/
theorem after_in_phase (items : List (Frame α)) (hne : items ≠ []) (h : Timed items) :
    (∀ position n, position % totalLength items < 2147483648 → 1 ≤ n →
      ∃ s ∈ after items position n,
        ShownAt items ((startOffset items position + n * gifFrameLength - 1) % totalLength items + 1)
          s.index) ∧
    (∀ position position' n n', position % totalLength items ≤ 60000 →
      position' % totalLength items ≤ 60000 → 1 ≤ n → 1 ≤ n' →
      position + n * gifFrameLength = position' + n' * gifFrameLength →
      ∃ s ∈ after items position n, ∃ s' ∈ after items position' n', s.current = s'.current) := by
  refine ⟨fun position n hposition hn => ?_, fun position position' n n' hposition hposition' hn hn' htick => ?_⟩
  · obtain ⟨s, hs, hticked⟩ := exists_after h hne hposition n
    exact ⟨s, hs, hticked.shownAt h hn⟩
  · obtain ⟨s, hs, hticked⟩ := exists_after h hne (Nat.lt_of_le_of_lt hposition (by decide)) n
    obtain ⟨s', hs', hticked'⟩ := exists_after h hne (Nat.lt_of_le_of_lt hposition' (by decide)) n'
    have hshown := hticked.shownAt h hn
    have hshown' := hticked'.shownAt h hn'
    rw [emod_startOffset hposition, htick] at hshown
    rw [emod_startOffset hposition'] at hshown'
    refine ⟨s, hs, s', hs', ?_⟩
    rw [current, current, hticked.same, hticked'.same, hshown.unique h hshown']

/-- Two frames, and a tick. -/
theorem after_in_phase_two : ∃ s ∈ after [⟨true, 100⟩, ⟨false, 40⟩] 66 1,
    ShownAt [⟨true, 100⟩, ⟨false, 40⟩] 99 s.index := by
  have htimed : Timed [⟨true, 100⟩, ⟨false, 40⟩] := by
    intro frame hframe
    rcases List.mem_cons.mp hframe with rfl | hframe
    · exact ⟨by decide, by decide⟩
    · rw [List.mem_singleton.mp hframe]
      exact ⟨by decide, by decide⟩
  exact (after_in_phase _ (by decide) htimed).1 66 1 (by decide) (by decide)

/-- Where the animation starts later than a minute, the frame that is shown is not the one of the timer. -/
theorem late_start : (∃ s ∈ after [⟨true, 60050⟩, ⟨false, 100⟩] 60060 1, s.index = 0) ∧
    ShownAt [⟨true, 60050⟩, ⟨false, 100⟩]
      ((60060 + 1 * gifFrameLength - 1) % totalLength [⟨true, 60050⟩, ⟨false, 100⟩] + 1) 1 := by
  refine ⟨⟨⟨[⟨true, 60050⟩, ⟨false, 100⟩], 0, 60033⟩, ?_, rfl⟩, ⟨by decide, by decide⟩⟩
  -- the first frame lasts until after the tick
  exact Part.mem_bind_iff.mpr ⟨⟨[⟨true, 60050⟩, ⟨false, 100⟩], 0, 60000⟩,
    mem_processOffset_of_stop rfl (by decide), mem_processOffset_of_stop rfl (by decide)⟩

end Ticks

end Frames

end Dankerino
