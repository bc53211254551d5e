import Dankerino.Messages.BoundedSeq
import Dankerino.Widgets.Selection
import Mathlib.Data.List.Nodup

/-!
# Copying a selection

* `Copies` is what copying should be like: the snapshot is read within its bounds, and neither what is
  copied nor what the ends of the selection were made for has been removed from the view.
* `Regular` is the condition of a step. Nothing resets the selection when its messages are evicted or
  cleared, and a drag may start from an item that is no longer good.
* `copies_of_regular`: in a run of regular steps every selection can be copied. `copies_step_iff` is the
  converse for the steps without the mouse.
-/

namespace Dankerino

open Infra
open ViewPauses (PauseReason)

namespace SelectingView

/-! ## What copying should be like -/

/-- The item was made for a message that is in the list. -/
def InList (messages : List Layout) (item : SelectionItem) : Prop :=
  ∃ layout ∈ messages, item.layout = some layout.addr

def Copies (s : SelectingView) : Prop :=
  s.selection_.isEmpty = false →
    (∃ pieces, s.getSelectedText = some pieces ∧ ∀ piece ∈ pieces, piece.layout ∈ s.messages_.items) ∧
    InList s.messages_.items s.selection_.start ∧ InList s.messages_.items s.selection_.end_

/-- An item that a selection can reach to: the message that it was made for is in the list, and so is
the one at its position of the snapshot. -/
def Valid (snapshot messages : List Layout) (item : SelectionItem) : Prop :=
  InList messages item ∧ ∃ layout ∈ messages, at_ snapshot item.messageIndex = some layout

/-- The message that the next one pushes out of the list. -/
def evicted (s : SelectingView) : Option Layout :=
  if s.messages_.items.length = s.messages_.limit then s.messages_.items.head? else none

/-- Another message leaves the item as good as it was. -/
def Outlives (s : SelectingView) (item : SelectionItem) : Prop :=
  (s.channel_.buffer.full = true → s.paused = false → 1 ≤ item.messageIndex) ∧
    ∀ oldest, s.evicted = some oldest → item.layout ≠ some oldest.addr ∧
      (s.paused = true → at_ s.snapshot_ item.messageIndex ≠ some oldest)

/-- The end of the last pause moves the item down onto the list. -/
def Lands (s : SelectingView) (item : SelectionItem) : Prop :=
  s.pauseSelectionOffset_ ≤ item.messageIndex ∧
    item.messageIndex - s.pauseSelectionOffset_ < s.messages_.items.length

/-- A word is under the cursor, in a message that is not collapsed. -/
def Hit.onWord (hit : Hit) : Bool := !hit.collapsed && hit.word.isSome

/-- The items of the view that a move of the mouse selects to. -/
def dragged (s : SelectingView) (hit : Hit) : List SelectionItem :=
  (if s.isLeftMouseDown_ then [s.selection_.start] else []) ++
    if s.isDoubleClick_ && hit.onWord then
      [s.selection_.start, s.selection_.end_, s.doubleClickSelection_.origStartItem,
        s.doubleClickSelection_.origEndItem]
    else []

/-- The condition of a step. -/
def Regular (s : SelectingView) : Event → Prop
  | .addMessage _ _ => s.selection_.isEmpty = false →
      s.Outlives s.selection_.start ∧ s.Outlives s.selection_.end_
  | .clearMessages => s.selection_.isEmpty = true
  | .unpause reasons => s.selection_.isEmpty = false → (∀ reason ∈ s.pauses_, reason ∈ reasons) →
      s.Lands s.selection_.start ∧ s.Lands s.selection_.end_
  | .mouse (.move _) (some hit) => s.dragged hit ≠ [] →
      hit.layout ∈ s.messages_.items ∧ ∀ item ∈ s.dragged hit, Valid s.snapshot_ s.messages_.items item
  | .mouse (.release _ tripleClick) (some hit) => tripleClick = true → hit.layout ∈ s.messages_.items
  | .mouse .doubleClick (some hit) => hit.onWord = true → hit.layout ∈ s.messages_.items
  | _ => True

/-! ## Positions -/

theorem at_eq_some {α : Type} {l : List α} {k : Int} {x : α} (h : at_ l k = some x) :
    0 ≤ k ∧ k < l.length ∧ x ∈ l := by
  unfold at_ at h
  split at h
  · exact nomatch h
  · next hneg =>
    obtain ⟨hlt, heq⟩ := List.getElem?_eq_some_iff.mp h
    exact ⟨by omega, by omega, heq ▸ List.getElem_mem hlt⟩

theorem exists_at {α : Type} {l : List α} {k : Int} (hk : 0 ≤ k) (hlt : k < l.length) :
    ∃ x ∈ l, at_ l k = some x := by
  have hnat : k.toNat < l.length := by omega
  refine ⟨l[k.toNat], List.getElem_mem hnat, ?_⟩
  rw [at_, if_neg (by omega), List.getElem?_eq_getElem hnat]

theorem copyLoop_iff {selection : Selection} {snapshot : List Layout} {P : Layout → Prop} (n : Nat) :
    ∀ msg : Int, (∃ pieces, copyLoop selection snapshot n msg = some pieces ∧
        ∀ piece ∈ pieces, P piece.layout) ↔
      ∀ k, msg ≤ k → k < msg + n → ∃ layout, P layout ∧ at_ snapshot k = some layout := by
  induction n with
  | zero =>
    intro msg
    refine iff_of_true ⟨[], rfl, by simp⟩ fun k hk hk' => ?_
    omega
  | succ n ih =>
    intro msg
    constructor
    · rintro ⟨pieces, hpieces, hall⟩ k hk hk'
      rw [copyLoop] at hpieces
      split at hpieces
      · exact nomatch hpieces
      · next layout hat =>
        obtain ⟨rest, hrest, rfl⟩ := Option.map_eq_some_iff.mp hpieces
        by_cases heq : k = msg
        · exact ⟨layout, hall _ List.mem_cons_self, heq ▸ hat⟩
        · refine (ih (msg + 1)).mp ⟨rest, hrest, fun piece hpiece => ?_⟩ k (by omega) (by omega)
          exact hall piece (List.mem_cons_of_mem _ hpiece)
    · intro h
      obtain ⟨layout, hlayout, hat⟩ := h msg (le_refl _) (by omega)
      obtain ⟨rest, hrest, hall⟩ := (ih (msg + 1)).mpr fun k hk hk' => h k (by omega) (by omega)
      rw [copyLoop, hat, hrest]
      refine ⟨_, rfl, fun piece hpiece => ?_⟩
      rcases List.mem_cons.mp hpiece with rfl | hpiece
      · exact hlayout
      · exact hall piece hpiece

/-! ## The invariant -/

/-- The layouts are in the order in which they were made. -/
def Sorted (l : List Layout) : Prop := l.Pairwise fun a b => a.addr < b.addr

theorem Sorted.addr_le {l : List Layout} (h : Sorted l) {j k : Int} {a b : Layout} (hjk : j ≤ k)
    (ha : at_ l j = some a) (hb : at_ l k = some b) : a.addr ≤ b.addr := by
  obtain ⟨hj, hjlt, -⟩ := at_eq_some ha
  obtain ⟨hk, hklt, -⟩ := at_eq_some hb
  rw [at_, if_neg (by omega)] at ha hb
  obtain ⟨hjnat, rfl⟩ := List.getElem?_eq_some_iff.mp ha
  obtain ⟨hknat, rfl⟩ := List.getElem?_eq_some_iff.mp hb
  rcases Nat.lt_or_ge j.toNat k.toNat with hlt | hge
  · exact (List.pairwise_iff_getElem.mp h _ _ hjnat hknat hlt).le
  · have heq : j.toNat = k.toNat := by omega
    simp [heq]

/-- The two sorted items are the two ends. -/
def Selection.Ordered (selection : Selection) : Prop :=
  selection.selectionMin.messageIndex ≤ selection.selectionMax.messageIndex ∧
    (selection.selectionMin = selection.start ∧ selection.selectionMax = selection.end_ ∨
      selection.selectionMin = selection.end_ ∧ selection.selectionMax = selection.start)

theorem new_ordered (start end_ : SelectionItem) : (Selection.new start end_).Ordered := by
  unfold Selection.new Selection.Ordered
  split
  · next h =>
    simp only [SelectionItem.greater, SelectionItem.less, Bool.and_eq_true, Bool.or_eq_true,
      decide_eq_true_eq] at h
    refine ⟨?_, .inr ⟨rfl, rfl⟩⟩
    dsimp only
    omega
  · next h =>
    simp only [SelectionItem.greater, SelectionItem.less, SelectionItem.equal, Bool.and_eq_true,
      Bool.or_eq_true, decide_eq_true_eq, Bool.not_eq_true', Bool.and_eq_false_iff,
      decide_eq_false_iff_not] at h
    refine ⟨?_, .inl ⟨rfl, rfl⟩⟩
    dsimp only
    omega

theorem Selection.Ordered.moveDown {selection : Selection} (h : selection.Ordered) (n : Int) :
    (selection.moveDown n).Ordered := by
  obtain ⟨hle, hends⟩ := h
  refine ⟨?_, ?_⟩
  · simp only [Selection.moveDown, SelectionItem.moveDown]
    omega
  · rcases hends with ⟨hmin, hmax⟩ | ⟨hmin, hmax⟩
    · exact .inl ⟨by simp [Selection.moveDown, hmin], by simp [Selection.moveDown, hmax]⟩
    · exact .inr ⟨by simp [Selection.moveDown, hmin], by simp [Selection.moveDown, hmax]⟩

theorem SelectionItem.equal_iff {a b : SelectionItem} :
    a.equal b = true ↔ a.messageIndex = b.messageIndex ∧ a.charIndex = b.charIndex := by
  simp [SelectionItem.equal]

@[simp] theorem moveDown_isEmpty (n : Int) (selection : Selection) :
    (selection.moveDown n).isEmpty = selection.isEmpty := by
  rw [Bool.eq_iff_iff]
  unfold Selection.isEmpty
  rw [SelectionItem.equal_iff, SelectionItem.equal_iff]
  exact and_congr sub_left_inj Iff.rfl

/-- What holds of a view and its two lists of messages. -/
structure Inv (s : SelectingView) : Prop where
  ordered : s.selection_.Ordered
  /-- The snapshot is up to date unless the view is paused. -/
  fresh : s.paused = false → s.snapshot_ = s.messages_.items
  offset : s.paused = false → s.pauseSelectionOffset_ = 0
  sorted : Sorted s.messages_.items
  sorted_snapshot : Sorted s.snapshot_
  made : ∀ layout, layout ∈ s.messages_.items ∨ layout ∈ s.snapshot_ → layout.addr < s.layouts
  /-- What was removed since the snapshot was taken is older than what is left of it. -/
  removed : ∀ a ∈ s.snapshot_, a ∈ s.messages_.items →
    ∀ b ∈ s.snapshot_, a.addr ≤ b.addr → b ∈ s.messages_.items
  limit : s.messages_.limit = limit

/-- A view whose snapshot is up to date. -/
theorem Inv.of_fresh {s : SelectingView} (hordered : s.selection_.Ordered)
    (hsnapshot : s.snapshot_ = s.messages_.items) (hoffset : s.pauseSelectionOffset_ = 0)
    (hsorted : Sorted s.messages_.items) (hmade : ∀ layout ∈ s.messages_.items, layout.addr < s.layouts)
    (hlimit : s.messages_.limit = SelectingView.limit) : Inv s where
  ordered := hordered
  fresh := fun _ => hsnapshot
  offset := fun _ => hoffset
  sorted := hsorted
  sorted_snapshot := hsnapshot ▸ hsorted
  made := by
    rw [hsnapshot]
    exact fun layout hmem => hmade layout (or_self_iff.mp hmem)
  removed := fun _ _ _ b hb _ => hsnapshot ▸ hb
  limit := hlimit

/-- A selection can be copied if its ends are valid. -/
def Held (s : SelectingView) : Prop :=
  s.selection_.isEmpty = false →
    Valid s.snapshot_ s.messages_.items s.selection_.start ∧
      Valid s.snapshot_ s.messages_.items s.selection_.end_

theorem Inv.getMessagesSnapshot_eq {s : SelectingView} (h : Inv s) : s.getMessagesSnapshot = s := by
  unfold getMessagesSnapshot
  cases hpaused : s.paused with
  | true => rfl
  | false => rw [← h.fresh hpaused]; rfl

/-- The loop reads messages of the list exactly if those at the two ends are such. -/
theorem Inv.covers_iff {s : SelectingView} (h : Inv s) {first last : Int} (hle : first ≤ last) :
    (∀ k, first ≤ k → k ≤ last → ∃ layout, layout ∈ s.messages_.items ∧ at_ s.snapshot_ k = some layout)
      ↔ (∃ layout ∈ s.messages_.items, at_ s.snapshot_ first = some layout) ∧
        ∃ layout ∈ s.messages_.items, at_ s.snapshot_ last = some layout := by
  constructor
  · exact fun hall => ⟨hall first (le_refl _) hle, hall last hle (le_refl _)⟩
  · rintro ⟨⟨a, hmem, ha⟩, ⟨b, -, hb⟩⟩ k hk hk'
    obtain ⟨hfirst, -, hasnap⟩ := at_eq_some ha
    obtain ⟨-, hlast, -⟩ := at_eq_some hb
    obtain ⟨c, hcsnap, hc⟩ := exists_at (l := s.snapshot_) (k := k) (by omega) (by omega)
    exact ⟨c, h.removed a hasnap hmem c hcsnap (h.sorted_snapshot.addr_le hk ha hc), hc⟩

theorem copies_iff {s : SelectingView} (h : Inv s) : s.Copies ↔ s.Held := by
  refine forall_congr' fun hempty => ?_
  obtain ⟨hle, hends⟩ := h.ordered
  have htext : (∃ pieces, s.getSelectedText = some pieces ∧
      ∀ piece ∈ pieces, piece.layout ∈ s.messages_.items) ↔
      (∃ layout ∈ s.messages_.items,
        at_ s.snapshot_ s.selection_.selectionMin.messageIndex = some layout) ∧
      ∃ layout ∈ s.messages_.items,
        at_ s.snapshot_ s.selection_.selectionMax.messageIndex = some layout := by
    rw [← h.covers_iff hle]
    unfold getSelectedText
    simp only [h.getMessagesSnapshot_eq, hempty, Bool.false_eq_true, if_false]
    rw [copyLoop_iff]
    refine forall_congr' fun k => forall_congr' fun hk => ?_
    have hbound : k < s.selection_.selectionMin.messageIndex + ((s.selection_.selectionMax.messageIndex
        + 1 - s.selection_.selectionMin.messageIndex).toNat : Nat)
        ↔ k ≤ s.selection_.selectionMax.messageIndex := by omega
    rw [hbound]
  rw [htext]
  unfold Valid
  rcases hends with ⟨hmin, hmax⟩ | ⟨hmin, hmax⟩
  · rw [hmin, hmax]
    tauto
  · rw [hmin, hmax]
    tauto

/-! ## Appending -/

section Append

variable {s : SelectingView} (first last : Int)

theorem addMessage_of_paused (h : s.paused = true) :
    s.addMessage first last = { s with
      channel_ := (s.channel_.pushBack s.layouts).1
      messages_ := (s.messages_.pushBack ⟨s.layouts, first, last⟩).1
      pauseSelectionOffset_ :=
        if s.channel_.buffer.full then s.pauseSelectionOffset_ + 1 else s.pauseSelectionOffset_
      layouts := s.layouts + 1 } := by
  have hpaused : (s.pausable_ && !s.pauses_.isEmpty) = true := h
  cases hfull : s.channel_.buffer.full with
  | true =>
    simp [addMessage, messageRemoveFromStart, messageAppended, getMessagesSnapshot, paused,
      LimitedQueue.pushBack, hfull, hpaused]
  | false =>
    simp [addMessage, messageAppended, getMessagesSnapshot, paused, LimitedQueue.pushBack, hfull, hpaused]

theorem addMessage_of_running (h : s.paused = false) :
    s.addMessage first last = { s with
      channel_ := (s.channel_.pushBack s.layouts).1
      messages_ := (s.messages_.pushBack ⟨s.layouts, first, last⟩).1
      snapshot_ := (s.messages_.pushBack ⟨s.layouts, first, last⟩).1.items
      selection_ := if s.channel_.buffer.full then s.selection_.moveDown 1 else s.selection_
      layouts := s.layouts + 1 } := by
  have hpaused : (s.pausable_ && !s.pauses_.isEmpty) = false := h
  cases hfull : s.channel_.buffer.full with
  | true =>
    simp [addMessage, messageRemoveFromStart, messageAppended, getMessagesSnapshot, paused,
      LimitedQueue.pushBack, LimitedQueue.items, hfull, hpaused]
  | false =>
    simp [addMessage, messageAppended, getMessagesSnapshot, paused, LimitedQueue.pushBack,
      LimitedQueue.items, hfull, hpaused]

end Append

theorem Sorted.eq_of_addr_eq {l : List Layout} (h : Sorted l) {a b : Layout} (ha : a ∈ l) (hb : b ∈ l)
    (heq : a.addr = b.addr) : a = b := by
  have hnodup : (l.map Layout.addr).Nodup :=
    List.pairwise_map.mpr (List.Pairwise.imp (fun hlt => Nat.ne_of_lt hlt) h)
  exact List.inj_on_of_nodup_map hnodup ha hb heq

section Queue

variable {s : SelectingView} (new : Layout)

/-- The new message is in the list, and all that were in it but the one that is evicted. -/
theorem Inv.mem_pushBack (h : Inv s) {layout : Layout} :
    layout ∈ (s.messages_.pushBack new).1.items ↔
      layout = new ∨ layout ∈ s.messages_.items ∧ s.evicted ≠ some layout := by
  rw [pushBack_items_eq _ _ (by rw [h.limit]; decide)]
  unfold evicted
  by_cases hfull : s.messages_.items.length = s.messages_.limit
  · rw [if_pos hfull, if_pos hfull]
    have hsorted := h.sorted
    cases hitems : s.messages_.items with
    | nil => simp
    | cons oldest rest =>
      rw [hitems] at hsorted
      have hne : layout ∈ rest → oldest ≠ layout := by
        rintro hrest rfl
        exact absurd (List.rel_of_pairwise_cons hsorted hrest) (lt_irrefl _)
      simp only [List.tail_cons, List.mem_append, List.mem_cons, List.not_mem_nil, or_false,
        List.head?_cons, ne_eq, Option.some.injEq]
      constructor
      · rintro (hrest | rfl)
        · exact .inr ⟨.inr hrest, hne hrest⟩
        · exact .inl rfl
      · rintro (rfl | ⟨rfl | hrest, hold⟩)
        · exact .inr rfl
        · exact absurd rfl hold
        · exact .inl hrest
  · rw [if_neg hfull, if_neg hfull]
    simp [or_comm]

theorem Inv.sorted_pushBack (h : Inv s) (hnew : new.addr = s.layouts) :
    Sorted (s.messages_.pushBack new).1.items := by
  rw [pushBack_items_eq _ _ (by rw [h.limit]; decide)]
  have hlast : ∀ l : List Layout, l.Sublist s.messages_.items → Sorted (l ++ [new]) := by
    refine fun l hl => List.pairwise_append.mpr ⟨h.sorted.sublist hl, List.pairwise_singleton _ _, ?_⟩
    intro a ha b hb
    rw [List.mem_singleton.mp hb, hnew]
    exact h.made a (.inl (hl.subset ha))
  split
  · exact hlast _ (List.tail_sublist _)
  · exact hlast _ (List.Sublist.refl _)

theorem Inv.made_pushBack (h : Inv s) (hnew : new.addr = s.layouts) :
    ∀ layout ∈ (s.messages_.pushBack new).1.items, layout.addr < s.layouts + 1 := by
  intro layout hlayout
  rcases (h.mem_pushBack new).mp hlayout with rfl | ⟨hold, -⟩
  · exact hnew ▸ Nat.lt_succ_self _
  · exact (h.made layout (.inl hold)).trans (Nat.lt_succ_self _)

theorem Inv.length_pushBack (h : Inv s) :
    s.messages_.items.length ≤ (s.messages_.pushBack new).1.items.length := by
  rw [pushBack_items_eq _ _ (by rw [h.limit]; decide)]
  split
  · next hfull =>
    have hpos : 1 ≤ s.messages_.items.length := by rw [hfull, h.limit]; decide
    rw [List.length_append, List.length_tail, List.length_singleton]
    omega
  · simp

/-- Appending leaves an item's message in the list if that is not the one evicted. -/
theorem Inv.inList_pushBack (h : Inv s) (hnew : new.addr = s.layouts) {item : SelectionItem}
    (hitem : InList s.messages_.items item) :
    InList (s.messages_.pushBack new).1.items item ↔
      ∀ oldest, s.evicted = some oldest → item.layout ≠ some oldest.addr := by
  obtain ⟨layout, hmem, hlayout⟩ := hitem
  constructor
  · rintro ⟨layout', hmem', hlayout'⟩ oldest hevicted heq
    have holdest : oldest ∈ s.messages_.items := by
      unfold evicted at hevicted
      split at hevicted
      · exact List.mem_of_head? hevicted
      · exact nomatch hevicted
    have haddr : layout'.addr = oldest.addr := Option.some.inj (hlayout'.symm.trans heq)
    rcases (h.mem_pushBack new).mp hmem' with rfl | ⟨hold, hne⟩
    · have hlt := h.made oldest (.inl holdest)
      omega
    · rw [h.sorted.eq_of_addr_eq hold holdest haddr] at hne
      exact hne hevicted
  · intro hall
    refine ⟨layout, (h.mem_pushBack new).mpr (.inr ⟨hmem, fun hevicted => ?_⟩), hlayout⟩
    exact hall layout hevicted hlayout

end Queue

section Steps

variable {s : SelectingView}

theorem inv_addMessage (h : Inv s) (first last : Int) : Inv (s.addMessage first last) := by
  have hsorted := h.sorted_pushBack ⟨s.layouts, first, last⟩ rfl
  have hmem := h.made_pushBack ⟨s.layouts, first, last⟩ rfl
  cases hpaused : s.paused with
  | true =>
    rw [addMessage_of_paused first last hpaused]
    refine ⟨h.ordered, fun hrun => absurd hpaused (ne_true_of_eq_false hrun),
      fun hrun => absurd hpaused (ne_true_of_eq_false hrun), hsorted, h.sorted_snapshot, ?_, ?_, h.limit⟩
    · rintro layout (hlayout | hlayout)
      · exact hmem layout hlayout
      · exact (h.made layout (.inr hlayout)).trans (Nat.lt_succ_self _)
    · intro a ha hamem b hb hle
      have hanew : a.addr < s.layouts := h.made a (.inr ha)
      rcases (h.mem_pushBack _).mp hamem with rfl | ⟨haold, hane⟩
      · exact absurd hanew (lt_irrefl _)
      · have hbold := h.removed a ha haold b hb hle
        refine (h.mem_pushBack _).mpr (.inr ⟨hbold, fun hevicted => hane ?_⟩)
        -- The one that is evicted is the oldest of the list, and no newer than `a`.
        unfold evicted at hevicted
        split at hevicted
        · next hfull =>
          obtain ⟨rest, hitems⟩ := List.head?_eq_some_iff.mp hevicted
          have hge : b.addr ≤ a.addr := by
            have hsorted' := h.sorted
            rw [hitems] at hsorted' haold
            rcases List.mem_cons.mp haold with rfl | harest
            · exact le_refl _
            · exact (List.rel_of_pairwise_cons hsorted' harest).le
          rw [h.sorted.eq_of_addr_eq haold hbold (le_antisymm hle hge), evicted, if_pos hfull, hevicted]
        · exact nomatch hevicted
  | false =>
    rw [addMessage_of_running first last hpaused]
    refine .of_fresh ?_ rfl (h.offset hpaused) hsorted hmem h.limit
    dsimp only
    split
    · exact h.ordered.moveDown 1
    · exact h.ordered

/-- An item after another message, which is shifted if the view is running. -/
theorem Inv.valid_addMessage (h : Inv s) (first last : Int) {item : SelectionItem}
    (hitem : Valid s.snapshot_ s.messages_.items item) :
    Valid (s.addMessage first last).snapshot_ (s.addMessage first last).messages_.items
        (if s.channel_.buffer.full && !s.paused then item.moveDown 1 else item) ↔ s.Outlives item := by
  obtain ⟨hin, old, hold, hat⟩ := hitem
  have hlist := h.inList_pushBack ⟨s.layouts, first, last⟩ rfl hin
  have hlength := h.length_pushBack ⟨s.layouts, first, last⟩
  obtain ⟨hpos, hlt, hsnap⟩ := at_eq_some hat
  cases hpaused : s.paused with
  | true =>
    rw [addMessage_of_paused first last hpaused]
    simp only [Bool.not_true, Bool.and_false, Bool.false_eq_true, if_false]
    unfold Valid Outlives
    rw [hlist, hpaused]
    constructor
    · rintro ⟨hne, layout, hmem, hlayout⟩
      refine ⟨nofun, fun oldest hevicted => ⟨hne oldest hevicted, fun _ hoat => ?_⟩⟩
      rw [hat] at hlayout hoat
      obtain rfl := Option.some.inj hlayout
      obtain rfl := Option.some.inj hoat
      rcases (h.mem_pushBack _).mp hmem with rfl | ⟨-, hne'⟩
      · exact absurd (h.made _ (.inl hold)) (lt_irrefl _)
      · exact hne' hevicted
    · rintro ⟨-, hout⟩
      refine ⟨fun oldest hevicted => (hout oldest hevicted).1, old, ?_, hat⟩
      exact (h.mem_pushBack _).mpr (.inr ⟨hold, fun hevicted => (hout old hevicted).2 rfl hat⟩)
  | false =>
    rw [addMessage_of_running first last hpaused]
    rw [h.fresh hpaused] at hlt
    unfold Valid Outlives
    cases hfull : s.channel_.buffer.full with
    | true =>
      simp only [Bool.and_self, Bool.not_false, if_true, hpaused, forall_const, Bool.false_eq_true,
        false_implies, and_true]
      constructor
      · rintro ⟨hne, layout, -, hlayout⟩
        refine ⟨?_, hlist.mp hne⟩
        have hnonneg := (at_eq_some hlayout).1
        simp only [SelectionItem.moveDown] at hnonneg
        omega
      · rintro ⟨hle, hne⟩
        refine ⟨hlist.mpr hne, exists_at ?_ ?_⟩
        · simp only [SelectionItem.moveDown]
          omega
        · simp only [SelectionItem.moveDown]
          omega
    | false =>
      simp only [Bool.false_and, Bool.false_eq_true, if_false, hpaused, false_implies, and_true, true_and]
      rw [hlist]
      exact and_iff_left (exists_at hpos (by omega))

theorem held_addMessage (h : Inv s) (hheld : s.Held) (first last : Int) :
    (s.addMessage first last).Held ↔ s.Regular (.addMessage first last) := by
  have hends : (s.addMessage first last).selection_ =
      if s.channel_.buffer.full && !s.paused then s.selection_.moveDown 1 else s.selection_ := by
    cases hpaused : s.paused with
    | true =>
      rw [addMessage_of_paused first last hpaused]
      simp
    | false =>
      rw [addMessage_of_running first last hpaused]
      simp
  have hempty : (s.addMessage first last).selection_.isEmpty = s.selection_.isEmpty := by
    rw [hends]
    split <;> simp
  unfold Held Regular
  rw [hempty]
  refine forall_congr' fun hne => ?_
  obtain ⟨hstart, hend⟩ := hheld hne
  rw [← h.valid_addMessage first last hstart, ← h.valid_addMessage first last hend, hends]
  split <;> rfl

/-! ## Clearing and pauses -/

/-- The empty selection. -/
theorem default_ordered : Selection.Ordered {} := ⟨le_refl _, .inl ⟨rfl, rfl⟩⟩

/-- The lists are what the invariant is about. -/
theorem Inv.congr {s' : SelectingView} (h : Inv s) (hordered : s'.selection_.Ordered)
    (hmessages : s'.messages_ = s.messages_) (hsnapshot : s'.snapshot_ = s.snapshot_)
    (hoffset : s'.pauseSelectionOffset_ = s.pauseSelectionOffset_) (hlayouts : s'.layouts = s.layouts)
    (hpaused : s'.paused = false → s.paused = false) : Inv s' where
  ordered := hordered
  fresh := by
    rw [hmessages, hsnapshot]
    exact fun hrun => h.fresh (hpaused hrun)
  offset := by
    rw [hoffset]
    exact fun hrun => h.offset (hpaused hrun)
  sorted := hmessages ▸ h.sorted
  sorted_snapshot := hsnapshot ▸ h.sorted_snapshot
  made := by
    rw [hmessages, hsnapshot, hlayouts]
    exact h.made
  removed := by
    rw [hmessages, hsnapshot]
    exact h.removed
  limit := hmessages ▸ h.limit

theorem inv_clearMessages (h : Inv s) : Inv s.clearMessages := by
  have hnil : s.messages_.clear.items = [] := rfl
  unfold clearMessages getMessagesSnapshot
  cases hpaused : s.paused with
  | true =>
    have hpaused' : ({ s with messages_ := s.messages_.clear } : SelectingView).paused = true := hpaused
    rw [hpaused']
    refine ⟨h.ordered, fun hrun => absurd hpaused (ne_true_of_eq_false hrun),
      fun hrun => absurd hpaused (ne_true_of_eq_false hrun), ?_, h.sorted_snapshot, ?_, ?_, h.limit⟩
    · exact hnil ▸ List.Pairwise.nil
    · rintro layout (hmem | hmem)
      · exact absurd (hnil ▸ hmem) List.not_mem_nil
      · exact h.made layout (.inr hmem)
    · intro a _ hmem
      exact absurd (hnil ▸ hmem) List.not_mem_nil
  | false =>
    have hpaused' : ({ s with messages_ := s.messages_.clear } : SelectingView).paused = false := hpaused
    rw [hpaused']
    refine .of_fresh h.ordered rfl (h.offset hpaused) (hnil ▸ List.Pairwise.nil) ?_ h.limit
    intro layout hmem
    exact absurd (hnil ▸ hmem) List.not_mem_nil

theorem held_clearMessages : s.clearMessages.Held ↔ s.Regular .clearMessages := by
  have hselection : s.clearMessages.selection_ = s.selection_ := by
    unfold clearMessages getMessagesSnapshot
    split <;> rfl
  have hitems : s.clearMessages.messages_.items = [] := by
    unfold clearMessages getMessagesSnapshot
    split <;> rfl
  unfold Held Regular Valid InList
  rw [hselection, hitems]
  cases s.selection_.isEmpty <;> simp

theorem inv_clearSelection (h : Inv s) : Inv s.clearSelection := by
  have hcleared : Inv { s with selection_ := {} } :=
    h.congr default_ordered rfl rfl rfl rfl id
  unfold clearSelection
  rw [hcleared.getMessagesSnapshot_eq]
  exact hcleared

theorem held_clearSelection : s.clearSelection.Held := by
  have hselection : s.clearSelection.selection_ = {} := by
    unfold clearSelection getMessagesSnapshot
    split <;> rfl
  intro hempty
  rw [hselection] at hempty
  exact nomatch hempty

/-- A pause changes nothing but the reasons, of which there is one then. -/
theorem pause_eq (s : SelectingView) (reason : PauseReason) : ∃ pauses : List PauseReason,
    pauses ≠ [] ∧ s.pause reason = { s with pauses_ := pauses } := by
  have hne : (if reason ∈ s.pauses_ then s.pauses_ else reason :: s.pauses_) ≠ [] := by
    split
    · next hmem => exact List.ne_nil_of_mem hmem
    · exact List.cons_ne_nil _ _
  refine ⟨_, hne, ?_⟩
  unfold pause updatePauses
  rw [if_neg (by simpa using hne)]

theorem inv_pause (h : Inv s) (reason : PauseReason) : Inv (s.pause reason) := by
  obtain ⟨pauses, hne, heq⟩ := pause_eq s reason
  rw [heq]
  refine h.congr h.ordered rfl rfl rfl rfl fun hrun => ?_
  have hpausable : s.pausable_ = false := by simpa [paused, hne] using hrun
  rw [paused, hpausable, Bool.false_and]

theorem held_pause (reason : PauseReason) : (s.pause reason).Held ↔ s.Held := by
  obtain ⟨pauses, -, heq⟩ := pause_eq s reason
  rw [heq]
  rfl

/-- Unpausing while another reason is left changes only the reasons. -/
theorem unpause_some {reasons : List PauseReason} (hleft : ¬ ∀ reason ∈ s.pauses_, reason ∈ reasons) :
    s.unpause reasons = { s with pauses_ := s.pauses_.filter (· ∉ reasons) } := by
  unfold unpause updatePauses
  rw [if_neg]
  simpa using hleft

/-- The end of the last pause shifts the selection. -/
theorem unpause_all {reasons : List PauseReason} (hall : ∀ reason ∈ s.pauses_, reason ∈ reasons) :
    s.unpause reasons = { s with
      pauses_ := []
      snapshot_ := s.messages_.items
      selection_ := s.selection_.moveDown s.pauseSelectionOffset_
      pauseSelectionOffset_ := 0 } := by
  have hnil : s.pauses_.filter (· ∉ reasons) = [] := by simpa using hall
  unfold unpause updatePauses
  rw [hnil]
  simp [unpaused, getMessagesSnapshot, paused]

theorem inv_unpause (h : Inv s) (reasons : List PauseReason) : Inv (s.unpause reasons) := by
  by_cases hall : ∀ reason ∈ s.pauses_, reason ∈ reasons
  · rw [unpause_all hall]
    exact .of_fresh (h.ordered.moveDown _) rfl rfl h.sorted (fun layout hmem => h.made layout (.inl hmem))
      h.limit
  · rw [unpause_some hall]
    refine h.congr h.ordered rfl rfl rfl rfl fun hrun => ?_
    have hne : (s.pauses_.filter (· ∉ reasons)).isEmpty = false := by simpa using hall
    have hpausable : s.pausable_ = false := by
      rw [paused, hne] at hrun
      simpa only [Bool.not_false, Bool.and_true] using hrun
    rw [paused, hpausable, Bool.false_and]

/-- An item that is moved down onto the list. -/
theorem valid_moveDown {messages : List Layout} {item : SelectionItem} (hin : InList messages item)
    (n : Int) : Valid messages messages (item.moveDown n) ↔
      n ≤ item.messageIndex ∧ item.messageIndex - n < messages.length := by
  unfold Valid
  constructor
  · rintro ⟨-, layout, -, hat⟩
    obtain ⟨hpos, hlt, -⟩ := at_eq_some hat
    simp only [SelectionItem.moveDown] at hpos hlt
    exact ⟨by omega, hlt⟩
  · rintro ⟨hle, hlt⟩
    refine ⟨hin, exists_at ?_ hlt⟩
    simp only [SelectionItem.moveDown]
    omega

theorem held_unpause (hheld : s.Held) (reasons : List PauseReason) :
    (s.unpause reasons).Held ↔ s.Regular (.unpause reasons) := by
  by_cases hall : ∀ reason ∈ s.pauses_, reason ∈ reasons
  · rw [unpause_all hall]
    unfold Held Regular
    dsimp only
    rw [moveDown_isEmpty]
    refine forall_congr' fun hne => ?_
    obtain ⟨hstart, hend⟩ := hheld hne
    rw [forall_prop_of_true hall]
    exact and_congr (valid_moveDown hstart.1 _) (valid_moveDown hend.1 _)
  · rw [unpause_some hall]
    exact iff_of_true hheld fun _ hall' => absurd hall' hall

end Steps

/-! ## The mouse -/

/-- What the mouse has made of a view: the lists are the same, and the ends of the selection are items
that it may select to. -/
structure Selects (base : SelectingView) (V : SelectionItem → Prop) (s : SelectingView) : Prop where
  inv : Inv s
  messages : s.messages_ = base.messages_
  snapshot : s.snapshot_ = base.snapshot_
  ends : s.selection_.isEmpty = false → V s.selection_.start ∧ V s.selection_.end_

/-- In the drag of a double click all four items are such. -/
structure Drags (base : SelectingView) (V : SelectionItem → Prop) (s : SelectingView) : Prop
    extends Selects base V s where
  start : V s.selection_.start
  end_ : V s.selection_.end_
  origStart : V s.doubleClickSelection_.origStartItem
  origEnd : V s.doubleClickSelection_.origEndItem

section Mouse

variable {base s : SelectingView} {V : SelectionItem → Prop}

@[simp] theorem new_start (a b : SelectionItem) : (Selection.new a b).start = a := by
  unfold Selection.new
  split <;> rfl

@[simp] theorem new_end (a b : SelectionItem) : (Selection.new a b).end_ = b := by
  unfold Selection.new
  split <;> rfl

theorem new_self_isEmpty (a : SelectionItem) : (Selection.new a a).isEmpty = true := by
  rw [Selection.isEmpty, new_start, new_end]
  exact SelectionItem.equal_iff.mpr ⟨rfl, rfl⟩

theorem Inv.setSelection (h : Inv s) (a b : SelectionItem) : Inv (s.setSelection a b) :=
  h.congr (new_ordered a b) rfl rfl rfl rfl id

theorem Selects.setSelection (h : Selects base V s) {a b : SelectionItem} (ha : V a) (hb : V b) :
    Selects base V (s.setSelection a b) where
  inv := h.inv.setSelection a b
  messages := h.messages
  snapshot := h.snapshot
  ends := fun _ => ⟨(new_start a b).symm ▸ ha, (new_end a b).symm ▸ hb⟩

/-- A selection from an item to itself is empty. -/
theorem Selects.setSelection_self (h : Selects base V s) (a : SelectionItem) :
    Selects base V (s.setSelection a a) where
  inv := h.inv.setSelection a a
  messages := h.messages
  snapshot := h.snapshot
  ends := fun hempty => absurd (new_self_isEmpty a) (ne_true_of_eq_false hempty)

/-- The other things that the mouse changes. -/
theorem Selects.update (h : Selects base V s) (selecting left double : Bool) (d : DoubleClickSelection) :
    Selects base V { s with
      selecting_ := selecting, isLeftMouseDown_ := left, isDoubleClick_ := double,
      doubleClickSelection_ := d } where
  inv := h.inv.congr h.inv.ordered rfl rfl rfl rfl id
  messages := h.messages
  snapshot := h.snapshot
  ends := h.ends

theorem Selects.setSelecting (h : Selects base V s) (left right : Bool) :
    Selects base V (s.setSelecting left right) :=
  h.update s.selecting_ s.isLeftMouseDown_ s.isDoubleClick_
    { s.doubleClickSelection_ with selectingLeft := left, selectingRight := right }

theorem Selects.pause (h : Selects base V s) (reason : PauseReason) :
    Selects base V (s.pause reason) := by
  have hinv := inv_pause h.inv reason
  obtain ⟨pauses, -, heq⟩ := pause_eq s reason
  rw [heq] at hinv ⊢
  exact ⟨hinv, h.messages, h.snapshot, h.ends⟩

theorem Drags.setSelection (h : Drags base V s) {a b : SelectionItem} (ha : V a) (hb : V b) :
    Drags base V (s.setSelection a b) where
  toSelects := h.toSelects.setSelection ha hb
  start := (new_start a b).symm ▸ ha
  end_ := (new_end a b).symm ▸ hb
  origStart := h.origStart
  origEnd := h.origEnd

theorem Drags.setSelecting (h : Drags base V s) (left right : Bool) :
    Drags base V (s.setSelecting left right) where
  toSelects := h.toSelects.setSelecting left right
  start := h.start
  end_ := h.end_
  origStart := h.origStart
  origEnd := h.origEnd

/-- A change of the two flags that depends on something. -/
theorem Drags.setSelecting_if (h : Drags base V s) (c : Prop) [Decidable c] (left right : Bool) :
    Drags base V (if c then s.setSelecting left right else s) := by
  split
  · exact h.setSelecting left right
  · exact h

section Drag

variable {hit : Hit} (hhit : ∀ charIndex, V (hit.item charIndex)) (wordStart wordEnd : Int)
include hhit

theorem Drags.growInMessage (h : Drags base V s) : Drags base V (s.growInMessage hit wordStart wordEnd) := by
  unfold SelectingView.growInMessage
  dsimp only
  split
  · have h' := h.setSelecting true s.doubleClickSelection_.selectingRight
    split
    · exact h'.setSelection h.origStart (hhit _)
    · exact h'.setSelection (hhit _) h.end_
  · split
    · have h' := h.setSelecting s.doubleClickSelection_.selectingLeft true
      split
      · exact h'.setSelection (hhit _) h.origEnd
      · exact h'.setSelection h.start (hhit _)
    · exact h

theorem Drags.swapInMessage (h : Drags base V s) : Drags base V (s.swapInMessage hit wordStart wordEnd) := by
  unfold SelectingView.swapInMessage
  dsimp only
  split
  · split
    · exact (h.setSelecting false true).setSelection h.origStart (hhit _)
    · exact h.setSelection (hhit _) h.end_
  · split
    · split
      · exact (h.setSelecting true false).setSelection (hhit _) h.origEnd
      · exact h.setSelection h.start (hhit _)
    · exact h

theorem Drags.moveToMessage (h : Drags base V s) : Drags base V (s.moveToMessage hit wordStart wordEnd) := by
  unfold SelectingView.moveToMessage
  dsimp only
  split
  · have h' := h.setSelecting_if ((!s.doubleClickSelection_.selectingLeft) = true) true false
    exact (h'.setSelecting_if _ true _).setSelection (hhit _) h'.origEnd
  · split
    · have h' := h.setSelecting_if ((!s.doubleClickSelection_.selectingRight) = true) false true
      exact (h'.setSelecting_if _ _ true).setSelection h'.origStart (hhit _)
    · split
      · exact h.setSelection (hhit _) h.end_
      · exact h.setSelection h.start (hhit _)

theorem Drags.doubleClickMove (h : Drags base V s) :
    Drags base V (s.doubleClickMove hit wordStart wordEnd) := by
  unfold SelectingView.doubleClickMove
  have hmoved : Drags base V (if (hit.messageIndex : Int) = s.doubleClickSelection_.origMessageIndex then
      (s.growInMessage hit wordStart wordEnd).swapInMessage hit wordStart wordEnd
      else s.moveToMessage hit wordStart wordEnd) := by
    split
    · exact (h.growInMessage hhit wordStart wordEnd).swapInMessage hhit wordStart wordEnd
    · exact h.moveToMessage hhit wordStart wordEnd
  exact hmoved.setSelecting_if _ false false

end Drag

theorem mousePressEvent_selects (h : Selects base V s) (linksDoubleClickOnly : Bool) (hit : Option Hit) :
    Selects base V (mousePressEvent linksDoubleClickOnly hit s) := by
  unfold mousePressEvent
  rw [h.inv.getMessagesSnapshot_eq]
  cases hit with
  | none =>
    dsimp only [selectLastMessage]
    split
    · exact h
    · exact h.setSelection_self _
  | some hit =>
    have hdown := h.update s.selecting_ true s.isDoubleClick_ s.doubleClickSelection_
    dsimp only
    split
    · exact hdown
    · split
      · exact (hdown.pause .doubleClick).setSelection_self _
      · exact hdown.setSelection_self _

theorem mouseReleaseEvent_selects (h : Selects base V s) (near tripleClick : Bool) (hit : Option Hit)
    (hhit : ∀ h, hit = some h → tripleClick = true → ∀ charIndex, V (h.item charIndex)) :
    Selects base V (mouseReleaseEvent near tripleClick hit s) := by
  unfold mouseReleaseEvent
  rw [h.inv.getMessagesSnapshot_eq]
  extract_lets s₁ released s₂
  have h₁ : Selects base V s₁ := h.setSelecting false false
  have h₂ : Selects base V s₂ := by
    unfold s₂ released
    split
    · exact h₁.update s₁.selecting_ s₁.isLeftMouseDown_ false s₁.doubleClickSelection_
    · split
      · exact h₁.update s₁.selecting_ false s₁.isDoubleClick_ s₁.doubleClickSelection_
      · exact h₁
  have hstop {s : SelectingView} (h : Selects base V s) :
      Selects base V { s with selecting_ := false } :=
    h.update false s.isLeftMouseDown_ s.isDoubleClick_ s.doubleClickSelection_
  cases hit with
  | none => exact h₂
  | some hit =>
    dsimp only
    split
    · exact h₂
    · split
      · next htriple =>
        have hitem := hhit hit rfl (Bool.and_eq_true_iff.mp htriple).1
        exact hstop (h₂.setSelection (hitem _) (hitem _))
      · exact hstop h₂

theorem mouseDoubleClickEvent_selects (h : Selects base V s) (hit : Option Hit)
    (hhit : ∀ h, hit = some h → h.onWord = true → ∀ charIndex, V (h.item charIndex)) :
    Selects base V (mouseDoubleClickEvent hit s) := by
  unfold mouseDoubleClickEvent
  rw [h.inv.getMessagesSnapshot_eq]
  cases hit with
  | none => exact h
  | some hit =>
    dsimp only
    split
    · exact h
    · next hcollapsed =>
      split
      · exact h
      · next wordStart wordEnd hword =>
        split
        · exact h
        · have hitem := hhit hit rfl (by simp [Hit.onWord, hcollapsed, hword])
          exact (h.update _ _ _ _).setSelection (hitem _) (hitem _)

/-- The rest of a move, where a word is dragged over. -/
theorem wordMove_selects {hit : Hit} (h : Selects base V s)
    (hdrag : s.isDoubleClick_ = true → hit.onWord = true →
      (∀ charIndex, V (hit.item charIndex)) ∧ Drags base V s) :
    Selects base V (if hit.collapsed then s
      else match hit.word with
        | none => s
        | some (wordStart, wordEnd) =>
          if s.isDoubleClick_ then s.doubleClickMove hit wordStart wordEnd else s) := by
  split
  · exact h
  · next hcollapsed =>
    split
    · exact h
    · next wordStart wordEnd hword =>
      split
      · next hdouble =>
        obtain ⟨hitem, hdrags⟩ := hdrag hdouble (by simp [Hit.onWord, hcollapsed, hword])
        exact (hdrags.doubleClickMove hitem wordStart wordEnd).toSelects
      · exact h

theorem mouseMoveEvent_selects (h : Selects base V s) (pauseOnHover : Bool) (hit : Option Hit)
    (hhit : ∀ h, hit = some h → s.dragged h ≠ [] →
      (∀ charIndex, V (h.item charIndex)) ∧ ∀ item ∈ s.dragged h, V item) :
    Selects base V (mouseMoveEvent pauseOnHover hit s) := by
  have hpaused : ∃ pauses : List PauseReason,
      (if pauseOnHover then s.pause .mouse else s) = { s with pauses_ := pauses } := by
    split
    · obtain ⟨pauses, -, heq⟩ := pause_eq s .mouse
      exact ⟨pauses, heq⟩
    · exact ⟨s.pauses_, rfl⟩
  have h' : Selects base V (if pauseOnHover then s.pause .mouse else s) := by
    split
    · exact h.pause .mouse
    · exact h
  obtain ⟨pauses, heq⟩ := hpaused
  unfold mouseMoveEvent
  rw [h'.inv.getMessagesSnapshot_eq]
  rw [heq] at h' ⊢
  cases hit with
  | none => exact h'
  | some hit =>
    have hdrag := hhit hit rfl
    refine wordMove_selects ?_ ?_
    · split
      · next hleft =>
        have hleft' : s.isLeftMouseDown_ = true := hleft
        obtain ⟨hitem, hall⟩ := hdrag (by simp [dragged, hleft'])
        exact h'.setSelection (hall _ (by simp [dragged, hleft'])) (hitem _)
      · exact h'
    · intro hdouble hword
      have hdouble' : s.isDoubleClick_ = true := by
        split at hdouble <;> exact hdouble
      obtain ⟨hitem, hall⟩ := hdrag (by simp [dragged, hdouble', hword])
      have hmem : ∀ item ∈ [s.selection_.start, s.selection_.end_, s.doubleClickSelection_.origStartItem,
          s.doubleClickSelection_.origEndItem], V item := fun item hitem' =>
        hall item (List.mem_append_right _ (by rw [hdouble', hword]; exact hitem'))
      have hstart := hmem _ List.mem_cons_self
      have hdrags : Drags base V { s with pauses_ := pauses } :=
        ⟨h', hstart, hmem _ (by simp), hmem _ (by simp), hmem _ (by simp)⟩
      refine ⟨hitem, ?_⟩
      split
      · exact hdrags.setSelection hstart (hitem _)
      · exact hdrags

end Mouse

/-! ## Runs -/

theorem Selects.held {s s' : SelectingView} (h : Selects s (Valid s.snapshot_ s.messages_.items) s') :
    s'.Held := by
  unfold Held
  rw [h.messages, h.snapshot]
  exact h.ends

section Runs

variable {s s' : SelectingView} {event : Event}

theorem inv_mouseEvent (h : Inv s) (event : MouseEvent) (hit : Option Hit) :
    Inv (s.mouseEvent hit event) := by
  have hbase : Selects s (fun _ => True) s := ⟨h, rfl, rfl, fun _ => ⟨trivial, trivial⟩⟩
  cases event with
  | press linksDoubleClickOnly => exact (mousePressEvent_selects hbase linksDoubleClickOnly hit).inv
  | move pauseOnHover =>
    exact (mouseMoveEvent_selects hbase pauseOnHover hit (by simp)).inv
  | release near tripleClick =>
    exact (mouseReleaseEvent_selects hbase near tripleClick hit (by simp)).inv
  | doubleClick => exact (mouseDoubleClickEvent_selects hbase hit (by simp)).inv

theorem held_mouseEvent (h : Inv s) (hheld : s.Held) {event : MouseEvent} {hit : Option Hit}
    (hhit : ∀ h, hit = some h → s.getMessagesSnapshot.snapshot_[h.messageIndex]? = some h.layout)
    (hregular : s.Regular (.mouse event hit)) : (s.mouseEvent hit event).Held := by
  have hbase : Selects s (Valid s.snapshot_ s.messages_.items) s := ⟨h, rfl, rfl, hheld⟩
  have hitem : ∀ h, hit = some h → h.layout ∈ s.messages_.items →
      ∀ charIndex, Valid s.snapshot_ s.messages_.items (h.item charIndex) := by
    intro hit' heq hmem charIndex
    have hat := hhit hit' heq
    rw [h.getMessagesSnapshot_eq] at hat
    refine ⟨⟨hit'.layout, hmem, rfl⟩, hit'.layout, hmem, ?_⟩
    rw [at_, Hit.item, if_neg (by simp)]
    exact hat
  refine Selects.held (s := s) ?_
  cases event with
  | press linksDoubleClickOnly => exact mousePressEvent_selects hbase linksDoubleClickOnly hit
  | move pauseOnHover =>
    refine mouseMoveEvent_selects hbase pauseOnHover hit fun hit' heq hne => ?_
    subst heq
    obtain ⟨hmem, hall⟩ := hregular hne
    exact ⟨hitem hit' rfl hmem, hall⟩
  | release near tripleClick =>
    refine mouseReleaseEvent_selects hbase near tripleClick hit fun hit' heq htriple => ?_
    subst heq
    exact hitem hit' rfl (hregular htriple)
  | doubleClick =>
    refine mouseDoubleClickEvent_selects hbase hit fun hit' heq hword => ?_
    subst heq
    exact hitem hit' rfl (hregular hword)

theorem inv_step (h : Inv s) (hstep : Step s event s') : Inv s' := by
  cases hstep with
  | addMessage first last => exact inv_addMessage h first last
  | clearMessages => exact inv_clearMessages h
  | clearSelection => exact inv_clearSelection h
  | pause reason => exact inv_pause h reason
  | unpause reasons => exact inv_unpause h reasons
  | mouse event hit _ => exact inv_mouseEvent h event hit

/-- Without the mouse, a step keeps the selection copyable exactly if it is regular. -/
theorem held_step_iff (h : Inv s) (hheld : s.Held) (hstep : Step s event s')
    (hmouse : ∀ event' hit, event ≠ .mouse event' hit) : s'.Held ↔ s.Regular event := by
  cases hstep with
  | addMessage first last => exact held_addMessage h hheld first last
  | clearMessages => exact held_clearMessages
  | clearSelection => exact iff_of_true held_clearSelection trivial
  | pause reason => exact iff_of_true ((held_pause reason).mpr hheld) trivial
  | unpause reasons => exact held_unpause hheld reasons
  | mouse event' hit _ => exact absurd rfl (hmouse event' hit)

theorem held_step (h : Inv s) (hheld : s.Held) (hstep : Step s event s') (hregular : s.Regular event) :
    s'.Held := by
  by_cases hmouse : ∀ event' hit, event ≠ .mouse event' hit
  · exact (held_step_iff h hheld hstep hmouse).mpr hregular
  · push Not at hmouse
    obtain ⟨event', hit, rfl⟩ := hmouse
    cases hstep with
    | mouse _ _ hhit => exact held_mouseEvent h hheld hhit hregular

theorem copies_step_iff (h : Inv s) (hcopies : s.Copies) (hstep : Step s event s')
    (hmouse : ∀ event' hit, event ≠ .mouse event' hit) : s'.Copies ↔ s.Regular event :=
  (copies_iff (inv_step h hstep)).trans (held_step_iff h ((copies_iff h).mp hcopies) hstep hmouse)

end Runs

/-- A new view shows the messages of the channel. -/
theorem inv_setChannel (pausable : Bool) (snapshot : List (Int × Int)) :
    Inv (setChannel pausable snapshot) ∧ (setChannel pausable snapshot).selection_ = {} := by
  have hpush : ∀ s : SelectingView, (s.pauses_ = [] ∧ s.selection_ = {} ∧ s.pauseSelectionOffset_ = 0 ∧
      Inv { s with snapshot_ := s.messages_.items }) →
      (snapshot.foldl pushLayout s).pauses_ = [] ∧ (snapshot.foldl pushLayout s).selection_ = {} ∧
      (snapshot.foldl pushLayout s).pauseSelectionOffset_ = 0 ∧
      Inv { snapshot.foldl pushLayout s with
        snapshot_ := (snapshot.foldl pushLayout s).messages_.items } := by
    induction snapshot with
    | nil => exact fun s h => h
    | cons indices snapshot ih =>
      rintro s ⟨hpauses, hselection, hoffset, hinv⟩
      refine ih (pushLayout s indices) ⟨hpauses, hselection, hoffset, ?_⟩
      refine .of_fresh hinv.ordered rfl hoffset ?_ ?_ hinv.limit
      · exact hinv.sorted_pushBack ⟨s.layouts, indices.1, indices.2⟩ rfl
      · exact hinv.made_pushBack ⟨s.layouts, indices.1, indices.2⟩ rfl
  obtain ⟨hpauses, hselection, -, hinv⟩ := hpush
    { channel_ := .new limit, messages_ := .new limit, pausable_ := pausable }
    ⟨rfl, rfl, rfl, .of_fresh default_ordered rfl rfl List.Pairwise.nil (by intro _ h; cases h) rfl⟩
  have hrun : (snapshot.foldl pushLayout
      { channel_ := .new limit, messages_ := .new limit, pausable_ := pausable }).paused = false := by
    simp [paused, hpauses]
  unfold setChannel getMessagesSnapshot
  rw [hrun]
  exact ⟨hinv, hselection⟩

/-- In a run of regular steps the selection can always be copied. -/
theorem copies_of_regular (pausable : Bool) (snapshot : List (Int × Int)) (events : List Event)
    (s : SelectingView)
    (hrun : Run (fun s event s' => Step s event s' ∧ s.Regular event) (setChannel pausable snapshot)
      events s) : s.Copies := by
  obtain ⟨hinv, hselection⟩ := inv_setChannel pausable snapshot
  have hheld : (setChannel pausable snapshot).Held := by
    intro hempty
    rw [hselection] at hempty
    exact nomatch hempty
  have hkeep : ∀ (s : SelectingView) (event : Event) (s' : SelectingView), s.Inv ∧ s.Held →
      Step s event s' ∧ s.Regular event → s'.Inv ∧ s'.Held :=
    fun _ _ _ h hstep => ⟨inv_step h.1 hstep.1, held_step h.1 h.2 hstep.1 hstep.2⟩
  obtain ⟨hinv', hheld'⟩ := hrun.invariant hkeep ⟨hinv, hheld⟩
  exact (copies_iff hinv').mpr hheld'

/-- A mouse event over a message. -/
theorem mouse_some {s : SelectingView} {hit : Hit} (event : MouseEvent)
    (hat : s.getMessagesSnapshot.snapshot_[hit.messageIndex]? = some hit.layout) :
    Step s (.mouse event (some hit)) (s.mouseEvent (some hit) event) :=
  .mouse s event (some hit) fun _ heq => Option.some.inj heq ▸ hat

/-- A word of the only message is selected by a double click, and another message comes. -/
theorem copies_of_regular_append :
    (((setChannel false [(0, 3)]).mouseEvent (some ⟨0, ⟨0, 0, 3⟩, false, 1, some (0, 3)⟩)
      .doubleClick).addMessage 0 5).Copies := by
  refine copies_of_regular false [(0, 3)]
    [.mouse .doubleClick (some ⟨0, ⟨0, 0, 3⟩, false, 1, some (0, 3)⟩), .addMessage 0 5] _ ?_
  refine .cons ⟨mouse_some .doubleClick rfl, ?_⟩ (.single ⟨.addMessage _ 0 5, ?_⟩)
  · exact fun _ => List.mem_singleton.mpr rfl
  · refine fun _ => ⟨⟨?_, nofun⟩, ⟨?_, nofun⟩⟩ <;> exact fun hfull => absurd hfull (by decide)

/-- The same word, but then the messages are cleared. Nothing is left to copy from. -/
theorem not_copies : ¬ ∀ (pausable : Bool) (snapshot : List (Int × Int)) (events : List Event)
    (s : SelectingView), Run Step (setChannel pausable snapshot) events s → s.Copies := by
  intro hall
  have hcopies := hall false [(0, 3)]
    [.mouse (.press false) (some ⟨0, ⟨0, 0, 3⟩, false, 1, some (0, 3)⟩),
      .mouse (.release true false) (some ⟨0, ⟨0, 0, 3⟩, false, 1, some (0, 3)⟩),
      .mouse .doubleClick (some ⟨0, ⟨0, 0, 3⟩, false, 1, some (0, 3)⟩),
      .mouse (.release true false) (some ⟨0, ⟨0, 0, 3⟩, false, 1, some (0, 3)⟩), .clearMessages] _
    (.cons (mouse_some (.press false) rfl) (.cons (mouse_some (.release true false) rfl)
      (.cons (mouse_some .doubleClick rfl) (.cons (mouse_some (.release true false) rfl)
        (.single (.clearMessages _))))))
  obtain ⟨⟨pieces, hpieces, -⟩, -⟩ := hcopies rfl
  exact nomatch hpieces

end SelectingView

end Dankerino
