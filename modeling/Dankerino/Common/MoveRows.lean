import Dankerino.Common.VectorSync

/-!
# Moving rows of a table

What the buttons and the drag-and-drop of an `EditableModelView` do to a table whose custom rows come
first.

* `Moves` is what a move should do: the item of the row is taken out, and put back after the items whose
  rows remain before the destination.
* `moves_iff`: a move does so exactly if neither row is a custom row. The translation of an index falls
  through to the end of the vector at a custom row, and at the `-1` of a drop between the rows.
-/

namespace Dankerino

open Infra SignalVectorModel

universe u

namespace ShownVector

variable {T Cell Members : Type u}

/-! ## The view -/

/-- `EditableModelView::moveRow`, with the rows that are selected. -/
def moveRow (sub : Subclass T Cell Members) (selected : List Nat) (dir : Int)
    (s : ShownVector T Cell Members) : Option (ShownVector T Cell Members) :=
  match selected with
  | [] => some s
  | row :: _ =>
    if row + dir ≥ s.model.rows.length || row + dir < 0 then some s
    else s.moveRows sub row selected.length (row + dir)

/-- The source and the destination of a move that the view asks for. A drop that is not on a row has
the destination `-1`. -/
structure Passed (s : ShownVector T Cell Members) (sourceRow : Nat) (destinationRow : Int) : Prop where
  source : sourceRow < s.model.rows.length
  ge : -1 ≤ destinationRow
  lt : destinationRow < s.model.rows.length
  ne : (sourceRow : Int) ≠ destinationRow

/-- The buttons move the first selected row. -/
theorem moveRow_passed (sub : Subclass T Cell Members) {selected : List Nat} {dir : Int}
    (hdir : dir = 1 ∨ dir = -1) (s : ShownVector T Cell Members)
    (hselected : ∀ row ∈ selected, row < s.model.rows.length) :
    s.moveRow sub selected dir = some s ∨ ∃ row, Passed s row (row + dir) ∧
      s.moveRow sub selected dir = s.moveRows sub row selected.length (row + dir) := by
  cases selected with
  | nil => exact .inl rfl
  | cons row rest =>
    unfold moveRow
    dsimp only
    split
    · exact .inl rfl
    · next hrange =>
      simp only [Bool.or_eq_true, decide_eq_true_eq, not_or] at hrange
      refine .inr ⟨row, ⟨hselected row List.mem_cons_self, ?_, ?_, ?_⟩, rfl⟩ <;> omega

/-- A drop moves the row that was dragged. -/
theorem dropMimeData_passed (sub : Subclass T Cell Members) (s : ShownVector T Cell Members)
    (accepted : Bool) {sourceRow : Nat} {toRow : Int} (hsource : sourceRow < s.model.rows.length)
    (hge : -1 ≤ toRow) (hlt : toRow < s.model.rows.length) :
    s.dropMimeData sub accepted sourceRow toRow = some s ∨ Passed s sourceRow toRow ∧
      s.dropMimeData sub accepted sourceRow toRow = s.moveRows sub sourceRow 1 toRow := by
  unfold dropMimeData
  split
  · exact .inl rfl
  · dsimp only
    split
    · exact .inl rfl
    · split
      · next hne => exact .inr ⟨⟨hsource, hge, hlt, hne⟩, rfl⟩
      · exact .inl rfl

/-! ## What a move should do -/

/-- How many rows of items come before the index. -/
def itemsBefore (rows : List (Row T Cell)) (index : Nat) : Nat := (vectorRows (rows.take index)).length

/-- The item of the row goes after the items of the rows that remain before the destination, and the
others stay as they are. -/
def Moves (sub : Subclass T Cell Members) (s : ShownVector T Cell Members) (sourceRow : Nat)
    (destinationRow : Int) : Prop :=
  ∃ s' item, s.moveRows sub sourceRow 1 destinationRow = some s' ∧
    s.vector.items[itemsBefore s.model.rows sourceRow]? = some item ∧
    s'.vector.items = (s.vector.items.eraseIdx (itemsBefore s.model.rows sourceRow)).insertIdx
      (itemsBefore (s.model.rows.eraseIdx sourceRow) destinationRow.toNat) item

/-- A row that `insertCustomRow` makes. -/
def customRow (cells : List Cell) : Row T Cell := { items := cells, original := none, isCustomRow := true }

/-- The custom rows come before the rows of the items. -/
structure CustomFirst (s : ShownVector T Cell Members) (custom : List (List Cell))
    (editable : List (Row T Cell)) : Prop where
  rows : s.model.rows = custom.map customRow ++ editable
  editable : ∀ row ∈ editable, isVectorRow row = true

/-! ## Indices -/

section Indices

variable {custom : List (List Cell)} {editable : List (Row T Cell)}

theorem vectorRows_customFirst (custom : List (List Cell))
    (heditable : ∀ row ∈ editable, isVectorRow row = true) :
    vectorRows (custom.map customRow ++ editable) = editable := by
  have hnone : vectorRows (custom.map (customRow (T := T))) = [] := by
    refine List.filter_eq_nil_iff.mpr fun row hrow => ?_
    obtain ⟨cells, -, rfl⟩ := List.mem_map.mp hrow
    simp [isVectorRow, customRow]
  have hsplit : vectorRows (custom.map customRow ++ editable)
      = vectorRows (custom.map customRow) ++ vectorRows editable := List.filter_append _ _
  rw [hsplit, hnone, List.nil_append]
  exact List.filter_eq_self.mpr heditable

theorem itemsBefore_customFirst (heditable : ∀ row ∈ editable, isVectorRow row = true) (index : Nat) :
    itemsBefore (custom.map customRow ++ editable) index = min (index - custom.length) editable.length := by
  unfold itemsBefore
  rw [List.take_append, ← List.map_take, List.length_map,
    vectorRows_customFirst _ fun row hrow => heditable row (List.mem_of_mem_take hrow), List.length_take]

theorem vectorIndexLoop_custom (editable : List (Row T Cell)) (custom : List (List Cell)) :
    ∀ (index : Int) (i : Nat), vectorIndexLoop index i (custom.map customRow ++ editable)
      = vectorIndexLoop (index - custom.length) i editable := by
  induction custom with
  | nil => simp
  | cons cells custom ih =>
    intro index i
    have hcustom : (customRow (T := T) cells).isCustomRow = true := rfl
    rw [List.map_cons, List.cons_append, vectorIndexLoop, if_pos hcustom, ih, List.length_cons]
    congr 1
    push_cast
    omega

/-- In front of the rows the loop finds no index, and runs to the end. -/
theorem vectorIndexLoop_editable {editable : List (Row T Cell)}
    (heditable : ∀ row ∈ editable, isVectorRow row = true) :
    ∀ (index : Int) (i : Nat), vectorIndexLoop index i editable
      = if (i : Int) ≤ index then min index.toNat (i + editable.length) else i + editable.length := by
  induction editable with
  | nil =>
    intro index i
    rw [vectorIndexLoop, List.length_nil]
    split <;> omega
  | cons row editable ih =>
    intro index i
    have hrow : row.isCustomRow = false := by simpa [isVectorRow] using heditable row List.mem_cons_self
    rw [vectorIndexLoop, hrow, if_neg Bool.false_ne_true, List.length_cons,
      ih fun row hrow => heditable row (List.mem_cons_of_mem _ hrow)]
    split_ifs <;> omega

theorem getVectorIndex_customFirst (custom : List (List Cell))
    (heditable : ∀ row ∈ editable, isVectorRow row = true) (index : Int) :
    getVectorIndexFromModelIndex (custom.map customRow ++ editable) index
      = if (custom.length : Int) ≤ index then min (index.toNat - custom.length) editable.length
        else editable.length := by
  rw [getVectorIndexFromModelIndex, vectorIndexLoop_custom, vectorIndexLoop_editable heditable]
  split_ifs <;> omega

/-- The row of an item, and its index. -/
theorem getModelIndex_customFirst (custom : List (List Cell))
    (heditable : ∀ row ∈ editable, isVectorRow row = true) {j : Nat} (hj : j < editable.length) :
    getModelIndexFromVectorIndex (custom.map customRow ++ editable) j = custom.length + j := by
  have hsplit : custom.map customRow ++ editable
      = (custom.map customRow ++ editable.take j) ++ editable[j] :: editable.drop (j + 1) := by
    rw [List.append_assoc, List.getElem_cons_drop, List.take_append_drop]
  have hbefore : (vectorRows (custom.map customRow ++ editable.take j)).length = j := by
    rw [vectorRows_customFirst _ fun row hrow => heditable row (List.mem_of_mem_take hrow),
      List.length_take_of_le (Nat.le_of_lt hj)]
  have hindex : getModelIndexFromVectorIndex (custom.map customRow ++ editable.take j
      ++ editable[j] :: editable.drop (j + 1)) _ = _ :=
    getModelIndex_cut (heditable editable[j] (List.getElem_mem hj))
  rw [hbefore, ← hsplit] at hindex
  rw [hindex, List.length_append, List.length_map, List.length_take_of_le (Nat.le_of_lt hj)]

end Indices

/-! ## Moving -/

/-- An item that is put to the end stands where it should if it is the same as the others. -/
theorem cons_eq_concat_iff {x : T} {l : List T} : l ++ [x] = x :: l ↔ ∀ y ∈ l, y = x := by
  induction l with
  | nil => simp
  | cons y l ih =>
    rw [List.cons_append, List.cons.injEq, List.forall_mem_cons]
    constructor
    · rintro ⟨rfl, h⟩
      exact ⟨rfl, ih.mp h⟩
    · rintro ⟨rfl, h⟩
      exact ⟨rfl, ih.mpr h⟩

/-- The others are the same as an item exactly if there are no two different items. -/
theorem forall_mem_eraseIdx_iff {x : T} {l : List T} {j : Nat} (hj : l[j]? = some x) :
    (∀ y ∈ l.eraseIdx j, y = x) ↔ ∀ y ∈ l, ∀ z ∈ l, y = z := by
  obtain ⟨hlt, rfl⟩ := List.getElem?_eq_some_iff.mp hj
  constructor
  · intro h
    have hall : ∀ y ∈ l, y = l[j] := by
      intro y hy
      obtain ⟨i, hi, rfl⟩ := List.mem_iff_getElem.mp hy
      by_cases hij : i = j
      · simp only [hij]
      · exact h _ (List.mem_eraseIdx_iff_getElem.mpr ⟨i, hi, hij, rfl⟩)
    intro y hy z hz
    rw [hall y hy, hall z hz]
  · intro h y hy
    exact h y (List.mem_of_mem_eraseIdx hy) _ (List.getElem_mem hlt)

theorem vector_of_insert {sub : Subclass T Cell Members} {s s' : ShownVector T Cell Members} {item : T}
    {index : Nat} {caller : Caller} (h : s.insert sub item (some index) caller = some s')
    (hunsorted : s.vector.itemCompare = none) : s'.vector.items = s.vector.items.insertIdx index item := by
  obtain ⟨r, hr, hrest⟩ := Option.bind_eq_some_iff.mp h
  have hvector : r.1.items = s.vector.items.insertIdx index item := by
    unfold SignalVector.insert at hr
    simp only [hunsorted, Option.getD_some] at hr
    split at hr
    · rw [← Option.some.inj hr]
    · exact nomatch hr
  dsimp only at hrest
  split at hrest
  · rw [← Option.some.inj hrest]
    exact hvector
  · obtain ⟨m, -, hs'⟩ := Option.bind_eq_some_iff.mp hrest
    rw [← Option.some.inj hs']
    exact hvector

theorem rows_of_removeAt {codec : RowCodec T Cell} {s s' : ShownVector T Cell Members} {index id : Nat}
    (h : s.removeAt (codec.subclass Members) index (.other id) = some s') :
    s'.model.rows = s.model.rows.eraseIdx (getModelIndexFromVectorIndex s.model.rows index) := by
  obtain ⟨r, -, hrest⟩ := Option.bind_eq_some_iff.mp h
  dsimp only at hrest
  rw [if_neg (by simp)] at hrest
  obtain ⟨m, hm, hs'⟩ := Option.bind_eq_some_iff.mp hrest
  unfold onItemRemoved at hm
  dsimp only at hm
  split at hm
  · rw [← Option.some.inj hs', ← Option.some.inj hm]
  · exact nomatch hm

section Moves

variable {codec : RowCodec T Cell} {s : ShownVector T Cell Members} {custom : List (List Cell)}
  {editable : List (Row T Cell)}

/-- A custom row has no item to move. -/
theorem not_moves_custom (hfirst : CustomFirst s custom editable) {sourceRow : Nat}
    (hsource : sourceRow < custom.length) (destinationRow : Int) :
    ¬ Moves (codec.subclass Members) s sourceRow destinationRow := by
  rintro ⟨s', item, hmove, -⟩
  have hrow : s.model.rows[sourceRow]? = some (customRow custom[sourceRow]) := by
    rw [hfirst.rows, List.getElem?_append_left (by simpa using hsource), List.getElem?_map,
      List.getElem?_eq_getElem hsource]
    rfl
  unfold moveRows at hmove
  rw [hrow] at hmove
  exact nomatch hmove

/-- Where a move puts the item of a row. -/
theorem moveRows_items (hs : Synced codec s) (hfirst : CustomFirst s custom editable) {j : Nat}
    (hj : j < editable.length) (destinationRow : Int) : ∃ s' item,
    s.moveRows (codec.subclass Members) (custom.length + j) 1 destinationRow = some s' ∧
      s.vector.items[j]? = some item ∧ s'.vector.items = (s.vector.items.eraseIdx j).insertIdx
        (if (custom.length : Int) ≤ destinationRow then
            min (destinationRow.toNat - custom.length) (editable.length - 1)
          else editable.length - 1) item := by
  have hat : s.model.rows[custom.length + j]? = some editable[j] := by
    rw [hfirst.rows, List.getElem?_append_right (by simp)]
    simp [hj]
  have hrow := hfirst.editable _ (List.getElem_mem hj)
  have hv : getVectorIndexFromModelIndex s.model.rows (custom.length + j : Nat) = j := by
    rw [hfirst.rows, getVectorIndex_customFirst custom hfirst.editable, if_pos (by omega)]
    omega
  obtain ⟨original, item, horiginal, hdecode, hitem⟩ := hs.vectorRow hat hrow
  rw [hv] at hitem
  obtain ⟨hlt, -⟩ := List.getElem?_eq_some_iff.mp hitem
  obtain ⟨s₁, hremove, hsync, -, hitems⟩ := removeAt_spec hs hlt 0
  -- the rows that the index is looked up in
  have hrows : s₁.model.rows = custom.map customRow ++ editable.eraseIdx j := by
    rw [rows_of_removeAt hremove, hfirst.rows, getModelIndex_customFirst custom hfirst.editable hj,
      List.eraseIdx_append_of_length_le (by simp)]
    simp
  have hrest : ∀ row ∈ editable.eraseIdx j, isVectorRow row = true := fun row hrow =>
    hfirst.editable row (List.mem_of_mem_eraseIdx hrow)
  have hindex := getVectorIndex_customFirst custom hrest destinationRow
  rw [← hrows, List.length_eraseIdx_of_lt hj] at hindex
  obtain ⟨s₂, hmove, -⟩ := moveRows_spec hs hat hrow 1 destinationRow
  refine ⟨s₂, item, hmove, hitem, ?_⟩
  have hget : (codec.subclass Members).getItemFromRow editable[j].items original = item := hdecode
  unfold moveRows at hmove
  rw [if_neg (by simp)] at hmove
  simp only [hat, horiginal, Option.bind_eq_bind, Option.bind_some, hv, hremove, hget] at hmove
  rw [vector_of_insert hmove hsync.unsorted, hindex, hitems]

/-- **Moving a row.** It does what it should exactly if the row and the destination are not custom rows,
or if there are no two different items. -/
theorem moves_iff (hs : Synced codec s) (hfirst : CustomFirst s custom editable) {sourceRow : Nat}
    {destinationRow : Int} (hpassed : Passed s sourceRow destinationRow) :
    Moves (codec.subclass Members) s sourceRow destinationRow ↔ custom.length ≤ sourceRow ∧
      ((custom.length : Int) ≤ destinationRow ∨
        ∀ x ∈ s.vector.items, ∀ y ∈ s.vector.items, x = y) := by
  rcases Nat.lt_or_ge sourceRow custom.length with hlt | hge
  · exact iff_of_false (not_moves_custom hfirst hlt destinationRow) fun h => absurd h.1 (Nat.not_le_of_lt hlt)
  obtain ⟨j, rfl⟩ := Nat.exists_eq_add_of_le hge
  have hj : j < editable.length := by
    have hsource := hpassed.source
    rw [hfirst.rows, List.length_append, List.length_map] at hsource
    omega
  obtain ⟨s', item, hmove, hitem, hitems⟩ := moveRows_items hs hfirst hj destinationRow
  have hfrom : itemsBefore s.model.rows (custom.length + j) = j := by
    rw [hfirst.rows, itemsBefore_customFirst hfirst.editable]
    omega
  have hto : itemsBefore (s.model.rows.eraseIdx (custom.length + j)) destinationRow.toNat
      = min (destinationRow.toNat - custom.length) (editable.length - 1) := by
    rw [hfirst.rows, List.eraseIdx_append_of_length_le (by simp)]
    simp only [List.length_map, Nat.add_sub_cancel_left]
    rw [itemsBefore_customFirst fun row hrow => hfirst.editable row (List.mem_of_mem_eraseIdx hrow),
      List.length_eraseIdx_of_lt hj]
  have hmoves : Moves (codec.subclass Members) s (custom.length + j) destinationRow ↔
      s'.vector.items = (s.vector.items.eraseIdx j).insertIdx
        (min (destinationRow.toNat - custom.length) (editable.length - 1)) item := by
    unfold Moves
    rw [hfrom, hto]
    constructor
    · rintro ⟨s'', item', hmove', hitem', h⟩
      obtain rfl := Option.some.inj (hmove.symm.trans hmove')
      obtain rfl := Option.some.inj (hitem.symm.trans hitem')
      exact h
    · exact fun h => ⟨s', item, hmove, hitem, h⟩
  rw [hmoves, hitems]
  simp only [hge, true_and]
  by_cases hd : (custom.length : Int) ≤ destinationRow
  · rw [if_pos hd]
    exact iff_of_true rfl (.inl hd)
  · rw [if_neg hd]
    have hlength : s.vector.items.length = editable.length := by
      rw [← hs.length, hfirst.rows, vectorRows_customFirst _ hfirst.editable]
    have hzero : min (destinationRow.toNat - custom.length) (editable.length - 1) = 0 := by omega
    have hend : editable.length - 1 = (s.vector.items.eraseIdx j).length := by
      rw [List.length_eraseIdx_of_lt (by omega), hlength]
    rw [hzero, hend, List.insertIdx_length_self, List.insertIdx_zero, cons_eq_concat_iff]
    simp only [hd, false_or]
    exact forall_mem_eraseIdx_iff hitem

end Moves

/-- A custom row, and the items `a` and `b`. -/
def twoBelowCustom : ShownVector String String Unit where
  vector := { items := ["a", "b"], itemCompare := none }
  model := {
    rows := [customRow ["first"], newRow textCodec "a", newRow textCodec "b"]
    members := () }
  columnCount := 1

theorem twoBelowCustom_synced : Synced textCodec twoBelowCustom := ⟨rfl, rfl⟩

theorem twoBelowCustom_customFirst : CustomFirst twoBelowCustom [["first"]]
    [newRow textCodec "a", newRow textCodec "b"] where
  rows := rfl
  editable row hrow := by
    rcases List.mem_cons.mp hrow with rfl | hrow
    · rfl
    · obtain rfl := List.mem_singleton.mp hrow
      rfl

/-- The button that moves a row up puts `b` before `a`. -/
theorem moves_iff_below : Passed twoBelowCustom 2 1 ∧
    (Moves (textCodec.subclass Unit) twoBelowCustom 2 1 ↔ 1 ≤ 2 ∧
      ((1 : Int) ≤ 1 ∨ ∀ x ∈ twoBelowCustom.vector.items, ∀ y ∈ twoBelowCustom.vector.items, x = y)) := by
  have hpassed : Passed twoBelowCustom 2 1 := by constructor <;> decide
  exact ⟨hpassed, moves_iff twoBelowCustom_synced twoBelowCustom_customFirst hpassed⟩

/-- The button that moves a row up puts `a` after `b`: the row is moved before the custom row, and the
item is moved to the end. -/
theorem moveRow_before_custom : Synced textCodec twoBelowCustom ∧
    CustomFirst twoBelowCustom [["first"]] [newRow textCodec "a", newRow textCodec "b"] ∧
    (twoBelowCustom.moveRow (textCodec.subclass Unit) [1] (-1)).map (·.vector.items) = some ["b", "a"] ∧
    itemsBefore (twoBelowCustom.model.rows.eraseIdx 1) 0 = 0 ∧
    ¬ Moves (textCodec.subclass Unit) twoBelowCustom 1 0 := by
  refine ⟨twoBelowCustom_synced, twoBelowCustom_customFirst, rfl, rfl, ?_⟩
  rintro ⟨s', item, hmove, hitem, hitems⟩
  have hafter : (twoBelowCustom.moveRows (textCodec.subclass Unit) 1 1 0).map (·.vector.items)
      = some ["b", "a"] := rfl
  rw [hmove, Option.map_some, hitems] at hafter
  obtain rfl : "a" = item := Option.some.inj hitem
  exact absurd (Option.some.inj hafter) (by decide)

end ShownVector

end Dankerino
