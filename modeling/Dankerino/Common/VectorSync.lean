import Dankerino.Common.SignalVectorModel
import Dankerino.Infra.Run
import Mathlib.Data.List.InsertIdx

/-!
# The table stays in sync with its vector

The rows that are not custom rows show the items of the vector, one each and in order (`Synced`). The
two index translations agree with cutting the rows at a row that is not a custom row, so an
insertion or removal in the vector is one among those rows, and the custom rows do not notice.
-/

namespace Dankerino

open Infra

universe u

namespace SignalVectorModel

variable {T Cell Members : Type u}

def isVectorRow (row : Row T Cell) : Bool := !row.isCustomRow

/-- The rows that show items of the vector. -/
def vectorRows (rows : List (Row T Cell)) : List (Row T Cell) := rows.filter isVectorRow

def customRows (rows : List (Row T Cell)) : List (Row T Cell) := rows.filter Row.isCustomRow

theorem vectorRows_cons_custom {row : Row T Cell} (rows : List (Row T Cell))
    (h : row.isCustomRow = true) : vectorRows (row :: rows) = vectorRows rows :=
  List.filter_cons_of_neg (by simp [isVectorRow, h])

theorem vectorRows_cons {row : Row T Cell} (rows : List (Row T Cell))
    (h : ¬ row.isCustomRow = true) : vectorRows (row :: rows) = row :: vectorRows rows :=
  List.filter_cons_of_pos (by simpa [isVectorRow] using h)

/-! ## Indices -/

section Indices

variable {pre post rows : List (Row T Cell)} {row : Row T Cell}

theorem modelIndexLoop_cut (hrow : isVectorRow row = true) : ∀ (pre : List (Row T Cell)) (v m : Nat),
    v = m + (vectorRows pre).length → modelIndexLoop v m (pre ++ row :: post) = m + pre.length
  | [], v, m, hv => by
    have hnc : row.isCustomRow = false := by simpa [isVectorRow] using hrow
    simp only [List.nil_append, modelIndexLoop, hnc]
    exact if_pos hv.symm
  | x :: pre, v, m, hv => by
    rw [List.cons_append]
    unfold modelIndexLoop
    by_cases hx : x.isCustomRow
    · have hrows := vectorRows_cons_custom pre hx
      rw [hrows] at hv
      simp only [hx, if_true]
      rw [if_neg (by omega), modelIndexLoop_cut hrow pre (v + 1) (m + 1) (by omega), List.length_cons]
      omega
    · have hrows := vectorRows_cons pre hx
      rw [hrows, List.length_cons] at hv
      simp only [hx]
      rw [if_neg Bool.false_ne_true, if_neg (by omega),
        modelIndexLoop_cut hrow pre v (m + 1) (by omega), List.length_cons]
      omega

theorem modelIndexLoop_end : ∀ (rows : List (Row T Cell)) (v m : Nat),
    v = m + (vectorRows rows).length → modelIndexLoop v m rows = m + rows.length
  | [], _, _, _ => rfl
  | x :: rows, v, m, hv => by
    unfold modelIndexLoop
    by_cases hx : x.isCustomRow
    · have hrows := vectorRows_cons_custom rows hx
      rw [hrows] at hv
      simp only [hx, if_true]
      rw [if_neg (by omega), modelIndexLoop_end rows (v + 1) (m + 1) (by omega), List.length_cons]
      omega
    · have hrows := vectorRows_cons rows hx
      rw [hrows, List.length_cons] at hv
      simp only [hx]
      rw [if_neg Bool.false_ne_true, if_neg (by omega),
        modelIndexLoop_end rows v (m + 1) (by omega), List.length_cons]
      omega

theorem vectorIndexLoop_cut (hrow : isVectorRow row = true) :
    ∀ (pre : List (Row T Cell)) (index : Int) (i : Nat), index = i + pre.length →
      vectorIndexLoop index i (pre ++ row :: post) = i + (vectorRows pre).length
  | [], index, i, hi => by
    have hnc : row.isCustomRow = false := by simpa [isVectorRow] using hrow
    simp only [List.nil_append, vectorIndexLoop, hnc]
    rw [if_neg Bool.false_ne_true, if_pos (by simpa using hi.symm)]
    rfl
  | x :: pre, index, i, hi => by
    rw [List.cons_append]
    unfold vectorIndexLoop
    rw [List.length_cons] at hi
    by_cases hx : x.isCustomRow
    · have hrows := vectorRows_cons_custom pre hx
      rw [if_pos hx, vectorIndexLoop_cut hrow pre (index - 1) i (by omega), hrows]
    · have hrows := vectorRows_cons pre hx
      rw [if_neg hx, if_neg (by omega), vectorIndexLoop_cut hrow pre index (i + 1) (by omega), hrows,
        List.length_cons]
      omega

theorem vectorIndexLoop_le : ∀ (rows : List (Row T Cell)) (index : Int) (i : Nat),
    vectorIndexLoop index i rows ≤ i + (vectorRows rows).length
  | [], _, _ => Nat.le_add_right _ _
  | x :: rows, index, i => by
    unfold vectorIndexLoop
    by_cases hx : x.isCustomRow
    · have hrows := vectorRows_cons_custom rows hx
      rw [if_pos hx, hrows]
      exact vectorIndexLoop_le rows _ i
    · have hrows := vectorRows_cons rows hx
      rw [if_neg hx, hrows, List.length_cons]
      have ih := vectorIndexLoop_le rows index (i + 1)
      split <;> omega

theorem getModelIndex_cut (hrow : isVectorRow row = true) :
    getModelIndexFromVectorIndex (pre ++ row :: post) (vectorRows pre).length = pre.length := by
  rw [getModelIndexFromVectorIndex, modelIndexLoop_cut hrow pre _ 0 (Nat.zero_add _).symm, Nat.zero_add]

theorem getModelIndex_end :
    getModelIndexFromVectorIndex rows (vectorRows rows).length = rows.length := by
  rw [getModelIndexFromVectorIndex, modelIndexLoop_end rows _ 0 (Nat.zero_add _).symm, Nat.zero_add]

theorem getVectorIndex_cut (hrow : isVectorRow row = true) :
    getVectorIndexFromModelIndex (pre ++ row :: post) pre.length = (vectorRows pre).length := by
  rw [getVectorIndexFromModelIndex, vectorIndexLoop_cut hrow pre _ 0 (by simp), Nat.zero_add]

theorem getVectorIndex_le (index : Int) :
    getVectorIndexFromModelIndex rows index ≤ (vectorRows rows).length := by
  have hle := vectorIndexLoop_le rows index 0
  rwa [Nat.zero_add] at hle

end Indices

/-! ## Edits of the rows -/

theorem vectorRows_cut {pre post : List (Row T Cell)} {row : Row T Cell}
    (hrow : isVectorRow row = true) :
    vectorRows (pre ++ row :: post) = vectorRows pre ++ row :: vectorRows post :=
  filter_cut hrow

theorem customRows_cut {pre post : List (Row T Cell)} {row : Row T Cell}
    (hrow : isVectorRow row = true) : customRows (pre ++ row :: post) = customRows (pre ++ post) := by
  have hnc : row.isCustomRow = false := by simpa [isVectorRow] using hrow
  unfold customRows
  rw [List.filter_append, List.filter_append, List.filter_cons_of_neg (by simp [hnc])]

/-- A row that is inserted for an item comes at the index of the item. -/
theorem insertIdx_spec {rows : List (Row T Cell)} {v : Nat} (hv : v ≤ (vectorRows rows).length)
    (new : Row T Cell) (hnew : isVectorRow new = true) :
    getModelIndexFromVectorIndex rows v ≤ rows.length ∧
      vectorRows (rows.insertIdx (getModelIndexFromVectorIndex rows v) new)
        = (vectorRows rows).insertIdx v new ∧
      customRows (rows.insertIdx (getModelIndexFromVectorIndex rows v) new) = customRows rows := by
  rcases Nat.lt_or_eq_of_le hv with hlt | rfl
  · obtain ⟨pre, row, post, rfl, hrow, hlen⟩ := exists_cut hlt
    subst hlen
    have hindex : getModelIndexFromVectorIndex (pre ++ row :: post) (pre.filter isVectorRow).length
        = pre.length := getModelIndex_cut hrow
    rw [hindex, insertIdx_length_append, vectorRows_cut hnew, vectorRows_cut hrow, customRows_cut hnew]
    refine ⟨by simp, ?_, rfl⟩
    have hcut : vectorRows (row :: post) = row :: vectorRows post := List.filter_cons_of_pos hrow
    rw [hcut]
    exact (insertIdx_length_append _ _ _).symm
  · have hcut := insertIdx_length_append rows [] new
    rw [List.append_nil] at hcut
    rw [getModelIndex_end, hcut, vectorRows_cut hnew, customRows_cut hnew]
    refine ⟨Nat.le_refl _, ?_, by rw [List.append_nil]⟩
    have hend := insertIdx_length_append (vectorRows rows) [] new
    rw [List.append_nil] at hend
    exact hend.symm

/-- The row that is removed for an item is the row of the item. -/
theorem eraseIdx_spec {rows : List (Row T Cell)} {v : Nat} (hv : v < (vectorRows rows).length) :
    getModelIndexFromVectorIndex rows v < rows.length ∧
      vectorRows (rows.eraseIdx (getModelIndexFromVectorIndex rows v)) = (vectorRows rows).eraseIdx v ∧
      customRows (rows.eraseIdx (getModelIndexFromVectorIndex rows v)) = customRows rows := by
  obtain ⟨pre, row, post, rfl, hrow, hlen⟩ := exists_cut hv
  subst hlen
  have hindex : getModelIndexFromVectorIndex (pre ++ row :: post) (pre.filter isVectorRow).length
      = pre.length := getModelIndex_cut hrow
  rw [hindex, eraseIdx_length_append, vectorRows_cut hrow, customRows_cut hrow]
  refine ⟨by simp, ?_, rfl⟩
  rw [show pre.filter isVectorRow = vectorRows pre from rfl, eraseIdx_length_append]
  exact List.filter_append _ _

/-- A row of the table that is not a custom row, seen from the vector. -/
theorem getVectorIndex_spec {rows : List (Row T Cell)} {r : Nat} {row : Row T Cell}
    (hr : rows[r]? = some row) (hrow : isVectorRow row = true) :
    (vectorRows rows)[getVectorIndexFromModelIndex rows r]? = some row ∧
      ∀ new, isVectorRow new = true →
        vectorRows (rows.set r new) = (vectorRows rows).set (getVectorIndexFromModelIndex rows r) new ∧
          customRows (rows.set r new) = customRows rows ∧
          getVectorIndexFromModelIndex (rows.set r new) r = getVectorIndexFromModelIndex rows r := by
  obtain ⟨hlt, rfl⟩ := List.getElem?_eq_some_iff.mp hr
  obtain ⟨pre, post, hsplit, hlen⟩ : ∃ pre post, rows = pre ++ rows[r] :: post ∧ pre.length = r :=
    ⟨rows.take r, rows.drop (r + 1), by rw [List.getElem_cons_drop, List.take_append_drop],
      List.length_take_of_le (Nat.le_of_lt hlt)⟩
  generalize rows[r] = row at hsplit hrow
  subst hsplit hlen
  rw [getVectorIndex_cut hrow, vectorRows_cut hrow]
  refine ⟨getElem?_length_append _ _ _, ?_⟩
  intro new hnew
  rw [set_length_append, set_length_append, vectorRows_cut hnew, customRows_cut hnew,
    customRows_cut hrow, getVectorIndex_cut hnew]
  exact ⟨rfl, rfl, rfl⟩

end SignalVectorModel

/-! ## The invariant -/

/-- What a subclass says about its cells: an item survives becoming a row. -/
structure RowCodec (T Cell : Type u) where
  getItemFromRow : List Cell → T → T
  getRowFromItem : T → List Cell
  roundTrip : ∀ item, getItemFromRow (getRowFromItem item) item = item

/-- A subclass that leaves `beforeInsert` and `afterRemoved` alone. -/
def RowCodec.subclass {T Cell : Type u} (codec : RowCodec T Cell) (Members : Type u) :
    Subclass T Cell Members where
  getItemFromRow := codec.getItemFromRow
  getRowFromItem := codec.getRowFromItem
  beforeInsert _ index m := some (index, m)
  afterRemoved _ _ m := some m

namespace ShownVector

open SignalVectorModel

variable {T Cell Members : Type u} (codec : RowCodec T Cell)

/-- The item that a row stands for. -/
def decode (row : Row T Cell) : Option T := row.original.map (codec.getItemFromRow row.items)

/-- The rows show the items, and the vector is not sorted. -/
structure Synced (s : ShownVector T Cell Members) : Prop where
  shown : (vectorRows s.model.rows).map (decode codec) = s.vector.items.map some
  unsorted : s.vector.itemCompare = none

/-- The row that an item becomes. -/
def newRow (item : T) : Row T Cell :=
  { items := codec.getRowFromItem item, original := some item, isCustomRow := false }

theorem decode_newRow (item : T) : decode codec (newRow codec item) = some item :=
  congrArg some (codec.roundTrip item)

variable {codec}

theorem Synced.length {s : ShownVector T Cell Members} (hs : Synced codec s) :
    (vectorRows s.model.rows).length = s.vector.items.length := by
  have hlen := congrArg List.length hs.shown
  rwa [List.length_map, List.length_map] at hlen

/-! ### Signals -/

theorem onItemInserted_spec (codec : RowCodec T Cell) {m : ModelState T Cell Members} (item : T)
    {v : Nat} (hv : v ≤ (vectorRows m.rows).length) :
    ∃ m', onItemInserted (codec.subclass Members) m item v = some m' ∧
      (vectorRows m'.rows).map (decode codec)
        = ((vectorRows m.rows).map (decode codec)).insertIdx v (some item) ∧
      customRows m'.rows = customRows m.rows := by
  obtain ⟨hle, hrows, hcustom⟩ := insertIdx_spec hv (newRow codec item) rfl
  refine ⟨{ m with
    rows := m.rows.insertIdx (getModelIndexFromVectorIndex m.rows v) (newRow codec item) },
    if_pos hle, ?_, hcustom⟩
  simp only []
  rw [hrows, List.map_insertIdx, decode_newRow]

theorem vector_insert {v : SignalVector T} (hv : v.itemCompare = none) (item : T)
    {index : Option Nat} (hindex : index.getD v.items.length ≤ v.items.length) :
    v.insert item index = some ({ v with
      items := v.items.insertIdx (index.getD v.items.length) item }, index.getD v.items.length) := by
  unfold SignalVector.insert
  simp only [hv]
  exact if_pos hindex

theorem insert_spec {s : ShownVector T Cell Members} (hs : Synced codec s) (item : T)
    {index : Option Nat} (hindex : index.getD s.vector.items.length ≤ s.vector.items.length)
    (id : Nat) :
    ∃ s', s.insert (codec.subclass Members) item index (.other id) = some s' ∧ Synced codec s' ∧
      customRows s'.model.rows = customRows s.model.rows := by
  have hv : index.getD s.vector.items.length ≤ (vectorRows s.model.rows).length := by
    rw [hs.length]
    exact hindex
  obtain ⟨m, hm, hrows, hcustom⟩ := onItemInserted_spec codec item hv
  refine ⟨{ s with
    vector := { s.vector with
      items := s.vector.items.insertIdx (index.getD s.vector.items.length) item }
    model := m }, ?_, ⟨?_, hs.unsorted⟩, hcustom⟩
  · unfold ShownVector.insert
    rw [vector_insert hs.unsorted item hindex]
    simp only [Option.bind_eq_bind, Option.bind_some]
    rw [if_neg (by simp), hm]
    rfl
  · simp only []
    rw [hrows, hs.shown, List.map_insertIdx]

theorem removeAt_spec {s : ShownVector T Cell Members} (hs : Synced codec s) {index : Nat}
    (hindex : index < s.vector.items.length) (id : Nat) :
    ∃ s', s.removeAt (codec.subclass Members) index (.other id) = some s' ∧ Synced codec s' ∧
      customRows s'.model.rows = customRows s.model.rows ∧
      s'.vector.items = s.vector.items.eraseIdx index := by
  have hv : index < (vectorRows s.model.rows).length := by
    rw [hs.length]
    exact hindex
  obtain ⟨hlt, hrows, hcustom⟩ := eraseIdx_spec hv
  refine ⟨{ s with
    vector := { s.vector with items := s.vector.items.eraseIdx index }
    model := { s.model with
      rows := s.model.rows.eraseIdx (getModelIndexFromVectorIndex s.model.rows index) } },
    ?_, ⟨?_, hs.unsorted⟩, hcustom, rfl⟩
  · unfold ShownVector.removeAt SignalVector.removeAt
    rw [List.getElem?_eq_getElem hindex]
    simp only [Option.map_some, Option.bind_eq_bind, Option.bind_some]
    rw [if_neg (by simp), onItemRemoved, if_pos hlt]
    rfl
  · simp only []
    rw [hrows, ← List.eraseIdx_map, ← List.eraseIdx_map, hs.shown]

/-! ### Edits of the table -/

/-- A row of the table that is not a custom row, with the index of its item. -/
theorem Synced.vectorRow {s : ShownVector T Cell Members} (hs : Synced codec s) {r : Nat}
    {row : Row T Cell} (hr : s.model.rows[r]? = some row) (hrow : isVectorRow row = true) :
    ∃ original item, row.original = some original ∧ codec.getItemFromRow row.items original = item ∧
      s.vector.items[getVectorIndexFromModelIndex s.model.rows r]? = some item := by
  have hat := (getVectorIndex_spec hr hrow).1
  have hshown := congrArg (fun l => l[getVectorIndexFromModelIndex s.model.rows r]?) hs.shown
  simp only [List.getElem?_map, hat, Option.map_some] at hshown
  obtain ⟨item, hitem, heq⟩ := Option.map_eq_some_iff.mp hshown.symm
  obtain ⟨original, horiginal, hdecode⟩ := Option.map_eq_some_iff.mp heq.symm
  exact ⟨original, item, horiginal, hdecode, hitem⟩

theorem removeRows_spec {s : ShownVector T Cell Members} (hs : Synced codec s) {r : Nat}
    {row : Row T Cell} (hr : s.model.rows[r]? = some row) (hrow : isVectorRow row = true)
    (count : Nat) :
    ∃ s', s.removeRows (codec.subclass Members) r count = some s' ∧ Synced codec s' ∧
      customRows s'.model.rows = customRows s.model.rows := by
  unfold removeRows
  by_cases hcount : count ≠ 1
  · exact ⟨s, if_pos hcount, hs, rfl⟩
  · rw [if_neg hcount]
    obtain ⟨_, _, -, -, hitem⟩ := hs.vectorRow hr hrow
    obtain ⟨hlt, -⟩ := List.getElem?_eq_some_iff.mp hitem
    obtain ⟨s', hs', hsync, hcustom, -⟩ := removeAt_spec hs hlt 0
    exact ⟨s', hs', hsync, hcustom⟩

theorem moveRows_spec {s : ShownVector T Cell Members} (hs : Synced codec s) {r : Nat}
    {row : Row T Cell} (hr : s.model.rows[r]? = some row) (hrow : isVectorRow row = true)
    (count : Nat) (destinationChild : Int) :
    ∃ s', s.moveRows (codec.subclass Members) r count destinationChild = some s' ∧ Synced codec s' ∧
      customRows s'.model.rows = customRows s.model.rows := by
  unfold moveRows
  by_cases hcount : count ≠ 1
  · exact ⟨s, if_pos hcount, hs, rfl⟩
  · rw [if_neg hcount]
    obtain ⟨original, item, horiginal, hdecode, hitem⟩ := hs.vectorRow hr hrow
    obtain ⟨hlt, -⟩ := List.getElem?_eq_some_iff.mp hitem
    obtain ⟨s₁, hremove, hsync, hcustom, -⟩ := removeAt_spec hs hlt 0
    have hle : (some (getVectorIndexFromModelIndex s₁.model.rows destinationChild)).getD
        s₁.vector.items.length ≤ s₁.vector.items.length := by
      rw [← hsync.length]
      exact getVectorIndex_le destinationChild
    obtain ⟨s₂, hinsert, hsync', hcustom'⟩ := insert_spec hsync item hle 0
    refine ⟨s₂, ?_, hsync', hcustom'.trans hcustom⟩
    have hget : (codec.subclass Members).getItemFromRow row.items original = item := hdecode
    simp only [hr, horiginal, Option.bind_eq_bind, Option.bind_some, hremove, hget]
    exact hinsert

theorem dropMimeData_spec {s : ShownVector T Cell Members} (hs : Synced codec s) {r : Nat}
    {row : Row T Cell} (hr : s.model.rows[r]? = some row) (hrow : isVectorRow row = true)
    (accepted : Bool) (toRow : Int) :
    ∃ s', s.dropMimeData (codec.subclass Members) accepted r toRow = some s' ∧ Synced codec s' ∧
      customRows s'.model.rows = customRows s.model.rows := by
  unfold dropMimeData
  by_cases hacc : accepted = false
  · exact ⟨s, if_pos hacc, hs, rfl⟩
  · rw [if_neg hacc]
    simp only []
    split
    · exact ⟨s, rfl, hs, rfl⟩
    · split
      · exact moveRows_spec hs hr hrow 1 toRow
      · exact ⟨s, rfl, hs, rfl⟩

/-- An item that the table itself takes out and puts back changes, and no row notices. -/
theorem replaceItem_self (sub : Subclass T Cell Members) {s : ShownVector T Cell Members}
    (hs : s.vector.itemCompare = none) {v : Nat} (hv : v < s.vector.items.length) (item : T) :
    ((s.removeAt sub v .self).bind fun s => s.insert sub item (some v) .self)
      = some { s with vector := { s.vector with items := s.vector.items.set v item } } := by
  have hremove : s.removeAt sub v .self
      = some { s with vector := { s.vector with items := s.vector.items.eraseIdx v } } := by
    unfold ShownVector.removeAt SignalVector.removeAt
    rw [List.getElem?_eq_getElem hv]
    rfl
  have hle : v ≤ (s.vector.items.eraseIdx v).length := by
    rw [List.length_eraseIdx_of_lt hv]
    omega
  have hback : (s.vector.items.eraseIdx v).insertIdx v item = s.vector.items.set v item :=
    List.insertIdx_eraseIdx_self (Nat.ne_of_lt hv) item
  have hinsert : ({ s.vector with items := s.vector.items.eraseIdx v } : SignalVector T).insert item
      (some v) = some ({ s.vector with items := s.vector.items.set v item }, v) := by
    have hany := vector_insert (v := { s.vector with items := s.vector.items.eraseIdx v }) hs item
      (show (some v).getD _ ≤ _ from hle)
    simp only [Option.getD_some, hback] at hany
    exact hany
  rw [hremove, Option.bind_some]
  unfold ShownVector.insert
  simp only []
  rw [hinsert]
  rfl

/-- An edited cell changes the item of its row and nothing else. -/
theorem setData_spec {Value Role : Type*} (setCell : Cell → Value → Role → Cell)
    {s : ShownVector T Cell Members} (hs : Synced codec s) {r : Nat} {row : Row T Cell}
    (hr : s.model.rows[r]? = some row) (hrow : isVectorRow row = true) (column : Nat) (value : Value)
    (role : Role) :
    ∃ s', s.setData (codec.subclass Members) setCell r column value role = some s' ∧
      Synced codec s' ∧ customRows s'.model.rows = customRows s.model.rows := by
  unfold setData
  simp only [hr]
  by_cases hcolumn : s.columnCount ≤ column
  · exact ⟨s, if_pos hcolumn, hs, rfl⟩
  · rw [if_neg hcolumn]
    obtain ⟨original, item, horiginal, -, hitem⟩ := hs.vectorRow hr hrow
    obtain ⟨hlt, -⟩ := List.getElem?_eq_some_iff.mp hitem
    have hnc : row.isCustomRow = false := by simpa [isVectorRow] using hrow
    let new : Row T Cell :=
      { row with items := row.items.modify column fun cell => setCell cell value role }
    let edited : ShownVector T Cell Members :=
      { s with model := { s.model with rows := s.model.rows.set r new } }
    let v := getVectorIndexFromModelIndex s.model.rows r
    obtain ⟨hrows, hcustom, hindex⟩ := (getVectorIndex_spec hr hrow).2 new hrow
    let item' := codec.getItemFromRow new.items original
    have hnew : decode codec new = some item' := by
      unfold decode
      rw [show new.original = some original from horiginal]
      rfl
    have hback := replaceItem_self (codec.subclass Members) (s := edited) hs.unsorted hlt item'
    refine ⟨{ edited with vector := { s.vector with items := s.vector.items.set v item' } }, ?_,
      ⟨?_, hs.unsorted⟩, hcustom⟩
    · simp only [hnc]
      rw [if_neg Bool.false_ne_true]
      simp only [horiginal, Option.bind_eq_bind, Option.bind_some]
      rw [← horiginal, ← hnc]
      show (removeAt _ edited (getVectorIndexFromModelIndex (s.model.rows.set r new) r) .self).bind _ = _
      rw [hindex]
      exact hback
    · show (vectorRows (s.model.rows.set r new)).map (decode codec)
        = (s.vector.items.set v item').map some
      rw [hrows, List.map_set, hnew, hs.shown, ← List.map_set]

/-! ## Operations -/

/-- What can be done to the vector or the table. -/
inductive Op (T : Type u) (Value Role : Type)
  | insert (item : T) (index : Option Nat) (caller : Nat)
  | removeAt (index caller : Nat)
  | setData (row column : Nat) (value : Value) (role : Role)
  | removeRows (row count : Nat)
  | moveRows (sourceRow count : Nat) (destinationChild : Int)
  | dropMimeData (accepted : Bool) (sourceRow : Nat) (toRow : Int)

section Run

variable {Value Role : Type} (setCell : Cell → Value → Role → Cell)

def apply (codec : RowCodec T Cell) (s : ShownVector T Cell Members) :
    Op T Value Role → Option (ShownVector T Cell Members)
  | .insert item index caller => s.insert (codec.subclass Members) item index (.other caller)
  | .removeAt index caller => s.removeAt (codec.subclass Members) index (.other caller)
  | .setData row column value role =>
    s.setData (codec.subclass Members) setCell row column value role
  | .removeRows row count => s.removeRows (codec.subclass Members) row count
  | .moveRows sourceRow count destinationChild =>
    s.moveRows (codec.subclass Members) sourceRow count destinationChild
  | .dropMimeData accepted sourceRow toRow =>
    s.dropMimeData (codec.subclass Members) accepted sourceRow toRow

/-- The row is there and not a custom row. -/
def AtVectorRow (s : ShownVector T Cell Members) (r : Nat) : Prop :=
  ∃ row, s.model.rows[r]? = some row ∧ isVectorRow row = true

/-- The index is one of the vector, or the row is not a custom row. -/
def Addressed (s : ShownVector T Cell Members) : Op T Value Role → Prop
  | .insert _ index _ => index.getD s.vector.items.length ≤ s.vector.items.length
  | .removeAt index _ => index < s.vector.items.length
  | .setData row _ _ _ => AtVectorRow s row
  | .removeRows row _ => AtVectorRow s row
  | .moveRows sourceRow _ _ => AtVectorRow s sourceRow
  | .dropMimeData _ sourceRow _ => AtVectorRow s sourceRow

/-- **One operation** succeeds, keeps the rows in sync and does not touch the custom rows. -/
theorem apply_spec {s : ShownVector T Cell Members} (hs : Synced codec s) {op : Op T Value Role}
    (hop : Addressed s op) :
    ∃ s', apply setCell codec s op = some s' ∧ Synced codec s' ∧
      customRows s'.model.rows = customRows s.model.rows := by
  cases op with
  | insert item index caller => exact insert_spec hs item hop caller
  | removeAt index caller =>
    obtain ⟨s', hs', hsync, hcustom, -⟩ := removeAt_spec hs hop caller
    exact ⟨s', hs', hsync, hcustom⟩
  | setData row column value role =>
    obtain ⟨_, hr, hrow⟩ := hop
    exact setData_spec setCell hs hr hrow column value role
  | removeRows row count =>
    obtain ⟨_, hr, hrow⟩ := hop
    exact removeRows_spec hs hr hrow count
  | moveRows sourceRow count destinationChild =>
    obtain ⟨_, hr, hrow⟩ := hop
    exact moveRows_spec hs hr hrow count destinationChild
  | dropMimeData accepted sourceRow toRow =>
    obtain ⟨_, hr, hrow⟩ := hop
    exact dropMimeData_spec hs hr hrow accepted toRow

/-- An operation that is addressed to the vector or to a row that is not a custom row. -/
def Step (codec : RowCodec T Cell) (s : ShownVector T Cell Members) (op : Op T Value Role)
    (s' : ShownVector T Cell Members) : Prop :=
  Addressed s op ∧ apply setCell codec s op = some s'

theorem Step.spec {s s' : ShownVector T Cell Members} {op : Op T Value Role}
    (h : Step setCell codec s op s') (hs : Synced codec s) :
    Synced codec s' ∧ customRows s'.model.rows = customRows s.model.rows := by
  obtain ⟨hop, happly⟩ := h
  obtain ⟨t, ht, hsync, hcustom⟩ := apply_spec setCell hs hop
  obtain rfl := Option.some.inj (happly.symm.trans ht)
  exact ⟨hsync, hcustom⟩

end Run

/-! ### Start-up -/

theorem showItems_spec (codec : RowCodec T Cell) : ∀ (rest : List T) {m : ModelState T Cell Members} {i : Nat},
    i = (vectorRows m.rows).length →
      ∃ m', showItems (codec.subclass Members) m rest i = some m' ∧
        (vectorRows m'.rows).map (decode codec)
          = (vectorRows m.rows).map (decode codec) ++ rest.map some
  | [], m, _, _ => ⟨m, rfl, (List.append_nil _).symm⟩
  | item :: rest, m, i, hi => by
    obtain ⟨m₁, hm₁, hrows, -⟩ :=
      onItemInserted_spec codec item (m := m) (Nat.le_of_eq hi)
    have hend : (vectorRows m₁.rows).map (decode codec)
        = (vectorRows m.rows).map (decode codec) ++ [some item] := by
      rw [hrows, hi, ← List.length_map (decode codec), List.insertIdx_length_self]
    have hlen := congrArg List.length hend
    rw [List.length_map, List.length_append, List.length_map, ← hi] at hlen
    obtain ⟨m', hm', hshown⟩ := showItems_spec codec rest (m := m₁) hlen.symm
    refine ⟨m', ?_, ?_⟩
    · unfold showItems
      rw [hm₁]
      exact hm'
    · rw [hshown, hend, List.append_assoc]
      rfl

theorem insertCustomRow_spec {m m' : ModelState T Cell Members} {row : List Cell} {index : Nat}
    (h : insertCustomRow m row index = some m') : vectorRows m'.rows = vectorRows m.rows := by
  unfold insertCustomRow at h
  split at h
  · next hle =>
    obtain rfl := Option.some.inj h
    have hsplit := insertIdx_length_append (m.rows.take index) (m.rows.drop index)
      { items := row, original := none, isCustomRow := true }
    rw [List.take_append_drop, List.length_take_of_le hle] at hsplit
    simp only [vectorRows] at *
    rw [hsplit, List.filter_append, List.filter_cons_of_neg (by simp [isVectorRow]),
      ← List.filter_append, List.take_append_drop]
  · exact nomatch h

theorem insertCustomRows_spec {m m' : ModelState T Cell Members} {customs : List (List Cell × Nat)}
    (h : insertCustomRows m customs = some m') : vectorRows m'.rows = vectorRows m.rows := by
  induction customs generalizing m with
  | nil =>
    obtain rfl := Option.some.inj h
    rfl
  | cons custom customs ih =>
    obtain ⟨row, index⟩ := custom
    obtain ⟨m₁, hm₁, hrest⟩ := Option.bind_eq_some_iff.mp h
    rw [ih hrest, insertCustomRow_spec hm₁]

theorem initialized_synced {vector : SignalVector T} {members : Members} {columnCount : Nat}
    {customs : List (List Cell × Nat)} {s : ShownVector T Cell Members}
    (hvector : vector.itemCompare = none)
    (h : initialized (codec.subclass Members) vector members columnCount customs = some s) :
    Synced codec s := by
  obtain ⟨m, hm, hrest⟩ := Option.bind_eq_some_iff.mp h
  obtain ⟨m', hm', hs⟩ := Option.bind_eq_some_iff.mp hrest
  obtain rfl := Option.some.inj hs
  obtain ⟨t, ht, hshown⟩ :=
    showItems_spec codec vector.items (m := { rows := [], members }) rfl
  obtain rfl := Option.some.inj (hm.symm.trans ht)
  refine ⟨?_, hvector⟩
  simp only [insertCustomRows_spec hm']
  exact hshown

/-! ### Every run -/

/--
**The table stays in sync.** After any sequence of operations on the vector or on rows that are not
custom rows, these rows show the items of the vector, in order, the custom rows are the ones of the
start, and no operation that is so addressed fails.
-/
theorem run_in_sync {Value Role : Type} (setCell : Cell → Value → Role → Cell)
    (codec : RowCodec T Cell) {vector : SignalVector T} {members : Members} {columnCount : Nat}
    {customs : List (List Cell × Nat)} {s₀ s : ShownVector T Cell Members}
    {ops : List (Op T Value Role)} (hvector : vector.itemCompare = none)
    (hinit : initialized (codec.subclass Members) vector members columnCount customs = some s₀)
    (hrun : Run (Step setCell codec) s₀ ops s) :
    (vectorRows s.model.rows).map (decode codec) = s.vector.items.map some ∧
      customRows s.model.rows = customRows s₀.model.rows ∧
      ∀ op : Op T Value Role, Addressed s op → ∃ s', apply setCell codec s op = some s' := by
  have hkeep : ∀ (s : ShownVector T Cell Members) op s',
      Synced codec s ∧ customRows s.model.rows = customRows s₀.model.rows →
      Step setCell codec s op s' →
      Synced codec s' ∧ customRows s'.model.rows = customRows s₀.model.rows := by
    rintro s op s' ⟨hs, hcustom⟩ hstep
    obtain ⟨hs', hsame⟩ := hstep.spec setCell hs
    exact ⟨hs', hsame.trans hcustom⟩
  obtain ⟨hs, hcustom⟩ := hrun.invariant hkeep ⟨initialized_synced hvector hinit, rfl⟩
  refine ⟨hs.shown, hcustom, ?_⟩
  intro op hop
  obtain ⟨s', hs', -⟩ := apply_spec setCell hs hop
  exact ⟨s', hs'⟩

/-- Items that are the texts of their only cell. -/
def textCodec : RowCodec String String where
  getItemFromRow cells original := cells.headD original
  getRowFromItem item := [item]
  roundTrip _ := rfl

/-- Two items and a custom row before each. Row 3 is moved before row 1, then row 1 is renamed. -/
theorem run_in_sync_moved : ∃ s₀ s : ShownVector String String Unit,
    initialized (textCodec.subclass Unit) { items := ["a", "b"], itemCompare := none } () 1
        [(["first"], 0), (["second"], 2)] = some s₀ ∧
      s.vector.items = ["c", "a"] ∧
      (vectorRows s.model.rows).map (decode textCodec) = s.vector.items.map some ∧
      customRows s.model.rows = customRows s₀.model.rows ∧
      ∀ op : Op String String Unit,
        Addressed s op → ∃ s', apply (fun _ value _ => value) textCodec s op = some s' := by
  let row (text : String) : Row String String :=
    { items := [text], original := some text, isCustomRow := false }
  let custom (text : String) : Row String String :=
    { items := [text], original := none, isCustomRow := true }
  let shown (items : List String) (rows : List (Row String String)) : ShownVector String String Unit :=
    { vector := { items, itemCompare := none }, model := { rows, members := () }, columnCount := 1 }
  let s₀ := shown ["a", "b"] [custom "first", row "a", custom "second", row "b"]
  let s₁ := shown ["b", "a"] [custom "first", row "b", row "a", custom "second"]
  let s₂ := shown ["c", "a"] [custom "first", { row "b" with items := ["c"] }, row "a", custom "second"]
  have hinit : initialized (textCodec.subclass Unit) { items := ["a", "b"], itemCompare := none } () 1
      [(["first"], 0), (["second"], 2)] = some s₀ := rfl
  have hmove : Step (fun _ value _ => value) textCodec s₀
      (.moveRows 3 1 1 : Op String String Unit) s₁ := ⟨⟨_, rfl, rfl⟩, rfl⟩
  have hrename : Step (fun _ value _ => value) textCodec s₁
      (.setData 1 0 "c" () : Op String String Unit) s₂ := ⟨⟨_, rfl, rfl⟩, rfl⟩
  exact ⟨s₀, s₂, hinit, rfl,
    run_in_sync (fun _ value _ => value) textCodec rfl hinit (.cons hmove (.cons hrename (.nil s₂)))⟩

end ShownVector

end Dankerino
