import Dankerino.Common.VectorSync

/-!
# Operations on any row of a table

What `removeRows`, `moveRows` and `dropMimeData` do to rows that may be custom rows, in a table over a
sorted or an unsorted vector. A row that does not show an item is translated to the index past the end of the
vector (`getVectorIndex_eq_length`), and none of the three looks for custom rows, so that they succeed
exactly on the other rows (`row_operations_iff`).
-/

namespace Dankerino

open Infra SignalVectorModel

universe u

variable {T Cell Members : Type u}

/-- A subclass that leaves `beforeInsert` and `afterRemoved` alone. -/
def plainSubclass (getItemFromRow : List Cell → T → T) (getRowFromItem : T → List Cell) :
    Subclass T Cell Members where
  getItemFromRow := getItemFromRow
  getRowFromItem := getRowFromItem
  beforeInsert _ index m := some (index, m)
  afterRemoved _ _ m := some m

namespace ShownVector

/-- There is a row for every item, and the rows of items are those with an original. -/
structure InStep (s : ShownVector T Cell Members) : Prop where
  length : (vectorRows s.model.rows).length = s.vector.items.length
  original : ∀ row ∈ s.model.rows, row.original.isSome = isVectorRow row

/-- The operation is done, with all indices in range, and the custom rows are still there. -/
def Safe (s : ShownVector T Cell Members) (result : Option (ShownVector T Cell Members)) : Prop :=
  ∃ s', result = some s' ∧ InStep s' ∧ customRows s'.model.rows = customRows s.model.rows

/-! ## Indices -/

/-- The loop runs to the end if there is no row of an item at the index. -/
theorem vectorIndexLoop_eq_length : ∀ (rows : List (Row T Cell)) (index : Int) (i : Nat),
    (∀ (k : Nat) (row : Row T Cell), (k : Int) + i = index → rows[k]? = some row → row.isCustomRow = true) →
      vectorIndexLoop index i rows = i + (vectorRows rows).length
  | [], _, _, _ => rfl
  | row :: rows, index, i, h => by
    rw [vectorIndexLoop]
    cases hcustom : row.isCustomRow with
    | true =>
      rw [if_pos rfl, vectorRows_cons_custom rows hcustom]
      refine vectorIndexLoop_eq_length rows (index - 1) i fun k row' hk hrow' => ?_
      exact h (k + 1) row' (by omega) (by rw [List.getElem?_cons_succ]; exact hrow')
    | false =>
      have hne : (i : Int) ≠ index := by
        intro heq
        have hfirst := h 0 row (by omega) rfl
        rw [hcustom] at hfirst
        cases hfirst
      rw [if_neg Bool.false_ne_true, if_neg hne, vectorRows_cons rows (by rw [hcustom]; decide), List.length_cons]
      rw [vectorIndexLoop_eq_length rows index (i + 1) fun k row' hk hrow' =>
        h (k + 1) row' (by omega) (by rw [List.getElem?_cons_succ]; exact hrow')]
      omega

/-- A row that does not show an item is translated to the index past the end. -/
theorem getVectorIndex_eq_length {s : ShownVector T Cell Members} (hs : InStep s) {row : Nat}
    (hrow : ¬ AtVectorRow s row) :
    getVectorIndexFromModelIndex s.model.rows row = s.vector.items.length := by
  rw [← hs.length, ← Nat.zero_add (vectorRows s.model.rows).length]
  refine vectorIndexLoop_eq_length s.model.rows row 0 fun k found hk hfound => ?_
  obtain rfl : k = row := by omega
  cases hcustom : found.isCustomRow with
  | true => rfl
  | false => exact absurd ⟨found, hfound, by rw [isVectorRow, hcustom]; rfl⟩ hrow

theorem getVectorIndex_lt {s : ShownVector T Cell Members} (hs : InStep s) {row : Nat}
    (hrow : AtVectorRow s row) : getVectorIndexFromModelIndex s.model.rows row < s.vector.items.length := by
  obtain ⟨found, hfound, hvector⟩ := hrow
  rw [← hs.length]
  exact (List.getElem?_eq_some_iff.mp (getVectorIndex_spec hfound hvector).1).1

/-! ## The vector -/

section Operations

variable (getItemFromRow : List Cell → T → T) (getRowFromItem : T → List Cell)
  {s : ShownVector T Cell Members}

/-- A removal within the vector. -/
theorem removeAt_safe (hs : InStep s) {index : Nat} (hindex : index < s.vector.items.length) (id : Nat) :
    Safe s (s.removeAt (plainSubclass getItemFromRow getRowFromItem) index (.other id)) := by
  have hv : index < (vectorRows s.model.rows).length := by
    rw [hs.length]
    exact hindex
  obtain ⟨hlt, hrows, hcustom⟩ := eraseIdx_spec hv
  refine ⟨{ s with
    vector := { s.vector with items := s.vector.items.eraseIdx index }
    model := { s.model with
      rows := s.model.rows.eraseIdx (getModelIndexFromVectorIndex s.model.rows index) } },
    ?_, ⟨?_, fun row hrow => ?_⟩, hcustom⟩
  · unfold ShownVector.removeAt SignalVector.removeAt
    rw [List.getElem?_eq_getElem hindex]
    simp only [Option.map_some, Option.bind_eq_bind, Option.bind_some]
    rw [if_neg (by simp), onItemRemoved, if_pos hlt]
    rfl
  · simp only []
    rw [hrows, List.length_eraseIdx_of_lt hv, List.length_eraseIdx_of_lt hindex, hs.length]
  · exact hs.original row (List.mem_of_mem_eraseIdx hrow)

/-- No item is past the end. -/
theorem removeAt_length (sub : Subclass T Cell Members) (caller : Caller) :
    s.removeAt sub s.vector.items.length caller = none := by
  unfold ShownVector.removeAt SignalVector.removeAt
  rw [List.getElem?_eq_none (Nat.le_refl _)]
  rfl

/-- The table takes an item at every index up to the end. -/
theorem onItemInserted_inStep {m : ModelState T Cell Members}
    (horiginal : ∀ row ∈ m.rows, row.original.isSome = isVectorRow row) (item : T) {i : Nat}
    (hi : i ≤ (vectorRows m.rows).length) :
    ∃ m', onItemInserted (plainSubclass getItemFromRow getRowFromItem) m item i = some m' ∧
      (∀ row ∈ m'.rows, row.original.isSome = isVectorRow row) ∧
      (vectorRows m'.rows).length = (vectorRows m.rows).length + 1 ∧ customRows m'.rows = customRows m.rows := by
  obtain ⟨hle, hrows, hcustom⟩ :=
    insertIdx_spec hi { items := getRowFromItem item, original := some item, isCustomRow := false } rfl
  refine ⟨{ m with
    rows := m.rows.insertIdx (getModelIndexFromVectorIndex m.rows i)
      { items := getRowFromItem item, original := some item, isCustomRow := false } },
    if_pos hle, fun row hrow => ?_, ?_, hcustom⟩
  · rcases List.eq_or_mem_of_mem_insertIdx hrow with rfl | hold
    · rfl
    · exact horiginal row hold
  · simp only []
    rw [hrows, List.length_insertIdx_of_le_length hi]

/-- An insertion into the vector, wherever it puts the item. -/
theorem insert_safe (hs : InStep s) (item : T) {index : Nat} (hindex : index ≤ s.vector.items.length)
    (id : Nat) :
    Safe s (s.insert (plainSubclass getItemFromRow getRowFromItem) item (some index) (.other id)) := by
  obtain ⟨i, hi, hinsert⟩ : ∃ i, i ≤ s.vector.items.length ∧ s.vector.insert item (some index)
      = some ({ s.vector with items := s.vector.items.insertIdx i item }, i) := by
    cases hcompare : s.vector.itemCompare with
    | some itemCompare => exact SignalVector.insert_of_compare hcompare item (some index)
    | none => exact ⟨index, hindex,
      vector_insert hcompare item (show (some index).getD s.vector.items.length ≤ _ from hindex)⟩
  obtain ⟨m, hm, horiginal, hlength, hcustom⟩ := onItemInserted_inStep getItemFromRow getRowFromItem
    hs.original item (hs.length ▸ hi)
  refine ⟨{ s with
    vector := { s.vector with items := s.vector.items.insertIdx i item }, model := m },
    ?_, ⟨?_, horiginal⟩, hcustom⟩
  · unfold ShownVector.insert
    rw [hinsert]
    simp only [Option.bind_eq_bind, Option.bind_some]
    rw [if_neg (by simp), hm]
    rfl
  · simp only []
    rw [hlength, List.length_insertIdx_of_le_length hi, hs.length]

/-! ## Start-up -/

theorem showItems_inStep : ∀ (rest : List T) {m : ModelState T Cell Members} {i : Nat},
    (∀ row ∈ m.rows, row.original.isSome = isVectorRow row) → i = (vectorRows m.rows).length →
      ∃ m', showItems (plainSubclass getItemFromRow getRowFromItem) m rest i = some m' ∧
        (∀ row ∈ m'.rows, row.original.isSome = isVectorRow row) ∧
        (vectorRows m'.rows).length = i + rest.length
  | [], m, _, horiginal, hi => ⟨m, rfl, horiginal, hi.symm⟩
  | item :: rest, m, i, horiginal, hi => by
    obtain ⟨m₁, hm₁, horiginal₁, hlength₁, -⟩ := onItemInserted_inStep getItemFromRow
      getRowFromItem horiginal item (Nat.le_of_eq hi)
    obtain ⟨m', hm', horiginal', hlength'⟩ := showItems_inStep rest horiginal₁ (hi ▸ hlength₁.symm)
    refine ⟨m', ?_, horiginal', ?_⟩
    · unfold showItems
      rw [hm₁]
      exact hm'
    · rw [hlength', List.length_cons]
      omega

theorem insertCustomRows_inStep {m m' : ModelState T Cell Members} {customs : List (List Cell × Nat)}
    (horiginal : ∀ row ∈ m.rows, row.original.isSome = isVectorRow row)
    (h : insertCustomRows m customs = some m') : ∀ row ∈ m'.rows, row.original.isSome = isVectorRow row := by
  induction customs generalizing m with
  | nil =>
    obtain rfl := Option.some.inj h
    exact horiginal
  | cons custom customs ih =>
    obtain ⟨items, index⟩ := custom
    obtain ⟨m₁, hm₁, hrest⟩ := Option.bind_eq_some_iff.mp h
    refine ih (fun row hrow => ?_) hrest
    unfold insertCustomRow at hm₁
    split at hm₁
    · obtain rfl := Option.some.inj hm₁
      rcases List.eq_or_mem_of_mem_insertIdx hrow with rfl | hold
      · rfl
      · exact horiginal row hold
    · cases hm₁

/-- A table is in step from the start, wherever its custom rows are inserted. -/
theorem initialized_inStep {vector : SignalVector T} {members : Members} {columnCount : Nat}
    {customs : List (List Cell × Nat)}
    (h : initialized (plainSubclass getItemFromRow getRowFromItem) vector members columnCount customs = some s) :
    InStep s := by
  obtain ⟨m, hm, hrest⟩ := Option.bind_eq_some_iff.mp h
  obtain ⟨m', hm', hs⟩ := Option.bind_eq_some_iff.mp hrest
  obtain rfl := Option.some.inj hs
  obtain ⟨t, ht, horiginal, hlength⟩ := showItems_inStep getItemFromRow getRowFromItem vector.items
    (m := { rows := [], members }) (fun row hrow => absurd hrow List.not_mem_nil) rfl
  obtain rfl := Option.some.inj (hm.symm.trans ht)
  refine ⟨?_, insertCustomRows_inStep horiginal hm'⟩
  simp only [insertCustomRows_spec hm']
  exact hlength.trans (Nat.zero_add _)

/-! ## Rows -/

theorem removeRows_iff (hs : InStep s) (row count : Nat) :
    Safe s (s.removeRows (plainSubclass getItemFromRow getRowFromItem) row count) ↔
      count ≠ 1 ∨ AtVectorRow s row := by
  unfold removeRows
  by_cases hcount : count ≠ 1
  · rw [if_pos hcount]
    exact iff_of_true ⟨s, rfl, hs, rfl⟩ (.inl hcount)
  · rw [if_neg hcount]
    constructor
    · rintro ⟨s', hs', -⟩
      by_contra hrow
      rw [not_or] at hrow
      rw [getVectorIndex_eq_length hs hrow.2, removeAt_length] at hs'
      cases hs'
    · intro hrow
      exact removeAt_safe getItemFromRow getRowFromItem hs (getVectorIndex_lt hs (hrow.resolve_left hcount)) 0

/-- Only the row of an item has an original to read, and the item has a place at every destination. -/
theorem moveRows_iff (hs : InStep s) (sourceRow count : Nat) (destinationChild : Int) :
    Safe s (s.moveRows (plainSubclass getItemFromRow getRowFromItem) sourceRow count destinationChild) ↔
      count ≠ 1 ∨ AtVectorRow s sourceRow := by
  unfold moveRows
  by_cases hcount : count ≠ 1
  · rw [if_pos hcount]
    exact iff_of_true ⟨s, rfl, hs, rfl⟩ (.inl hcount)
  · rw [if_neg hcount]
    constructor
    · rintro ⟨s', hs', -⟩
      right
      cases hrow : s.model.rows[sourceRow]? with
      | none =>
        rw [hrow] at hs'
        cases hs'
      | some row =>
        rw [hrow] at hs'
        obtain ⟨original, horiginal, -⟩ := Option.bind_eq_some_iff.mp hs'
        refine ⟨row, hrow, ?_⟩
        rw [← hs.original row (List.mem_of_getElem? hrow), horiginal]
        rfl
    · intro hsource
      obtain ⟨row, hrow, hvector⟩ := hsource.resolve_left hcount
      obtain ⟨original, horiginal⟩ := Option.isSome_iff_exists.mp
        ((hs.original row (List.mem_of_getElem? hrow)).trans hvector)
      obtain ⟨s₁, hremove, hs₁, hcustom₁⟩ := removeAt_safe getItemFromRow getRowFromItem hs
        (getVectorIndex_lt hs ⟨row, hrow, hvector⟩) 0
      have hindex : getVectorIndexFromModelIndex s₁.model.rows destinationChild ≤ s₁.vector.items.length := by
        rw [← hs₁.length]
        exact getVectorIndex_le destinationChild
      obtain ⟨s₂, hinsert, hs₂, hcustom₂⟩ := insert_safe getItemFromRow getRowFromItem hs₁
        (getItemFromRow row.items original) hindex 0
      refine ⟨s₂, ?_, hs₂, hcustom₂.trans hcustom₁⟩
      simp only [hrow, horiginal, Option.bind_eq_bind, Option.bind_some, hremove]
      exact hinsert

/-- The indices are never past the end of the vector by more than the check lets pass. -/
theorem dropMimeData_iff (hs : InStep s) (accepted : Bool) (sourceRow : Nat) (toRow : Int) :
    Safe s (s.dropMimeData (plainSubclass getItemFromRow getRowFromItem) accepted sourceRow toRow) ↔
      accepted = false ∨ (sourceRow : Int) = toRow ∨ AtVectorRow s sourceRow := by
  unfold dropMimeData
  cases accepted with
  | false => exact iff_of_true ⟨s, rfl, hs, rfl⟩ (.inl rfl)
  | true =>
    have hpass : ¬ (getVectorIndexFromModelIndex s.model.rows sourceRow > s.vector.items.length ∨
        getVectorIndexFromModelIndex s.model.rows toRow > s.vector.items.length) := by
      have hfrom := @getVectorIndex_le _ _ s.model.rows sourceRow
      have hto := @getVectorIndex_le _ _ s.model.rows toRow
      rw [hs.length] at hfrom hto
      omega
    rw [if_neg (by simp)]
    dsimp only
    rw [if_neg hpass]
    by_cases hne : (sourceRow : Int) ≠ toRow
    · rw [if_pos hne, moveRows_iff getItemFromRow getRowFromItem hs]
      simp [hne]
    · rw [if_neg hne]
      exact iff_of_true ⟨s, rfl, hs, rfl⟩ (.inr (.inl (not_not.mp hne)))

/--
In a table over any vector, with custom rows anywhere and a subclass that leaves `beforeInsert` and
`afterRemoved` as they are, `removeRows`, `moveRows` and `dropMimeData` keep all indices in range, leave the
custom rows where they are and read no original of a custom row exactly if the row that is removed or moved
shows an item, or there is nothing to do. Every destination is fine.
-/
theorem row_operations_iff (hs : InStep s) :
    (∀ row count, Safe s (s.removeRows (plainSubclass getItemFromRow getRowFromItem) row count) ↔
      count ≠ 1 ∨ AtVectorRow s row) ∧
    (∀ sourceRow count destinationChild,
      Safe s (s.moveRows (plainSubclass getItemFromRow getRowFromItem) sourceRow count destinationChild) ↔
        count ≠ 1 ∨ AtVectorRow s sourceRow) ∧
    ∀ accepted sourceRow toRow,
      Safe s (s.dropMimeData (plainSubclass getItemFromRow getRowFromItem) accepted sourceRow toRow) ↔
        accepted = false ∨ (sourceRow : Int) = toRow ∨ AtVectorRow s sourceRow :=
  ⟨removeRows_iff getItemFromRow getRowFromItem hs, moveRows_iff getItemFromRow getRowFromItem hs,
    dropMimeData_iff getItemFromRow getRowFromItem hs⟩

end Operations

/-- The items `a` and `b` with a custom row before each. -/
def betweenCustom : ShownVector String String Unit where
  vector := { items := ["a", "b"], itemCompare := none }
  model := {
    rows := [{ items := ["first"], original := none, isCustomRow := true },
      { items := ["a"], original := some "a", isCustomRow := false },
      { items := ["second"], original := none, isCustomRow := true },
      { items := ["b"], original := some "b", isCustomRow := false }]
    members := () }
  columnCount := 1

theorem betweenCustom_inStep : InStep betweenCustom where
  length := rfl
  original row hrow := by
    simp only [betweenCustom, List.mem_cons, List.not_mem_nil, or_false] at hrow
    rcases hrow with rfl | rfl | rfl | rfl <;> rfl

/-- The item between the custom rows is dropped between the rows. -/
theorem row_operations_between :
    Safe betweenCustom (betweenCustom.dropMimeData (plainSubclass (fun cells original => cells.headD original)
      fun item => [item]) true 1 (-1)) :=
  ((row_operations_iff _ _ betweenCustom_inStep).2.2 true 1 (-1)).mpr
    (.inr (.inr ⟨{ items := ["a"], original := some "a", isCustomRow := false }, rfl, rfl⟩))

/-- The custom row between the items is removed, moved up, and dropped on the first item. -/
theorem row_operations_custom :
    let sub := plainSubclass (fun cells original => cells.headD original) fun item => [item]
    InStep betweenCustom ∧ betweenCustom.removeRows sub 2 1 = none ∧ betweenCustom.moveRows sub 2 1 1 = none ∧
      betweenCustom.dropMimeData sub true 2 1 = none :=
  ⟨betweenCustom_inStep, rfl, rfl, rfl⟩

end ShownVector

end Dankerino
