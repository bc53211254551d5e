import Dankerino.Common.VectorSync
import Dankerino.Hotkeys.HotkeyModel
import Dankerino.Infra.Sections

/-!
# The sections of the hotkey table

`table` is what the rows should be: the hotkeys of the vector under one header for each category. A
step of the vector keeps the rows so exactly if it does not insert the first hotkey of a category
before a later category: the header is then put behind the header of the later one.
-/

namespace Dankerino

open Infra SignalVectorModel

namespace HotkeyModel

variable (actionNames : HotkeyCategory → List QString)

def header (category : HotkeyCategory) : Row Hotkey HotkeyCell :=
  { items := headerCells (categoryDisplayName category), original := none, isCustomRow := true }

def hotkeyRow (item : Hotkey) : Row Hotkey HotkeyCell :=
  { items := getRowFromItem actionNames item, original := some item, isCustomRow := false }

/-- A header for each category that has a hotkey, and after it the hotkeys of the category. -/
def table (items : List Hotkey) : List (Row Hotkey HotkeyCell) :=
  sections Hotkey.category header (hotkeyRow actionNames) items

theorem table_nil : table actionNames [] = [] := by rw [table, sections_nil]

/-! ## The hotkeys around a category -/

/-- The hotkeys before a category, of the category and after it. -/
structure Around (c : HotkeyCategory) (lo mid hi : List Hotkey) : Prop where
  below : ∀ x ∈ lo, x.category < c
  same : ∀ x ∈ mid, x.category = c
  above : ∀ x ∈ hi, c < x.category

def Sorted (items : List Hotkey) : Prop := items.Pairwise fun a b => a.category ≤ b.category

/-- A sorted vector that is cut at a category is cut inside the hotkeys of the category. -/
theorem Sorted.around {c : HotkeyCategory} {a b : List Hotkey} (ha : Sorted a) (hb : Sorted b)
    (hac : ∀ x ∈ a, x.category ≤ c) (hcb : ∀ x ∈ b, c ≤ x.category) :
    ∃ lo mid₁ mid₂ hi, a = lo ++ mid₁ ∧ b = mid₂ ++ hi ∧ Around c lo (mid₁ ++ mid₂) hi := by
  obtain ⟨lo, mid₁, rfl, hlo, hmid₁⟩ := exists_cut_of_pairwise
    (p := fun x : Hotkey => x.category < c) (fun _ _ hxy hy => lt_of_le_of_lt hxy hy) ha
  obtain ⟨mid₂, hi, rfl, hmid₂, hhi⟩ := exists_cut_of_pairwise
    (p := fun x : Hotkey => x.category ≤ c) (fun _ _ hxy hy => le_trans hxy hy) hb
  refine ⟨lo, mid₁, mid₂, hi, rfl, rfl, hlo, ?_, fun x hx => not_le.mp (hhi x hx)⟩
  intro x hx
  rcases List.mem_append.mp hx with hx | hx
  · exact le_antisymm (hac x (List.mem_append_right _ hx)) (not_lt.mp (hmid₁ x hx))
  · exact le_antisymm (hmid₂ x hx) (hcb x (List.mem_append_left _ hx))

section Table

variable {c : HotkeyCategory} {lo mid hi : List Hotkey}

theorem Around.table_append (h : Around c lo mid hi) :
    table actionNames (lo ++ (mid ++ hi))
      = table actionNames lo ++ (table actionNames mid ++ table actionNames hi) := by
  have hmid : ∀ x ∈ mid, ∀ y ∈ hi, x.category ≠ y.category := by
    intro x hx y hy
    rw [h.same x hx]
    exact ne_of_lt (h.above y hy)
  have hlo : ∀ x ∈ lo, ∀ y ∈ mid ++ hi, x.category ≠ y.category := by
    intro x hx y hy
    rcases List.mem_append.mp hy with hy | hy
    · rw [h.same y hy]
      exact ne_of_lt (h.below x hx)
    · exact ne_of_lt ((h.below x hx).trans (h.above y hy))
  unfold table
  rw [sections_append hlo, sections_append hmid]

theorem Around.table_eq (h : Around c lo mid hi) (hne : mid ≠ []) :
    table actionNames (lo ++ (mid ++ hi)) = table actionNames lo ++
      header c :: (mid.map (hotkeyRow actionNames) ++ table actionNames hi) := by
  have hmid : table actionNames mid = header c :: mid.map (hotkeyRow actionNames) :=
    sections_same hne h.same
  rw [h.table_append actionNames, hmid, List.cons_append]

theorem length_vectorRows_table (items : List Hotkey) :
    (vectorRows (table actionNames items)).length = items.length :=
  length_filter_sections (fun _ => rfl) (fun _ => rfl) items

theorem length_vectorRows_map (items : List Hotkey) :
    (vectorRows (items.map (hotkeyRow actionNames))).length = items.length := by
  have hall : vectorRows (items.map (hotkeyRow actionNames)) = items.map (hotkeyRow actionNames) := by
    unfold vectorRows
    rw [List.filter_eq_self]
    intro row hrow
    obtain ⟨x, -, rfl⟩ := List.mem_map.mp hrow
    rfl
  rw [hall, List.length_map]

/-- The first section. -/
theorem table_cons {y : Hotkey} {items : List Hotkey} (h : Sorted (y :: items)) :
    ∃ post, table actionNames (y :: items)
      = header y.category :: hotkeyRow actionNames y :: post := by
  obtain ⟨hy, hitems⟩ := List.pairwise_cons.mp h
  obtain ⟨lo, mid₁, mid₂, hi, hnil, rfl, haround⟩ :=
    Sorted.around (a := []) (c := y.category) List.Pairwise.nil hitems (by simp) hy
  obtain ⟨rfl, rfl⟩ := List.nil_eq_append_iff.mp hnil
  have haround' : Around y.category [] (y :: mid₂) hi := by
    refine ⟨by simp, ?_, haround.above⟩
    rintro x (_ | ⟨_, hx⟩)
    · rfl
    · exact haround.same x hx
  exact ⟨_, haround'.table_eq actionNames (List.cons_ne_nil _ _)⟩

end Table

/-! ## Indices -/

section Indices

variable {c : HotkeyCategory} {lo mid mid₁ mid₂ hi : List Hotkey} {y : Hotkey}

/-- The row of a hotkey of the category. -/
theorem Around.modelIndex_row (h : Around c lo (mid₁ ++ y :: mid₂) hi) :
    getModelIndexFromVectorIndex (table actionNames (lo ++ (mid₁ ++ y :: mid₂ ++ hi)))
      (lo.length + mid₁.length) = (table actionNames lo).length + 1 + mid₁.length := by
  have hcut : table actionNames (lo ++ (mid₁ ++ y :: mid₂ ++ hi))
      = (table actionNames lo ++ header c :: mid₁.map (hotkeyRow actionNames)) ++
        hotkeyRow actionNames y :: (mid₂.map (hotkeyRow actionNames) ++ table actionNames hi) := by
    rw [h.table_eq actionNames (by simp)]
    simp
  have hlen : (vectorRows (table actionNames lo ++ header c :: mid₁.map (hotkeyRow actionNames))).length
      = lo.length + mid₁.length := by
    have hrows := vectorRows_cons_custom (mid₁.map (hotkeyRow actionNames))
      (show (header c).isCustomRow = true from rfl)
    unfold vectorRows at hrows ⊢
    rw [List.filter_append, hrows, List.length_append]
    exact congrArg₂ (· + ·) (length_vectorRows_table actionNames lo) (length_vectorRows_map actionNames mid₁)
  rw [hcut, ← hlen, getModelIndex_cut rfl]
  simp only [List.length_append, List.length_cons, List.length_map]
  omega

/-- The header of the next category. -/
theorem Around.table_next (h : Around c lo mid (y :: hi)) (hhi : Sorted (y :: hi)) :
    ∃ post, table actionNames (lo ++ (mid ++ y :: hi))
      = (table actionNames lo ++ table actionNames mid ++ [header y.category]) ++
        hotkeyRow actionNames y :: post := by
  obtain ⟨post, hpost⟩ := table_cons actionNames hhi
  refine ⟨post, ?_⟩
  rw [h.table_append actionNames, hpost]
  simp

/-- The place behind the hotkeys of the category is after the header of the next one. -/
theorem Around.modelIndex_next (h : Around c lo mid (y :: hi)) (hhi : Sorted (y :: hi)) :
    getModelIndexFromVectorIndex (table actionNames (lo ++ (mid ++ y :: hi)))
      (lo.length + mid.length)
        = (table actionNames lo).length + (table actionNames mid).length + 1 := by
  obtain ⟨post, hpost⟩ := h.table_next actionNames hhi
  have hlen : (vectorRows (table actionNames lo ++ table actionNames mid ++
      [header y.category])).length = lo.length + mid.length := by
    have hheader : [header y.category].filter isVectorRow = [] := rfl
    unfold vectorRows
    rw [List.filter_append, List.filter_append, hheader, List.append_nil, List.length_append]
    exact congrArg₂ (· + ·) (length_vectorRows_table actionNames lo) (length_vectorRows_table actionNames mid)
  rw [hpost, ← hlen, getModelIndex_cut rfl]
  simp only [List.length_append, List.length_cons, List.length_nil]

/-- The place behind all hotkeys is the end of the table. -/
theorem modelIndex_end (items : List Hotkey) :
    getModelIndexFromVectorIndex (table actionNames items) items.length
      = (table actionNames items).length := by
  have hend : getModelIndexFromVectorIndex (table actionNames items)
      (vectorRows (table actionNames items)).length = (table actionNames items).length :=
    getModelIndex_end
  rwa [length_vectorRows_table actionNames] at hend

/-! ### Headers -/

theorem categoryLoop_skip {text : QString} : ∀ {rows : List (Row Hotkey HotkeyCell)} (i : Nat)
    (rest : List (Row Hotkey HotkeyCell)),
    (∀ row ∈ rows, row.isCustomRow = true → customRowValue row ≠ text) →
      categoryLoop text i none (rows ++ rest) = categoryLoop text (i + rows.length) none rest
  | [], _, _, _ => rfl
  | row :: rows, i, rest, h => by
    have ih := categoryLoop_skip (i + 1) rest fun r hr => h r (List.mem_cons_of_mem _ hr)
    rw [List.cons_append, List.length_cons, Nat.add_comm rows.length, ← Nat.add_assoc, ← ih]
    by_cases hrow : row.isCustomRow = true
    · have htext := h row List.mem_cons_self hrow
      conv => lhs; unfold categoryLoop
      rw [if_pos hrow, if_neg htext]
    · conv => lhs; unfold categoryLoop
      rw [if_neg hrow]

theorem categoryLoop_same {text : QString} {k : Nat} : ∀ {rows : List (Row Hotkey HotkeyCell)}
    (i : Nat) (rest : List (Row Hotkey HotkeyCell)), (∀ row ∈ rows, ¬ row.isCustomRow = true) →
      categoryLoop text i (some k) (rows ++ rest) = categoryLoop text (i + rows.length) (some k) rest
  | [], _, _, _ => rfl
  | row :: rows, i, rest, h => by
    have ih : categoryLoop text (i + 1) (some k) (rows ++ rest)
        = categoryLoop text (i + 1 + rows.length) (some k) rest :=
      categoryLoop_same (i + 1) rest fun r hr => h r (List.mem_cons_of_mem _ hr)
    rw [List.cons_append, List.length_cons, Nat.add_comm rows.length, ← Nat.add_assoc, ← ih]
    conv => lhs; unfold categoryLoop
    rw [if_neg (h row List.mem_cons_self)]

/-- The header after the hotkeys of the category, if there is one. -/
theorem Around.next (h : Around c lo mid hi) (hne : mid ≠ []) (hhi : Sorted hi) :
    (getCurrentAndNextCategoryModelIndex (table actionNames (lo ++ (mid ++ hi)))
      (categoryDisplayName c)).2
        = if hi = [] then none else some ((table actionNames lo).length + 1 + mid.length) := by
  have hlo : ∀ row ∈ table actionNames lo, row.isCustomRow = true →
      customRowValue row ≠ categoryDisplayName c := by
    intro row hrow hcustom heq
    obtain ⟨x, hx, rfl | rfl⟩ := mem_sections hrow
    · exact ne_of_lt (h.below x hx) (categoryDisplayName_injective heq)
    · exact Bool.false_ne_true hcustom
  have hmid : ∀ row ∈ mid.map (hotkeyRow actionNames), ¬ row.isCustomRow = true := by
    intro row hrow hcustom
    obtain ⟨x, -, rfl⟩ := List.mem_map.mp hrow
    exact Bool.false_ne_true hcustom
  unfold getCurrentAndNextCategoryModelIndex
  rw [h.table_eq actionNames hne, categoryLoop_skip 0 _ hlo]
  unfold categoryLoop
  rw [if_pos (show (header c).isCustomRow = true from rfl),
    if_pos (show customRowValue (header c) = categoryDisplayName c from rfl),
    categoryLoop_same _ _ hmid, List.length_map, Nat.zero_add]
  cases hi with
  | nil => rfl
  | cons y hi =>
    obtain ⟨post, hpost⟩ := table_cons actionNames hhi
    rw [hpost]
    rfl

end Indices

/-! ## Signals -/

/-- `categoryCount_` counts the hotkeys of each category. -/
def Counted (counts : Counts) (items : List Hotkey) : Prop :=
  ∀ c, counts (categoryDisplayName c)
    = if items.countP (·.category = c) = 0 then none else some (items.countP (·.category = c))

/-- The table shows these hotkeys. -/
structure Shows (m : State) (items : List Hotkey) : Prop where
  rows : m.rows = table actionNames items
  counted : Counted m.members items

section Signals

variable {x : Hotkey} {lo mid₁ mid₂ hi a b : List Hotkey} {m m' : State}

theorem Counted.getD {counts : Counts} {items : List Hotkey} (h : Counted counts items)
    (c : HotkeyCategory) :
    (counts (categoryDisplayName c)).getD 0 = items.countP (·.category = c) := by
  rw [h c]
  split
  · next hzero => exact hzero.symm
  · rfl

theorem Counted.getD_eq_zero {counts : Counts} {items : List Hotkey} (h : Counted counts items)
    (c : HotkeyCategory) :
    (counts (categoryDisplayName c)).getD 0 = 0 ↔ ∀ y ∈ items, y.category ≠ c := by
  rw [h.getD, List.countP_eq_zero]
  simp

theorem Counted.insert {counts : Counts} (h : Counted counts (a ++ b)) :
    Counted (Function.update counts x.getCategory (some ((counts x.getCategory).getD 0 + 1)))
      (a ++ x :: b) := by
  intro c
  have hcount : (a ++ x :: b).countP (·.category = c)
      = (a ++ b).countP (·.category = c) + if x.category = c then 1 else 0 := by
    rw [List.countP_append, List.countP_append, List.countP_cons, Nat.add_assoc]
    simp
  by_cases hc : x.category = c
  · have hname : categoryDisplayName c = x.getCategory := congrArg categoryDisplayName hc.symm
    rw [hname, Function.update_self, ← hname, h.getD, hcount, if_pos hc, if_neg (Nat.succ_ne_zero _)]
  · have hname : categoryDisplayName c ≠ x.getCategory :=
      fun heq => hc (categoryDisplayName_injective heq).symm
    rw [Function.update_of_ne hname, h c, hcount, if_neg hc, Nat.add_zero]

/-- A hotkey that joins its category goes to the row before which the vector has it. -/
theorem beforeInsert_present (h : Around x.category lo (mid₁ ++ mid₂) hi) (hne : mid₁ ++ mid₂ ≠ [])
    (hhi : Sorted hi) (hm : Shows actionNames m (lo ++ (mid₁ ++ mid₂ ++ hi))) :
    ∃ m', beforeInsert x (getModelIndexFromVectorIndex m.rows (lo.length + mid₁.length)) m
        = some ((table actionNames lo).length + 1 + mid₁.length, m') ∧ m'.rows = m.rows := by
  have hcount : ¬ (m.members x.getCategory).getD 0 = 0 := by
    intro hzero
    obtain ⟨y, hy⟩ := List.exists_mem_of_ne_nil _ hne
    exact (hm.counted.getD_eq_zero x.category).mp hzero y
      (List.mem_append_right _ (List.mem_append_left _ hy)) (h.same y hy)
  have hnext := h.next actionNames hne hhi
  unfold beforeInsert
  simp only []
  rw [if_neg hcount]
  simp only [hm.rows]
  rw [show x.getCategory = categoryDisplayName x.category from rfl, hnext]
  cases mid₂ with
  | cons y mid₂ =>
    rw [h.modelIndex_row actionNames]
    by_cases hnil : hi = []
    · rw [if_pos hnil]
      exact ⟨_, rfl, rfl⟩
    · rw [if_neg hnil]
      simp only [List.length_append, List.length_cons]
      rw [if_neg (by omega)]
      exact ⟨_, rfl, rfl⟩
  | nil =>
    rw [List.append_nil] at h hne ⊢
    have htable := h.table_eq actionNames hne
    cases hi with
    | nil =>
      have hend := modelIndex_end actionNames (lo ++ (mid₁ ++ []))
      rw [List.append_nil, List.length_append] at hend
      rw [List.append_nil] at htable ⊢
      rw [if_pos rfl, hend, htable]
      simp only [List.length_append, List.length_cons, List.length_map]
      refine ⟨_, congrArg some (Prod.ext ?_ rfl), rfl⟩
      simp [table_nil]
      omega
    | cons y hi =>
      have hmid : table actionNames mid₁ = header x.category :: mid₁.map (hotkeyRow actionNames) :=
        sections_same hne h.same
      rw [h.modelIndex_next actionNames hhi, if_neg (List.cons_ne_nil _ _), hmid]
      simp only [List.length_cons, List.length_map]
      rw [if_pos (by omega)]
      exact ⟨_, congrArg some (Prod.ext (by simp only []; omega) rfl), rfl⟩

/-- The first hotkey of a category comes with a header. -/
theorem beforeInsert_new {items : List Hotkey} {i : Nat} (hi : i ≤ m.rows.length)
    (hm : Counted m.members items) (hnew : ∀ y ∈ items, y.category ≠ x.category) :
    ∃ m', beforeInsert x i m = some (i + 1, m') ∧
      m'.rows = m.rows.insertIdx i (header x.category) := by
  have hcount : (m.members x.getCategory).getD 0 = 0 := (hm.getD_eq_zero x.category).mpr hnew
  unfold beforeInsert
  simp only []
  rw [if_pos hcount]
  unfold insertCustomRow
  simp only []
  rw [if_pos hi]
  exact ⟨_, rfl, rfl⟩

theorem insertCustomRow_members {row : List HotkeyCell} {i : Nat}
    (h : insertCustomRow m row i = some m') : m'.members = m.members := by
  unfold insertCustomRow at h
  split at h
  · obtain rfl := Option.some.inj h
    rfl
  · exact nomatch h

theorem beforeInsert_members {i j : Nat} (h : beforeInsert x i m = some (j, m')) :
    m'.members = Function.update m.members x.getCategory
      (some ((m.members x.getCategory).getD 0 + 1)) := by
  unfold beforeInsert at h
  simp only [] at h
  split at h
  · obtain ⟨m₁, hm₁, heq⟩ := Option.bind_eq_some_iff.mp h
    obtain rfl := (Prod.mk.inj (Option.some.inj heq)).2
    exact insertCustomRow_members hm₁
  · split at h
    · split at h <;> obtain rfl := (Prod.mk.inj (Option.some.inj h)).2 <;> rfl
    · obtain rfl := (Prod.mk.inj (Option.some.inj h)).2
      rfl

theorem onItemInserted_members {i : Nat}
    (h : onItemInserted (subclass actionNames) m x i = some m') :
    m'.members = Function.update m.members x.getCategory
      (some ((m.members x.getCategory).getD 0 + 1)) := by
  obtain ⟨⟨j, m₁⟩, hbefore, hrest⟩ := Option.bind_eq_some_iff.mp h
  simp only [] at hrest
  split at hrest
  · obtain rfl := Option.some.inj hrest
    rw [← beforeInsert_members (show beforeInsert x _ m = some (j, m₁) from hbefore)]
  · exact nomatch hrest

/-- What is left to do after `beforeInsert`. -/
theorem onItemInserted_of_beforeInsert (m₁ : State) {i : Nat} {l r : List (Row Hotkey HotkeyCell)}
    (hbefore : beforeInsert x (getModelIndexFromVectorIndex m.rows i) m = some (l.length, m₁))
    (hrows : m₁.rows = l ++ r) :
    ∃ m', onItemInserted (subclass actionNames) m x i = some m' ∧
      m'.rows = l ++ hotkeyRow actionNames x :: r := by
  refine ⟨{ m₁ with rows := m₁.rows.insertIdx l.length (hotkeyRow actionNames x) }, ?_, ?_⟩
  · unfold onItemInserted
    rw [show (subclass actionNames).beforeInsert = beforeInsert from rfl, hbefore]
    simp only [Option.bind_eq_bind, Option.bind_some]
    rw [if_pos (by rw [hrows]; simp)]
    rfl
  · simp only []
    rw [hrows, insertIdx_length_append]

/-- An insertion that the table shows: the category is there, or nothing stands behind. -/
theorem insert_shows (ha : Sorted a) (hb : Sorted b) (hax : ∀ y ∈ a, y.category ≤ x.category)
    (hxb : ∀ y ∈ b, x.category ≤ y.category) (hm : Shows actionNames m (a ++ b))
    (hfits : (∃ y ∈ a ++ b, y.category = x.category) ∨ b = []) :
    ∃ m', onItemInserted (subclass actionNames) m x a.length = some m' ∧
      Shows actionNames m' (a ++ x :: b) := by
  obtain ⟨lo, mid₁, mid₂, hi, rfl, rfl, haround⟩ := ha.around hb hax hxb
  have hassoc : lo ++ mid₁ ++ (mid₂ ++ hi) = lo ++ (mid₁ ++ mid₂ ++ hi) := by simp
  have haround' : Around x.category lo (mid₁ ++ x :: mid₂) hi := by
    refine ⟨haround.below, ?_, haround.above⟩
    intro y hy
    rcases List.mem_append.mp hy with hy | hy | ⟨_, hy⟩
    · exact haround.same y (List.mem_append_left _ hy)
    · rfl
    · exact haround.same y (List.mem_append_right _ hy)
  have hgoal : table actionNames (lo ++ mid₁ ++ x :: (mid₂ ++ hi))
      = (table actionNames lo ++ header x.category :: mid₁.map (hotkeyRow actionNames)) ++
        hotkeyRow actionNames x :: (mid₂.map (hotkeyRow actionNames) ++ table actionNames hi) := by
    have htable := haround'.table_eq actionNames (by simp)
    simpa using htable
  suffices hrows : ∃ m', onItemInserted (subclass actionNames) m x (lo ++ mid₁).length = some m' ∧
      m'.rows = table actionNames (lo ++ mid₁ ++ x :: (mid₂ ++ hi)) by
    obtain ⟨m', hm', hrows'⟩ := hrows
    refine ⟨m', hm', hrows', ?_⟩
    rw [onItemInserted_members actionNames hm']
    exact hm.counted.insert
  rw [hgoal]
  by_cases hne : mid₁ ++ mid₂ = []
  · -- the category is new, so nothing stands behind
    obtain ⟨rfl, rfl⟩ := List.append_eq_nil_iff.mp hne
    have hnew : ∀ y ∈ lo ++ [] ++ ([] ++ hi), y.category ≠ x.category := by
      intro y hy
      simp only [List.append_nil, List.nil_append, List.mem_append] at hy
      rcases hy with hy | hy
      · exact ne_of_lt (haround.below y hy)
      · exact (ne_of_lt (haround.above y hy)).symm
    obtain rfl : hi = [] := by
      rcases hfits with ⟨y, hy, heq⟩ | hnil
      · exact absurd heq (hnew y hy)
      · simpa using hnil
    have hrows : m.rows = table actionNames lo := by
      have hrows := hm.rows
      simpa using hrows
    have hend := modelIndex_end actionNames lo
    rw [← hrows] at hend
    obtain ⟨m₁, hbefore, hm₁⟩ := beforeInsert_new (Nat.le_refl m.rows.length) hm.counted hnew
    rw [List.append_nil]
    refine onItemInserted_of_beforeInsert actionNames m₁ ?_ ?_
    · rw [hend, hbefore, hrows]
      simp
    · rw [hm₁, hrows, List.insertIdx_length_self]
      simp [table_nil]
  · obtain ⟨m₁, hbefore, hm₁⟩ := beforeInsert_present actionNames haround hne
      ((List.pairwise_append.mp hb).2.1) (hassoc ▸ hm)
    rw [List.length_append]
    refine onItemInserted_of_beforeInsert actionNames m₁ ?_ ?_
    · rw [hbefore]
      simp only [List.length_append, List.length_cons, List.length_map]
      exact congrArg some (Prod.ext (by simp only []; omega) rfl)
    · have htable := haround.table_eq actionNames hne
      rw [hm₁, hm.rows, hassoc, htable]
      simp

/-- The first hotkey of a category before a later category: its header comes too late. -/
theorem insert_not_shown {y : Hotkey} (hb : Sorted (y :: b))
    (hax : ∀ z ∈ a, z.category ≤ x.category) (hxb : ∀ z ∈ y :: b, x.category ≤ z.category)
    (hm : Shows actionNames m (a ++ y :: b)) (hnew : ∀ z ∈ a ++ y :: b, z.category ≠ x.category) :
    ∃ m', onItemInserted (subclass actionNames) m x a.length = some m' ∧
      m'.rows ≠ table actionNames (a ++ x :: y :: b) := by
  have haround : Around x.category a [] (y :: b) := by
    refine ⟨?_, by simp, ?_⟩
    · exact fun z hz => lt_of_le_of_ne (hax z hz) (hnew z (List.mem_append_left _ hz))
    · exact fun z hz => lt_of_le_of_ne (hxb z hz) (hnew z (List.mem_append_right _ hz)).symm
  have haround' : Around x.category a [x] (y :: b) := ⟨haround.below, by simp, haround.above⟩
  obtain ⟨post, hpost⟩ := haround.table_next actionNames hb
  have hindex := haround.modelIndex_next actionNames hb
  simp only [List.nil_append, List.length_nil, Nat.add_zero] at hpost hindex
  rw [show table actionNames [] = [] from rfl, List.append_nil] at hpost
  rw [show table actionNames [] = [] from rfl, List.length_nil, Nat.add_zero] at hindex
  have hrows : m.rows = (table actionNames a ++ [header y.category]) ++
      hotkeyRow actionNames y :: post := hm.rows.trans hpost
  obtain ⟨m₁, hbefore, hm₁⟩ := beforeInsert_new (i := (table actionNames a).length + 1)
    (by rw [hrows]; simp) hm.counted hnew
  have hcut := insertIdx_length_append (table actionNames a ++ [header y.category])
    (hotkeyRow actionNames y :: post) (header x.category)
  rw [← hrows, List.length_append] at hcut
  obtain ⟨m', hm', hrows'⟩ := onItemInserted_of_beforeInsert actionNames m₁ (m := m)
    (x := x) (i := a.length)
    (l := table actionNames a ++ [header y.category] ++ [header x.category])
    (r := hotkeyRow actionNames y :: post)
    (by rw [hm.rows, hindex, hbefore]; simp) (by rw [hm₁]; simpa using hcut)
  refine ⟨m', hm', ?_⟩
  have htable := haround'.table_eq actionNames (by simp)
  rw [List.singleton_append] at htable
  rw [hrows', htable]
  intro heq
  rw [List.append_assoc, List.append_assoc] at heq
  have hhead := List.head_eq_of_cons_eq (List.append_cancel_left heq)
  have hname : categoryDisplayName y.category = categoryDisplayName x.category :=
    congrArg customRowValue hhead
  exact hnew y (List.mem_append_right _ List.mem_cons_self) (categoryDisplayName_injective hname)

/-! ### Removals -/

theorem countP_mid (hm : Counted m.members (a ++ x :: b)) :
    m.members x.getCategory = some ((a ++ b).countP (·.category = x.category) + 1) := by
  have hcount : (a ++ x :: b).countP (·.category = x.category)
      = (a ++ b).countP (·.category = x.category) + 1 := by
    rw [List.countP_append, List.countP_append, List.countP_cons, Nat.add_assoc]
    simp
  have hc := hm x.category
  rw [hcount, if_neg (Nat.succ_ne_zero _)] at hc
  exact hc

theorem Counted.remove {counts : Counts} (h : Counted counts (a ++ x :: b)) :
    Counted (Function.update counts x.getCategory
      (if (a ++ b).countP (·.category = x.category) = 0 then none
        else some ((a ++ b).countP (·.category = x.category)))) (a ++ b) := by
  intro c
  by_cases hc : x.category = c
  · subst hc
    exact Function.update_self _ _ _
  · have hname : categoryDisplayName c ≠ x.getCategory :=
      fun heq => hc (categoryDisplayName_injective heq).symm
    have hcount : (a ++ x :: b).countP (·.category = c) = (a ++ b).countP (·.category = c) := by
      rw [List.countP_append, List.countP_append, List.countP_cons_of_neg (by simpa using hc)]
    rw [Function.update_of_ne hname, h c, hcount]

theorem afterRemoved_members {i n : Nat} (hcount : m.members x.getCategory = some (n + 1))
    (h : afterRemoved x i m = some m') :
    m'.members = Function.update m.members x.getCategory (if n = 0 then none else some n) := by
  unfold afterRemoved at h
  simp only [hcount] at h
  by_cases hn : n = 0
  · rw [if_pos (by omega)] at h
    rw [if_pos hn]
    split at h
    · exact nomatch h
    · unfold removeCustomRow at h
      split at h
      · exact nomatch h
      · split at h
        · rw [← Option.some.inj h]
        · exact nomatch h
  · rw [if_neg (by omega)] at h
    rw [if_neg hn, ← Option.some.inj h]
    rfl

theorem onItemRemoved_members {i n : Nat} (hcount : m.members x.getCategory = some (n + 1))
    (h : onItemRemoved (subclass actionNames) m x i = some m') :
    m'.members = Function.update m.members x.getCategory (if n = 0 then none else some n) := by
  unfold onItemRemoved at h
  simp only [] at h
  split at h
  · exact afterRemoved_members (m := { m with rows := m.rows.eraseIdx _ }) hcount h
  · exact nomatch h

/-- The hotkey goes, and with the last one of a category its header. -/
theorem remove_shows (hsorted : Sorted (a ++ x :: b)) (hm : Shows actionNames m (a ++ x :: b)) :
    ∃ m', onItemRemoved (subclass actionNames) m x a.length = some m' ∧
      Shows actionNames m' (a ++ b) := by
  obtain ⟨ha, hxb, hax⟩ := List.pairwise_append.mp hsorted
  obtain ⟨hx, hb⟩ := List.pairwise_cons.mp hxb
  obtain ⟨lo, mid₁, mid₂, hi, rfl, rfl, haround⟩ :=
    Sorted.around ha hb (fun y hy => hax y hy x List.mem_cons_self) hx
  have haround' : Around x.category lo (mid₁ ++ x :: mid₂) hi := by
    refine ⟨haround.below, ?_, haround.above⟩
    intro y hy
    rcases List.mem_append.mp hy with hy | hy | ⟨_, hy⟩
    · exact haround.same y (List.mem_append_left _ hy)
    · rfl
    · exact haround.same y (List.mem_append_right _ hy)
  have hassoc : lo ++ mid₁ ++ x :: (mid₂ ++ hi) = lo ++ (mid₁ ++ x :: mid₂ ++ hi) := by simp
  have htable := haround'.table_eq actionNames (by simp)
  have hcut : m.rows = (table actionNames lo ++ header x.category :: mid₁.map (hotkeyRow actionNames)) ++
      hotkeyRow actionNames x :: (mid₂.map (hotkeyRow actionNames) ++ table actionNames hi) := by
    rw [hm.rows, hassoc, htable]
    simp
  have hindex : getModelIndexFromVectorIndex m.rows (lo ++ mid₁).length
      = (table actionNames lo ++ header x.category :: mid₁.map (hotkeyRow actionNames)).length := by
    rw [hm.rows, hassoc, List.length_append, haround'.modelIndex_row actionNames]
    simp only [List.length_append, List.length_cons, List.length_map]
    omega
  have hcount := countP_mid hm.counted
  suffices hrows : ∃ m', onItemRemoved (subclass actionNames) m x (lo ++ mid₁).length = some m' ∧
      m'.rows = table actionNames (lo ++ mid₁ ++ (mid₂ ++ hi)) by
    obtain ⟨m', hm', hrows'⟩ := hrows
    refine ⟨m', hm', hrows', ?_⟩
    rw [onItemRemoved_members actionNames hcount hm']
    exact hm.counted.remove
  have hn : (lo ++ mid₁ ++ (mid₂ ++ hi)).countP (·.category = x.category) = 0 ↔ mid₁ ++ mid₂ = [] := by
    constructor
    · intro hzero
      by_contra hne
      obtain ⟨y, hy⟩ := List.exists_mem_of_ne_nil _ hne
      refine List.countP_eq_zero.mp hzero y ?_ (by simpa using haround.same y hy)
      rcases List.mem_append.mp hy with hy | hy
      · simp [hy]
      · simp [hy]
    · intro hnil
      obtain ⟨rfl, rfl⟩ := List.append_eq_nil_iff.mp hnil
      rw [List.countP_eq_zero]
      intro y hy
      simp only [List.append_nil, List.nil_append, List.mem_append] at hy
      rcases hy with hy | hy
      · simpa using ne_of_lt (haround.below y hy)
      · simpa using (ne_of_lt (haround.above y hy)).symm
  unfold onItemRemoved
  rw [hindex]
  simp only []
  rw [if_pos (by rw [hcut]; simp), hcut, eraseIdx_length_append,
    show (subclass actionNames).afterRemoved = afterRemoved from rfl]
  unfold afterRemoved
  simp only [hcount]
  by_cases hne : mid₁ ++ mid₂ = []
  · rw [if_pos (by rw [hn.mpr hne])]
    obtain ⟨rfl, rfl⟩ := List.append_eq_nil_iff.mp hne
    have hlen : (table actionNames lo ++
        header x.category :: List.map (hotkeyRow actionNames) []).length
          = (table actionNames lo).length + 1 := by
      simp
    rw [hlen, if_neg (Nat.succ_ne_zero _), Nat.add_sub_cancel]
    unfold removeCustomRow
    have hrest : table actionNames lo ++ header x.category :: List.map (hotkeyRow actionNames) [] ++
        (List.map (hotkeyRow actionNames) [] ++ table actionNames hi)
          = table actionNames lo ++ header x.category :: table actionNames hi := by
      simp
    simp only [hrest, getElem?_length_append]
    refine ⟨_, if_pos rfl, ?_⟩
    have happend := haround.table_append actionNames
    simp only []
    rw [eraseIdx_length_append]
    simpa [table_nil] using happend.symm
  · rw [if_neg (by have := mt hn.mp hne; omega)]
    refine ⟨_, rfl, ?_⟩
    have htable' := haround.table_eq actionNames hne
    simpa using htable'.symm

end Signals

end HotkeyModel

end Dankerino
