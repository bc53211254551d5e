import Dankerino.Widgets.ClosedSplits
import Mathlib.Data.List.Nodup
import Mathlib.Data.List.Perm.Basic

/-!
# The pages of a notebook

`Notebook` of `widgets/Notebook.cpp`: the pages of a window and which of them is shown. A page and
its tab share one address, as each page has a tab of its own. Layout, titles and the focus are left
out.

`InOrder` is what the operations keep: a page is selected unless there is none, and it is the only
one shown. `select` fails exactly on a page of another notebook.
-/

namespace Dankerino

structure Item where
  page : NotebookTab
  hidden : Bool
deriving DecidableEq

structure Notebook where
  items_ : List Item := []
  selectedPage_ : Option NotebookTab := none
  lockNotebookLayout_ : Bool := false
  /-- What was removed and waits for its deletion. -/
  removed : List Item := []
deriving DecidableEq

namespace Notebook

/-! ## Operations -/

def pages (nb : Notebook) : List NotebookTab := nb.items_.map Item.page

def setHidden (page : NotebookTab) (hidden : Bool) (nb : Notebook) : Notebook :=
  { nb with
    items_ := nb.items_.map fun item => if item.page = page then { item with hidden } else item }

def containsPage (page : NotebookTab) (nb : Notebook) : Bool :=
  nb.items_.any fun item => item.page = page

/-- `none` where the assertion fails. -/
def findItem (page : NotebookTab) (nb : Notebook) : Option Item :=
  nb.items_.find? fun item => page = item.page

/-- `select`, the part for the page that is going to be selected. -/
def showPage (page : NotebookTab) (nb : Notebook) : Option Notebook :=
  let shown := nb.setHidden page false
  if shown.containsPage page then (shown.findItem page).map fun _ => shown else none

/-- `select`, the part for the page that was selected. -/
def hideSelected (nb : Notebook) : Option Notebook :=
  match nb.selectedPage_ with
  | none => some nb
  | some page =>
    let hidden := nb.setHidden page true
    (hidden.findItem page).map fun _ => hidden

/-- `none` where an assertion fails. -/
def select (page : Option NotebookTab) (nb : Notebook) : Option Notebook :=
  if page = nb.selectedPage_ then some nb
  else do
    let nb ← match page with
      | none => some nb
      | some page => nb.showPage page
    let nb ← nb.hideSelected
    return { nb with selectedPage_ := page }

def addPage (page : NotebookTab) (select : Bool) (nb : Notebook) : Option Notebook :=
  let nb := { nb with items_ := nb.items_ ++ [{ page, hidden := true }] }
  if select ∨ nb.items_.length = 1 then nb.select (some page) else some nb

def indexOf (page : NotebookTab) (nb : Notebook) : Option Nat := nb.pages.findIdx? (· = page)

/-- The page that `removePage` selects. -/
def neighbour (i : Nat) (nb : Notebook) : Option NotebookTab :=
  if nb.items_.length = 1 then none
  else if i = nb.items_.length - 1 then nb.pages[i - 1]?
  else nb.pages[i + 1]?

def removePage (page : NotebookTab) (nb : Notebook) : Option Notebook :=
  match nb.indexOf page with
  | none => some nb
  | some i => do
    let nb ← nb.select (nb.neighbour i)
    return { nb with items_ := nb.items_.eraseIdx i, removed := nb.removed ++ nb.items_[i]?.toList }

/-- `QList::move` -/
def move {α : Type} (source target : Nat) (l : List α) : List α :=
  match l[source]? with
  | none => l
  | some x => (l.eraseIdx source).insertIdx target x

def rearrangePage (page : NotebookTab) (index : Nat) (nb : Notebook) : Notebook :=
  if nb.lockNotebookLayout_ then nb
  else
    match nb.indexOf page with
    | none => nb
    | some i => { nb with items_ := move i index nb.items_ }

/-- `page` is the address of a page that is made. -/
def getOrAddSelectedPage (page : NotebookTab) (nb : Notebook) : Option (NotebookTab × Notebook) :=
  match nb.selectedPage_ with
  | some selected => some (selected, nb)
  | none => (nb.addPage page false).map fun nb => (page, nb)

/-- `deleteLater` -/
def deletePage (page : NotebookTab) (nb : Notebook) : Notebook :=
  { nb with removed := nb.removed.filter fun item => item.page != page }

/-! ## What is shown -/

/-- The selected page is one of the pages, and the only one that is shown. -/
structure Shown (nb : Notebook) : Prop where
  nodup : nb.pages.Nodup
  selected : ∀ page, nb.selectedPage_ = some page → page ∈ nb.pages
  hidden : ∀ item ∈ nb.items_, item.hidden = false ↔ nb.selectedPage_ = some item.page
  removed : ∀ item ∈ nb.removed, item.hidden = true

/-- A page is selected unless there is none. -/
structure InOrder (nb : Notebook) : Prop extends Shown nb where
  selected_none : nb.selectedPage_ = none ↔ nb.items_ = []

/-- What `select` makes of a notebook. -/
def showOnly (page : Option NotebookTab) (nb : Notebook) : Notebook :=
  { nb with
    items_ := nb.items_.map fun item => { item with hidden := page ≠ some item.page }
    selectedPage_ := page }

theorem inOrder_empty : InOrder {} where
  nodup := List.nodup_nil
  selected := nofun
  hidden := nofun
  removed := nofun
  selected_none := iff_of_true rfl rfl

theorem length_pages (nb : Notebook) : nb.pages.length = nb.items_.length := List.length_map _

@[simp] theorem pages_showOnly (page : Option NotebookTab) (nb : Notebook) :
    (nb.showOnly page).pages = nb.pages := by
  simp [pages, showOnly, Function.comp_def]

@[simp] theorem selectedPage_showOnly (page : Option NotebookTab) (nb : Notebook) :
    (nb.showOnly page).selectedPage_ = page := rfl

@[simp] theorem removed_showOnly (page : Option NotebookTab) (nb : Notebook) :
    (nb.showOnly page).removed = nb.removed := rfl

@[simp] theorem pages_setHidden (page : NotebookTab) (hidden : Bool) (nb : Notebook) :
    (nb.setHidden page hidden).pages = nb.pages := by
  unfold pages setHidden
  rw [List.map_map]
  refine List.map_congr_left fun item _ => ?_
  rw [Function.comp_apply]
  split_ifs <;> rfl

theorem containsPage_iff {page : NotebookTab} {nb : Notebook} :
    nb.containsPage page = true ↔ page ∈ nb.pages := by
  simp [containsPage, pages]

theorem findItem_of_mem {page : NotebookTab} {nb : Notebook} (h : page ∈ nb.pages) :
    ∃ item, nb.findItem page = some item := by
  obtain ⟨item, hitem, rfl⟩ := List.mem_map.mp h
  exact Option.isSome_iff_exists.mp (List.find?_isSome.mpr ⟨item, hitem, by simp⟩)

theorem showPage_of_mem {page : NotebookTab} {nb : Notebook} (h : page ∈ nb.pages) :
    nb.showPage page = some (nb.setHidden page false) := by
  have hmem : page ∈ (nb.setHidden page false).pages := by rwa [pages_setHidden]
  obtain ⟨item, hitem⟩ := findItem_of_mem hmem
  unfold showPage
  rw [if_pos (containsPage_iff.mpr hmem), hitem, Option.map_some]

theorem showPage_of_not_mem {page : NotebookTab} {nb : Notebook} (h : page ∉ nb.pages) :
    nb.showPage page = none := by
  refine if_neg fun hcontains => h ?_
  rwa [containsPage_iff, pages_setHidden] at hcontains

theorem hideSelected_eq {nb : Notebook} (h : ∀ page, nb.selectedPage_ = some page → page ∈ nb.pages) :
    nb.hideSelected = some { nb with
      items_ := nb.items_.map fun item =>
        if nb.selectedPage_ = some item.page then { item with hidden := true } else item } := by
  unfold hideSelected
  cases hsel : nb.selectedPage_ with
  | none =>
    obtain ⟨items, selected, locked, removed⟩ := nb
    obtain rfl : selected = none := hsel
    simp
  | some page =>
    have hmem : page ∈ (nb.setHidden page true).pages := by
      rw [pages_setHidden]
      exact h page hsel
    obtain ⟨item, hitem⟩ := findItem_of_mem hmem
    simp only [hitem, Option.map_some]
    simp [setHidden, hsel, eq_comm]

theorem Shown.showOnly_selected {nb : Notebook} (h : Shown nb) : nb.showOnly nb.selectedPage_ = nb := by
  have hitems : nb.items_.map (fun item => { item with hidden := nb.selectedPage_ ≠ some item.page })
      = nb.items_ := by
    refine (List.map_congr_left fun item hitem => ?_).trans (List.map_id _)
    have hhidden := h.hidden item hitem
    obtain ⟨page, hidden⟩ := item
    cases hidden <;> simp_all
  unfold showOnly
  rw [hitems]

/-- The old page is hidden and the new one shown. -/
theorem Shown.select {nb : Notebook} (h : Shown nb) {page : Option NotebookTab}
    (hpage : ∀ p, page = some p → p ∈ nb.pages) : nb.select page = some (nb.showOnly page) := by
  unfold Notebook.select
  by_cases heq : page = nb.selectedPage_
  · rw [if_pos heq, heq, h.showOnly_selected]
  · rw [if_neg heq]
    cases page with
    | none =>
      simp only [Option.bind_eq_bind, Option.bind_some, hideSelected_eq h.selected]
      refine congrArg (fun items => some { nb with items_ := items, selectedPage_ := none }) ?_
      refine List.map_congr_left fun item hitem => ?_
      have hhidden := h.hidden item hitem
      split_ifs with hsel
      · rfl
      · obtain ⟨p, hidden⟩ := item
        cases hidden <;> simp_all
    | some p =>
      have hselected : ∀ old, (nb.setHidden p false).selectedPage_ = some old →
          old ∈ (nb.setHidden p false).pages := by
        intro old hold
        rw [pages_setHidden]
        exact h.selected old hold
      simp only [Option.bind_eq_bind, showPage_of_mem (hpage p rfl), Option.bind_some,
        hideSelected_eq hselected]
      refine congrArg (fun items => some { nb with items_ := items, selectedPage_ := some p }) ?_
      unfold setHidden
      dsimp only
      rw [List.map_map]
      refine List.map_congr_left fun item hitem => ?_
      have hhidden := h.hidden item hitem
      obtain ⟨q, hidden⟩ := item
      by_cases hq : q = p
      · subst hq
        simp [Ne.symm heq]
      · cases hidden <;> simp_all [Ne.symm hq]

/-- The assertion in `select` fails on a page of another notebook. -/
theorem Shown.select_of_not_mem {nb : Notebook} (h : Shown nb) {page : NotebookTab}
    (hpage : page ∉ nb.pages) : nb.select (some page) = none := by
  unfold Notebook.select
  rw [if_neg fun heq => hpage (h.selected page heq.symm)]
  simp only [Option.bind_eq_bind, showPage_of_not_mem hpage, Option.bind_none]

theorem Shown.showOnly {nb : Notebook} (h : Shown nb) {page : Option NotebookTab}
    (hpage : ∀ p, page = some p → p ∈ nb.pages) : Shown (nb.showOnly page) where
  nodup := by rw [pages_showOnly]; exact h.nodup
  selected p hp := by rw [pages_showOnly]; exact hpage p hp
  hidden item hitem := by
    obtain ⟨old, -, rfl⟩ := List.mem_map.mp hitem
    simp
  removed := h.removed

/-! ## The operations keep the order -/

theorem InOrder.select {nb : Notebook} (h : InOrder nb) {page : NotebookTab} (hpage : page ∈ nb.pages) :
    nb.select (some page) = some (nb.showOnly (some page)) ∧ InOrder (nb.showOnly (some page)) := by
  have hmem : ∀ p, some page = some p → p ∈ nb.pages := fun p hp => Option.some.inj hp ▸ hpage
  refine ⟨h.toShown.select hmem, h.toShown.showOnly hmem, ?_⟩
  obtain ⟨item, hitem, -⟩ := List.mem_map.mp hpage
  refine iff_of_false nofun fun hnil => ?_
  exact List.ne_nil_of_mem hitem (List.map_eq_nil_iff.mp hnil)

theorem InOrder.addPage {nb : Notebook} (h : InOrder nb) {page : NotebookTab} (hpage : page ∉ nb.pages)
    (select : Bool) : ∃ nb', nb.addPage page select = some nb' ∧ InOrder nb' ∧
      nb'.pages = nb.pages ++ [page] := by
  let added : Notebook := { nb with items_ := nb.items_ ++ [{ page, hidden := true }] }
  have hpages : added.pages = nb.pages ++ [page] := List.map_append
  have hshown : Shown added := by
    refine ⟨?_, fun p hp => ?_, fun item hitem => ?_, h.removed⟩
    · rw [hpages, ← List.concat_eq_append]
      exact List.Nodup.concat hpage h.nodup
    · rw [hpages]
      exact List.mem_append_left _ (h.selected p hp)
    · rcases List.mem_append.mp hitem with hold | hnew
      · exact h.hidden item hold
      · obtain rfl := List.mem_singleton.mp hnew
        exact iff_of_false nofun fun hsel => hpage (h.selected page hsel)
  have hne : added.items_ ≠ [] := List.append_ne_nil_of_right_ne_nil _ (List.cons_ne_nil _ _)
  unfold Notebook.addPage
  dsimp only
  split_ifs with hselect
  · have hmem : ∀ p, some page = some p → p ∈ added.pages := by
      rintro p ⟨⟩
      rw [hpages]
      exact List.mem_append_right _ (List.mem_singleton.mpr rfl)
    refine ⟨_, hshown.select hmem, ⟨hshown.showOnly hmem, ?_⟩, ?_⟩
    · exact iff_of_false nofun fun hnil => hne (List.map_eq_nil_iff.mp hnil)
    · rw [pages_showOnly, hpages]
  · refine ⟨added, rfl, ⟨hshown, iff_of_false (fun hsel => ?_) hne⟩, hpages⟩
    -- The first page of a notebook is selected in any case.
    have hnil := h.selected_none.mp hsel
    exact hselect (.inr (by rw [hnil]; rfl))

theorem InOrder.getOrAddSelectedPage {nb : Notebook} (h : InOrder nb) {page : NotebookTab}
    (hpage : page ∉ nb.pages) : ∃ p nb', nb.getOrAddSelectedPage page = some (p, nb') ∧
      InOrder nb' ∧ p ∈ nb'.pages ∧ ∀ q ∈ nb'.pages, q ∈ nb.pages ∨ q = page := by
  unfold Notebook.getOrAddSelectedPage
  cases hsel : nb.selectedPage_ with
  | some selected => exact ⟨selected, nb, rfl, h, h.selected _ hsel, fun q hq => .inl hq⟩
  | none =>
    obtain ⟨nb', hadd, hin, hpages⟩ := h.addPage hpage false
    refine ⟨page, nb', ?_, hin, ?_, fun q hq => ?_⟩
    · rw [hadd, Option.map_some]
    · simp [hpages]
    · simpa [hpages] using hq

/-- The neighbour is another page of the notebook. -/
theorem neighbour_mem {nb : Notebook} {i : Nat} {p : NotebookTab} (hi : i < nb.items_.length)
    (h : nb.neighbour i = some p) : p ∈ nb.pages.eraseIdx i := by
  unfold neighbour at h
  rw [List.mem_eraseIdx_iff_getElem?]
  split_ifs at h with hone hlast
  · exact ⟨i - 1, by omega, h⟩
  · exact ⟨i + 1, by omega, h⟩

theorem neighbour_eq_none_iff {nb : Notebook} {i : Nat} (hi : i < nb.items_.length) :
    nb.neighbour i = none ↔ nb.items_.length = 1 := by
  have hlength := length_pages nb
  unfold neighbour
  split_ifs with hone hlast
  · exact iff_of_true rfl hone
  · rw [List.getElem?_eq_none_iff]
    omega
  · rw [List.getElem?_eq_none_iff]
    omega

theorem InOrder.removePage {nb : Notebook} (h : InOrder nb) (page : NotebookTab) :
    ∃ nb', nb.removePage page = some nb' ∧ InOrder nb' ∧ nb'.pages ⊆ nb.pages := by
  unfold Notebook.removePage
  cases hindex : nb.indexOf page with
  | none => exact ⟨nb, rfl, h, List.Subset.refl _⟩
  | some i =>
    have hi : i < nb.items_.length := by
      obtain ⟨hi, -⟩ := List.findIdx?_eq_some_iff_getElem.mp hindex
      rwa [length_pages] at hi
    have hmem : ∀ p, nb.neighbour i = some p → p ∈ nb.pages :=
      fun p hp => List.mem_of_mem_eraseIdx (neighbour_mem hi hp)
    have hshown := h.toShown.showOnly hmem
    have hpages : ((nb.showOnly (nb.neighbour i)).items_.eraseIdx i).map Item.page
        = nb.pages.eraseIdx i := by
      rw [← List.eraseIdx_map]
      exact congrArg (List.eraseIdx · i) (pages_showOnly _ nb)
    simp only [Option.bind_eq_bind, h.toShown.select hmem, Option.bind_some]
    refine ⟨_, rfl, ⟨⟨?_, fun p hp => ?_, fun item hitem => ?_, fun item hitem => ?_⟩, ?_⟩, ?_⟩
    · rw [pages, hpages]
      exact h.nodup.sublist (List.eraseIdx_sublist _ _)
    · rw [pages, hpages]
      exact neighbour_mem hi hp
    · exact hshown.hidden item (List.mem_of_mem_eraseIdx hitem)
    · rcases List.mem_append.mp hitem with hold | hnew
      · exact h.removed item hold
      · -- The neighbour is shown, and the page is not its own neighbour.
        obtain ⟨old, hold, rfl⟩ := List.mem_map.mp (List.mem_of_getElem? (Option.mem_toList.mp hnew))
        have hget : nb.pages[i]? = some old.page := by
          have hitem := congrArg (Option.map Item.page) (Option.mem_toList.mp hnew)
          rwa [← List.getElem?_map, Option.map_some, ← pages, pages_showOnly] at hitem
        refine decide_eq_true fun hneighbour => ?_
        obtain ⟨j, hj, hget'⟩ := List.mem_eraseIdx_iff_getElem?.mp (neighbour_mem hi hneighbour)
        have hinj := List.getElem?_inj (j := j) ((length_pages nb).symm ▸ hi) h.nodup
        exact hj (hinj.mp (hget.trans hget'.symm)).symm
    · have hlength : (nb.showOnly (nb.neighbour i)).items_.length = nb.items_.length :=
        List.length_map _
      rw [selectedPage_showOnly, neighbour_eq_none_iff hi, List.eraseIdx_eq_nil_iff,
        ← List.length_eq_zero_iff, hlength]
      omega
    · rw [pages, hpages]
      exact List.eraseIdx_subset

theorem move_perm {α : Type} {source target : Nat} {l : List α} (h : target < l.length) :
    (move source target l).Perm l := by
  unfold move
  cases hx : l[source]? with
  | none => rfl
  | some x =>
    obtain ⟨hsource, rfl⟩ := List.getElem?_eq_some_iff.mp hx
    have htarget : target ≤ (l.eraseIdx source).length := by
      rw [List.length_eraseIdx_of_lt hsource]
      omega
    exact (List.perm_insertIdx _ _ htarget).trans (List.getElem_cons_eraseIdx_perm hsource)

theorem InOrder.of_perm {nb : Notebook} (h : InOrder nb) {items : List Item}
    (hperm : items.Perm nb.items_) : InOrder { nb with items_ := items } where
  nodup := (hperm.map Item.page).nodup_iff.mpr h.nodup
  selected page hsel := (hperm.map Item.page).mem_iff.mpr (h.selected page hsel)
  hidden item hitem := h.hidden item (hperm.mem_iff.mp hitem)
  removed := h.removed
  selected_none := by
    have hnil : items = [] ↔ nb.items_ = [] := by
      rw [← List.length_eq_zero_iff, hperm.length_eq, List.length_eq_zero_iff]
    exact h.selected_none.trans hnil.symm

theorem InOrder.rearrangePage {nb : Notebook} (h : InOrder nb) (page : NotebookTab) {index : Nat}
    (hindex : index < nb.items_.length) : InOrder (nb.rearrangePage page index) ∧
      (nb.rearrangePage page index).pages.Perm nb.pages := by
  unfold Notebook.rearrangePage
  split_ifs with hlocked
  · exact ⟨h, .refl _⟩
  · split
    · exact ⟨h, .refl _⟩
    · next i hi =>
      have hperm : (move i index nb.items_).Perm nb.items_ := move_perm hindex
      exact ⟨h.of_perm hperm, hperm.map Item.page⟩

theorem InOrder.deletePage {nb : Notebook} (h : InOrder nb) (page : NotebookTab) :
    InOrder (nb.deletePage page) where
  nodup := h.nodup
  selected := h.selected
  hidden := h.hidden
  removed item hitem := h.removed item (List.mem_of_mem_filter hitem)
  selected_none := h.selected_none

end Notebook

end Dankerino
