import Dankerino.Infra.Run
import Dankerino.Widgets.Notebook

/-!
# Selecting tabs in several windows

The windows with their notebooks, and who asks for a page to be selected: the notebook itself, the
quick switcher through the signals of `WindowManager`, and the action `reopenSplit`. The signal
`selectSplit` is answered by the notebook that has the split. The signal `selectSplitContainer` is
answered by every notebook, and `reopenSplit` takes its own notebook for the one of the tab.

`selected_iff_own`: the assertions hold throughout a run exactly if these two only get pages of the
notebooks that they ask.
-/

namespace Dankerino

open Infra

variable {QUuid : Type}

structure Windows (QUuid : Type) where
  /-- The first is that of the main window. -/
  notebooks : List Notebook := []
  closedSplits : ClosedSplits QUuid := {}
  /-- An assertion failed. -/
  failed : Bool := false

namespace Windows

inductive Event (QUuid : Type) where
  | openWindow
  | closeWindow (w : Nat)
  | setLockNotebookLayout (w : Nat) (value : Bool)
  | addPage (w : Nat) (page : NotebookTab) (select : Bool)
  | removePage (w : Nat) (page : NotebookTab)
  | deletePage (w : Nat) (page : NotebookTab)
  | rearrangePage (w : Nat) (page : NotebookTab) (index : Nat)
  /-- A click on the tab, or a hotkey of the window. -/
  | selectPage (w : Nat) (page : NotebookTab)
  | closeSplit (page : NotebookTab) (channelName : QString) (filters : List QUuid)
  /-- `WindowManager::select` of a split of the page -/
  | selectSplit (page : NotebookTab)
  /-- `WindowManager::select` of the page -/
  | selectSplitContainer (page : NotebookTab)
  /-- `newPage` is the address of the page that is made if there is none. -/
  | reopenSplit (w : Nat) (newPage : NotebookTab)

/-- The tabs that exist. -/
def tabs (s : Windows QUuid) : List NotebookTab :=
  s.notebooks.flatMap fun nb => nb.pages ++ nb.removed.map Item.page

/-! ## Operations, `none` where an assertion fails -/

def onNotebook (w : Nat) (f : Notebook → Option Notebook) (s : Windows QUuid) : Option (Windows QUuid) :=
  match s.notebooks[w]? with
  | none => some s
  | some nb => (f nb).map fun nb => { s with notebooks := s.notebooks.set w nb }

def closeWindow (w : Nat) (s : Windows QUuid) : Windows QUuid :=
  match s.notebooks[w]? with
  | none => s
  | some nb =>
    { s with
      notebooks := s.notebooks.eraseIdx w
      closedSplits := (nb.pages ++ nb.removed.map Item.page).foldl (fun c tab => c.tabDestroyed tab)
        s.closedSplits }

/-- The handler of `selectSplit`. -/
def selectSplit (page : NotebookTab) (nb : Notebook) : Option Notebook :=
  if page ∈ nb.pages then nb.select (some page) else some nb

def reopenSplit (w : Nat) (newPage : NotebookTab) (s : Windows QUuid) : Option (Windows QUuid) :=
  match s.notebooks[w]?, s.closedSplits.pop with
  | some nb, some (si, closedSplits) => do
    let (page, nb) ← match si.tab with
      | some tab => some (tab, nb)
      | none => nb.getOrAddSelectedPage newPage
    let nb ← nb.select (some page)
    return { s with notebooks := s.notebooks.set w nb, closedSplits }
  | _, _ => some s

def act (s : Windows QUuid) : Event QUuid → Option (Windows QUuid)
  | .openWindow => some { s with notebooks := s.notebooks ++ [{}] }
  | .closeWindow w => some (s.closeWindow w)
  | .setLockNotebookLayout w value =>
    s.onNotebook w fun nb => some { nb with lockNotebookLayout_ := value }
  | .addPage w page select => s.onNotebook w (Notebook.addPage page select)
  | .removePage w page => s.onNotebook w (Notebook.removePage page)
  | .deletePage w page =>
    { s with closedSplits := s.closedSplits.tabDestroyed page }.onNotebook w fun nb =>
      some (nb.deletePage page)
  | .rearrangePage w page index => s.onNotebook w fun nb => some (nb.rearrangePage page index)
  | .selectPage w page => s.onNotebook w (Notebook.select (some page))
  | .closeSplit page channelName filters =>
    some { s with closedSplits := s.closedSplits.closeSplit channelName filters page }
  | .selectSplit page =>
    (s.notebooks.mapM (selectSplit page)).map fun notebooks => { s with notebooks }
  | .selectSplitContainer page =>
    (s.notebooks.mapM (Notebook.select (some page))).map fun notebooks => { s with notebooks }
  | .reopenSplit w newPage => s.reopenSplit w newPage

/-! ## Runs -/

/--
What can happen next. The main window is not closed, since that ends the program. The quick switcher
has the pages of the main window.
-/
def Valid (s : Windows QUuid) : Event QUuid → Prop
  | .closeWindow w => 0 < w
  | .addPage _ page _ | .reopenSplit _ page => page ∉ s.tabs
  | .deletePage w page => ∃ nb, s.notebooks[w]? = some nb ∧ page ∈ nb.removed.map Item.page
  | .rearrangePage w page index =>
    ∃ nb, s.notebooks[w]? = some nb ∧ page ∈ nb.pages ∧ index < nb.items_.length
  | .selectPage w page => ∃ nb, s.notebooks[w]? = some nb ∧ page ∈ nb.pages
  | .closeSplit page _ _ => ∃ nb ∈ s.notebooks, page ∈ nb.pages
  | .selectSplitContainer page => ∃ nb, s.notebooks.head? = some nb ∧ page ∈ nb.pages
  | .openWindow | .setLockNotebookLayout _ _ | .removePage _ _ | .selectSplit _ => True

/-- A step that fails is the last one. -/
def Step (s : Windows QUuid) (e : Event QUuid) (s' : Windows QUuid) : Prop :=
  s.failed = false ∧ s.Valid e ∧ s' = (s.act e).getD { s with failed := true }

/-- No assertion failed, the notebooks are in order, and each page is in one of them. -/
structure Selected (s : Windows QUuid) : Prop where
  not_failed : s.failed = false
  inOrder : ∀ nb ∈ s.notebooks, nb.InOrder
  own : ∀ (i j : Nat) (nb nb' : Notebook) (page : NotebookTab), s.notebooks[i]? = some nb →
    s.notebooks[j]? = some nb' → page ∈ nb.pages → page ∈ nb'.pages → i = j

/-- The page is selected in its own notebook only. -/
def Own (s : Windows QUuid) : Event QUuid → Prop
  | .selectSplitContainer _ => s.notebooks.length = 1
  | .reopenSplit w _ => ∀ si rest tab (nb : Notebook), s.closedSplits.pop = some (si, rest) →
      si.tab = some tab → s.notebooks[w]? = some nb → tab ∈ nb.pages
  | _ => True

theorem selected_empty : Selected ({} : Windows QUuid) where
  not_failed := rfl
  inOrder := nofun
  own := nofun

/-! ## One notebook changes -/

theorem mem_tabs {s : Windows QUuid} {nb : Notebook} {page : NotebookTab} (hnb : nb ∈ s.notebooks)
    (hpage : page ∈ nb.pages) : page ∈ s.tabs :=
  List.mem_flatMap.mpr ⟨nb, hnb, List.mem_append_left _ hpage⟩

/-- What a notebook may become: its pages are old or new. -/
theorem Selected.set {s : Windows QUuid} (h : Selected s) {w : Nat} {nb nb' : Notebook}
    (hw : s.notebooks[w]? = some nb) (hin : nb'.InOrder)
    (hpages : ∀ page ∈ nb'.pages, page ∈ nb.pages ∨ page ∉ s.tabs) :
    Selected { s with notebooks := s.notebooks.set w nb' } := by
  have hold {i : Nat} {other : Notebook} {page : NotebookTab} (hi : s.notebooks[i]? = some other)
      (hpage : page ∈ nb'.pages) (hother : page ∈ other.pages) : w = i := by
    rcases hpages page hpage with hmem | hnew
    · exact h.own w i nb other page hw hi hmem hother
    · exact absurd (mem_tabs (List.mem_of_getElem? hi) hother) hnew
  refine ⟨h.not_failed, fun other hother => ?_, fun i j a b page hi hj ha hb => ?_⟩
  · rcases List.mem_or_eq_of_mem_set hother with hmem | rfl
    · exact h.inOrder other hmem
    · exact hin
  · have hlt := (List.getElem?_eq_some_iff.mp hw).1
    by_cases hwi : w = i
    · subst hwi
      by_cases hwj : w = j
      · exact hwj
      · rw [List.getElem?_set_self hlt] at hi
        rw [List.getElem?_set_ne hwj] at hj
        obtain rfl := Option.some.inj hi
        exact hold hj ha hb
    · rw [List.getElem?_set_ne hwi] at hi
      by_cases hwj : w = j
      · subst hwj
        rw [List.getElem?_set_self hlt] at hj
        obtain rfl := Option.some.inj hj
        exact (hold hi hb ha).symm
      · rw [List.getElem?_set_ne hwj] at hj
        exact h.own i j a b page hi hj ha hb

theorem Selected.withClosedSplits {s : Windows QUuid} (h : Selected s) (closedSplits : ClosedSplits QUuid) :
    Selected { s with closedSplits } :=
  ⟨h.not_failed, h.inOrder, h.own⟩

theorem Selected.onNotebook {s : Windows QUuid} (h : Selected s) {w : Nat}
    {f : Notebook → Option Notebook}
    (hf : ∀ nb, s.notebooks[w]? = some nb → nb.InOrder → ∃ nb', f nb = some nb' ∧ nb'.InOrder ∧
      ∀ page ∈ nb'.pages, page ∈ nb.pages ∨ page ∉ s.tabs) :
    ∃ s', s.onNotebook w f = some s' ∧ Selected s' := by
  unfold Windows.onNotebook
  cases hw : s.notebooks[w]? with
  | none => exact ⟨s, rfl, h⟩
  | some nb =>
    obtain ⟨nb', hnb', hin, hpages⟩ := hf nb hw (h.inOrder nb (List.mem_of_getElem? hw))
    refine ⟨_, ?_, h.set hw hin hpages⟩
    simp only [hnb', Option.map_some]

theorem Selected.openWindow {s : Windows QUuid} (h : Selected s) :
    Selected { s with notebooks := s.notebooks ++ [{}] } := by
  have hold {i : Nat} {nb : Notebook} {page : NotebookTab}
      (hi : (s.notebooks ++ [({} : Notebook)])[i]? = some nb) (hpage : page ∈ nb.pages) :
      s.notebooks[i]? = some nb := by
    rw [List.getElem?_append] at hi
    split_ifs at hi
    · exact hi
    · obtain rfl := List.mem_singleton.mp (List.mem_of_getElem? hi)
      exact nomatch hpage
  refine ⟨h.not_failed, fun nb hnb => ?_, fun i j a b page hi hj ha hb => ?_⟩
  · rcases List.mem_append.mp hnb with hmem | hnew
    · exact h.inOrder nb hmem
    · rw [List.mem_singleton.mp hnew]
      exact Notebook.inOrder_empty
  · exact h.own i j a b page (hold hi ha) (hold hj hb) ha hb

theorem Selected.closeWindow {s : Windows QUuid} (h : Selected s) (w : Nat) :
    Selected (s.closeWindow w) := by
  unfold Windows.closeWindow
  split
  · exact h
  · refine ⟨h.not_failed, fun nb hnb => h.inOrder nb (List.mem_of_mem_eraseIdx hnb),
      fun i j a b page hi hj ha hb => ?_⟩
    rw [List.getElem?_eraseIdx] at hi hj
    split_ifs at hi hj with hiw hjw
    · exact h.own _ _ a b page hi hj ha hb
    · have := h.own _ _ a b page hi hj ha hb
      omega
    · have := h.own _ _ a b page hi hj ha hb
      omega
    · have := h.own _ _ a b page hi hj ha hb
      omega

/-! ## Every notebook is asked -/

theorem mapM_eq_map {α β : Type} {f : α → Option β} {g : α → β} {l : List α}
    (h : ∀ x ∈ l, f x = some (g x)) : l.mapM f = some (l.map g) := by
  induction l with
  | nil => rfl
  | cons x l ih =>
    rw [List.mapM_cons, h x List.mem_cons_self, ih fun y hy => h y (List.mem_cons_of_mem _ hy)]
    rfl

theorem mapM_eq_none {α β : Type} {f : α → Option β} {l : List α} {x : α} (hx : x ∈ l)
    (h : f x = none) : l.mapM f = none := by
  induction l with
  | nil => exact nomatch hx
  | cons y l ih =>
    rw [List.mapM_cons]
    rcases List.mem_cons.mp hx with rfl | hx
    · rw [h]
      rfl
    · rw [ih hx]
      cases f y <;> rfl

/-- Notebooks whose pages stay the same. -/
theorem Selected.map {s : Windows QUuid} (h : Selected s) {g : Notebook → Notebook}
    (hg : ∀ nb ∈ s.notebooks, (g nb).InOrder ∧ (g nb).pages = nb.pages) :
    Selected { s with notebooks := s.notebooks.map g } := by
  refine ⟨h.not_failed, fun nb hnb => ?_, fun i j a b page hi hj ha hb => ?_⟩
  · obtain ⟨old, hold, rfl⟩ := List.mem_map.mp hnb
    exact (hg old hold).1
  · rw [List.getElem?_map] at hi hj
    obtain ⟨a', hi', rfl⟩ := Option.map_eq_some_iff.mp hi
    obtain ⟨b', hj', rfl⟩ := Option.map_eq_some_iff.mp hj
    rw [(hg a' (List.mem_of_getElem? hi')).2] at ha
    rw [(hg b' (List.mem_of_getElem? hj')).2] at hb
    exact h.own i j a' b' page hi' hj' ha hb

theorem Selected.selectSplit {s : Windows QUuid} (h : Selected s) (page : NotebookTab) :
    ∃ s', s.act (.selectSplit page) = some s' ∧ Selected s' := by
  let g (nb : Notebook) : Notebook := if page ∈ nb.pages then nb.showOnly (some page) else nb
  have hselect : ∀ nb ∈ s.notebooks, Windows.selectSplit page nb = some (g nb) := by
    intro nb hnb
    unfold Windows.selectSplit
    dsimp only [g]
    split_ifs with hpage
    · exact ((h.inOrder nb hnb).select hpage).1
    · rfl
  refine ⟨_, ?_, h.map (g := g) fun nb hnb => ?_⟩
  · rw [act, mapM_eq_map hselect, Option.map_some]
  · dsimp only [g]
    split_ifs with hpage
    · exact ⟨((h.inOrder nb hnb).select hpage).2, Notebook.pages_showOnly _ nb⟩
    · exact ⟨h.inOrder nb hnb, rfl⟩

/-- The quick switcher may only ask if there is no other window. -/
theorem Selected.selectSplitContainer {s : Windows QUuid} (h : Selected s) {page : NotebookTab}
    {nb : Notebook} (hhead : s.notebooks.head? = some nb) (hpage : page ∈ nb.pages) :
    (s.notebooks.length = 1 → ∃ s', s.act (.selectSplitContainer page) = some s' ∧ Selected s') ∧
      (s.notebooks.length ≠ 1 → s.act (.selectSplitContainer page) = none) := by
  obtain ⟨rest, hrest⟩ := List.head?_eq_some_iff.mp hhead
  constructor
  · intro hone
    have hnil : rest = [] := by simpa [hrest] using hone
    have hselect : ∀ nb' ∈ s.notebooks,
        nb'.select (some page) = some (nb'.showOnly (some page)) ∧
          (nb'.showOnly (some page)).InOrder := by
      intro nb' hnb'
      obtain rfl : nb' = nb := by simpa [hrest, hnil] using hnb'
      exact (h.inOrder nb' hnb').select hpage
    refine ⟨_, ?_, h.map fun nb' hnb' => ⟨(hselect nb' hnb').2, Notebook.pages_showOnly _ nb'⟩⟩
    rw [act, mapM_eq_map fun nb' hnb' => (hselect nb' hnb').1, Option.map_some]
  · intro hmore
    have hne : rest ≠ [] := fun hnil => hmore (by simp [hrest, hnil])
    obtain ⟨other, rest', rfl⟩ := List.exists_cons_of_ne_nil hne
    have hother : other ∈ s.notebooks := by simp [hrest]
    have hnot : page ∉ other.pages := by
      intro hmem
      exact absurd (h.own 0 1 nb other page (by simp [hrest]) (by simp [hrest]) hpage hmem) nofun
    rw [act, mapM_eq_none hother ((h.inOrder other hother).select_of_not_mem hnot), Option.map_none]

/-- The tab of a closed split has to be one of the window in which the split is reopened. -/
theorem Selected.reopenSplit {s : Windows QUuid} (h : Selected s) {w : Nat} {newPage : NotebookTab}
    (hnew : newPage ∉ s.tabs) :
    (Own s (.reopenSplit w newPage) → ∃ s', s.reopenSplit w newPage = some s' ∧ Selected s') ∧
      (¬ Own s (.reopenSplit w newPage) → s.reopenSplit w newPage = none) := by
  unfold Windows.reopenSplit
  cases hw : s.notebooks[w]? with
  | none => exact ⟨fun _ => ⟨s, rfl, h⟩, fun hown =>
      absurd (fun _ _ _ _ _ _ hw' => nomatch hw.symm.trans hw') hown⟩
  | some nb =>
    cases hpop : s.closedSplits.pop with
    | none => exact ⟨fun _ => ⟨s, rfl, h⟩, fun hown =>
        absurd (fun _ _ _ _ hpop' => nomatch hpop.symm.trans hpop') hown⟩
    | some popped =>
      obtain ⟨si, rest⟩ := popped
      have hnb := List.mem_of_getElem? hw
      have hin := h.inOrder nb hnb
      cases htab : si.tab with
      | none =>
        obtain ⟨page, nb', hadd, hin', hpage, hpages⟩ :=
          hin.getOrAddSelectedPage fun hmem => hnew (mem_tabs hnb hmem)
        obtain ⟨hselect, hin''⟩ := hin'.select hpage
        refine ⟨fun _ => ⟨_, ?_, (h.set hw hin'' fun p hp => ?_).withClosedSplits rest⟩,
          fun hown => ?_⟩
        · simp only [htab, hadd, hselect, Option.bind_eq_bind, Option.bind_some]
          rfl
        · rw [Notebook.pages_showOnly] at hp
          exact (hpages p hp).imp id fun (heq : p = newPage) => heq ▸ hnew
        · refine absurd (fun si' rest' tab' nb' hpop' htab' => ?_) hown
          obtain ⟨rfl, -⟩ := Prod.mk.inj (Option.some.inj (hpop.symm.trans hpop'))
          exact nomatch htab.symm.trans htab'
      | some tab =>
        constructor
        · intro hown
          obtain ⟨hselect, hin'⟩ := hin.select (hown si rest tab nb hpop htab hw)
          refine ⟨_, ?_, (h.set hw hin' fun p hp => ?_).withClosedSplits rest⟩
          · simp only [htab, hselect, Option.bind_eq_bind, Option.bind_some]
            rfl
          · rw [Notebook.pages_showOnly] at hp
            exact .inl hp
        · intro hown
          have hnot : tab ∉ nb.pages := by
            intro hmem
            refine hown fun si' rest' tab' nb' hpop' htab' hw' => ?_
            obtain ⟨rfl, -⟩ := Prod.mk.inj (Option.some.inj (hpop.symm.trans hpop'))
            obtain rfl := Option.some.inj (hw.symm.trans hw')
            exact Option.some.inj (htab.symm.trans htab') ▸ hmem
          simp only [htab, hin.select_of_not_mem hnot, Option.bind_eq_bind, Option.bind_some,
            Option.bind_none]

/-! ## Steps and runs -/

theorem act_of_own {s : Windows QUuid} {e : Event QUuid} (h : Selected s) (hvalid : s.Valid e)
    (hown : s.Own e) : ∃ s', s.act e = some s' ∧ Selected s' := by
  cases e with
  | openWindow => exact ⟨_, rfl, h.openWindow⟩
  | closeWindow w => exact ⟨_, rfl, h.closeWindow w⟩
  | setLockNotebookLayout w value =>
    refine h.onNotebook fun nb _ hin => ⟨_, rfl, ?_, fun page hpage => .inl hpage⟩
    exact ⟨⟨hin.nodup, hin.selected, hin.hidden, hin.removed⟩, hin.selected_none⟩
  | addPage w page select =>
    refine h.onNotebook fun nb hw hin => ?_
    obtain ⟨nb', hadd, hin', hpages⟩ := hin.addPage
      (fun hmem => hvalid (mem_tabs (List.mem_of_getElem? hw) hmem)) select
    refine ⟨nb', hadd, hin', fun p hp => ?_⟩
    rcases List.mem_append.mp (hpages ▸ hp) with hold | hnew
    · exact .inl hold
    · exact .inr (List.mem_singleton.mp hnew ▸ hvalid)
  | removePage w page =>
    refine h.onNotebook fun nb hw hin => ?_
    obtain ⟨nb', hremove, hin', hpages⟩ := hin.removePage page
    exact ⟨nb', hremove, hin', fun p hp => .inl (hpages hp)⟩
  | deletePage w page =>
    refine (h.withClosedSplits _).onNotebook fun nb _ hin => ?_
    exact ⟨_, rfl, hin.deletePage page, fun p hp => .inl hp⟩
  | rearrangePage w page index =>
    obtain ⟨nb, hw, -, hindex⟩ := hvalid
    refine h.onNotebook fun nb' hw' hin => ?_
    obtain rfl := Option.some.inj (hw.symm.trans hw')
    obtain ⟨hin', hperm⟩ := hin.rearrangePage page hindex
    exact ⟨_, rfl, hin', fun p hp => .inl (hperm.mem_iff.mp hp)⟩
  | selectPage w page =>
    obtain ⟨nb, hw, hpage⟩ := hvalid
    refine h.onNotebook fun nb' hw' hin => ?_
    obtain rfl := Option.some.inj (hw.symm.trans hw')
    obtain ⟨hselect, hin'⟩ := hin.select hpage
    exact ⟨_, hselect, hin', fun p hp => .inl (by rwa [Notebook.pages_showOnly] at hp)⟩
  | closeSplit page channelName filters => exact ⟨_, rfl, h.withClosedSplits _⟩
  | selectSplit page => exact h.selectSplit page
  | selectSplitContainer page =>
    obtain ⟨nb, hhead, hpage⟩ := hvalid
    exact (h.selectSplitContainer hhead hpage).1 hown
  | reopenSplit w newPage => exact (h.reopenSplit hvalid).1 hown

theorem act_of_not_own {s : Windows QUuid} {e : Event QUuid} (h : Selected s) (hvalid : s.Valid e)
    (hown : ¬ s.Own e) : s.act e = none := by
  cases e with
  | selectSplitContainer page =>
    obtain ⟨nb, hhead, hpage⟩ := hvalid
    exact (h.selectSplitContainer hhead hpage).2 hown
  | reopenSplit w newPage => exact (h.reopenSplit hvalid).2 hown
  | _ => exact absurd trivial hown

/-- The assertions hold throughout a run exactly if each page is selected in its own notebook only. -/
theorem selected_iff_own {s : Windows QUuid} {events : List (Event QUuid)} :
    Run (fun s e s' => Step s e s' ∧ Selected s') {} events s ↔
      Run (fun s e s' => Step s e s' ∧ Own s e) {} events s := by
  refine Run.guarded_steps_iff (A := fun _ _ s' => Selected s') ?_ ?_ selected_empty
  · rintro s e s' h ⟨-, hvalid, rfl⟩ hown
    obtain ⟨s', hact, h'⟩ := act_of_own h hvalid hown
    rw [hact, Option.getD_some]
    exact ⟨h', h'⟩
  · rintro s e s' h ⟨-, hvalid, rfl⟩ h'
    by_contra hown
    rw [act_of_not_own h hvalid hown, Option.getD_none] at h'
    exact absurd h'.not_failed nofun

/--
With a page in each of two windows: the quick switcher selects the page of the main window, and the
second window reopens a split of that page.
-/
theorem page_of_other_window : ∃ s s' : Windows Unit,
    Run Step {} [.openWindow, .openWindow, .addPage 0 0 true, .addPage 1 1 true,
      .selectSplitContainer 0] s ∧ ¬ Selected s ∧
    Run Step {} [.openWindow, .openWindow, .addPage 0 0 true, .addPage 1 1 true,
      .closeSplit 0 "forsen".toList [], .reopenSplit 1 2] s' ∧ ¬ Selected s' := by
  let main : Notebook := { items_ := [⟨0, false⟩], selectedPage_ := some 0 }
  let popup : Notebook := { items_ := [⟨1, false⟩], selectedPage_ := some 1 }
  let closed : ClosedSplits Unit := ⟨[⟨"forsen".toList, [], some 0⟩], [0]⟩
  have hmain : Step ({} : Windows Unit) .openWindow { notebooks := [{}] } := ⟨rfl, trivial, rfl⟩
  have hpopup : Step ({ notebooks := [{}] } : Windows Unit) .openWindow { notebooks := [{}, {}] } :=
    ⟨rfl, trivial, rfl⟩
  have hfirst : Step ({ notebooks := [{}, {}] } : Windows Unit) (.addPage 0 0 true)
      { notebooks := [main, {}] } := ⟨rfl, List.not_mem_nil, rfl⟩
  have hsecond : Step ({ notebooks := [main, {}] } : Windows Unit) (.addPage 1 1 true)
      { notebooks := [main, popup] } := ⟨rfl, by simp [Valid, tabs, main, Notebook.pages], rfl⟩
  have hswitch : Step ({ notebooks := [main, popup] } : Windows Unit) (.selectSplitContainer 0)
      { notebooks := [main, popup], failed := true } := ⟨rfl, ⟨main, rfl, by decide⟩, rfl⟩
  have hclose : Step ({ notebooks := [main, popup] } : Windows Unit)
      (.closeSplit 0 "forsen".toList []) { notebooks := [main, popup], closedSplits := closed } :=
    ⟨rfl, ⟨main, List.mem_cons_self, by decide⟩, rfl⟩
  have hreopen : Step ({ notebooks := [main, popup], closedSplits := closed } : Windows Unit)
      (.reopenSplit 1 2) { notebooks := [main, popup], closedSplits := closed, failed := true } :=
    ⟨rfl, by simp [Valid, tabs, main, popup, Notebook.pages], rfl⟩
  have hpages := Run.cons hmain (.cons hpopup (.cons hfirst (Run.single hsecond)))
  refine ⟨_, _, hpages.append (Run.single hswitch), fun h => ?_,
    hpages.append (.cons hclose (Run.single hreopen)), fun h => ?_⟩
  · cases h.not_failed
  · cases h.not_failed

end Windows

end Dankerino
