import Dankerino.Hotkeys.HotkeyController
import Mathlib.Data.List.Lex
import Mathlib.Data.List.TakeWhile

/-!
# Hotkeys after a restart

The hotkeys are written to the settings under their names and read back. As `'/'` separates nested
objects, and the names of the added defaults are a member beside the hotkeys, a name can be such that
its hotkey is lost. And a text is written up to a U+0000 only.
-/

namespace Dankerino

open Infra HotkeyModel

open SettingManager (writeString readString cString WholeString WholeTexts)

/-! ## The order -/

namespace QString

theorem less_trans {s t u : QString} (h : less s t = true) (h' : less t u = true) : less s u = true := by
  rw [less, decide_eq_true_iff] at h h' ⊢
  exact lt_trans h h'

theorem less_or_less {s t : QString} (h : s ≠ t) : less s t = true ∨ less t s = true := by
  rw [less, less, decide_eq_true_iff, decide_eq_true_iff]
  exact lt_or_gt_of_ne fun heq => h (flatMap_utf16Units_injective heq)

end QString

theorem hotkeySortCompare_iff {a b : Hotkey} : hotkeySortCompare a b = true ↔
    a.category < b.category ∨ a.category = b.category ∧ QString.less a.name b.name = true := by
  unfold hotkeySortCompare
  by_cases h : a.category = b.category
  · rw [if_pos h]
    simp [h]
  · rw [if_neg h, decide_eq_true_iff]
    simp [h]

theorem hotkeySortCompare_trans {a b c : Hotkey} (h : hotkeySortCompare a b = true)
    (h' : hotkeySortCompare b c = true) : hotkeySortCompare a c = true := by
  rw [hotkeySortCompare_iff] at h h' ⊢
  rcases h with h | ⟨heq, h⟩
  · rcases h' with h' | ⟨heq', -⟩
    · exact .inl (h.trans h')
    · exact .inl (heq' ▸ h)
  · rcases h' with h' | ⟨heq', h'⟩
    · exact .inl (heq ▸ h')
    · exact .inr ⟨heq.trans heq', QString.less_trans h h'⟩

theorem hotkeySortCompare_total {a b : Hotkey} (h : a.name ≠ b.name) :
    hotkeySortCompare a b = true ∨ hotkeySortCompare b a = true := by
  rw [hotkeySortCompare_iff, hotkeySortCompare_iff]
  rcases lt_trichotomy a.category b.category with hlt | heq | hgt
  · exact .inl (.inl hlt)
  · rcases QString.less_or_less h with hless | hless
    · exact .inl (.inr ⟨heq, hless⟩)
    · exact .inr (.inr ⟨heq.symm, hless⟩)
  · exact .inr (.inl hgt)

/-- The hotkeys of a controller whose names differ. -/
def Ordered (hotkeys : List Hotkey) : Prop := hotkeys.Pairwise fun a b => hotkeySortCompare a b = true

namespace HotkeyController

/-! ## Adding a hotkey -/

section Append

variable {hotkeys : SignalVector Hotkey}

theorem append_eq (hcompare : hotkeys.itemCompare = some hotkeySortCompare) (hotkey : Hotkey) :
    append hotkeys hotkey = { hotkeys with
      items := hotkeys.items.takeWhile (fun x => hotkeySortCompare x hotkey) ++
        hotkey :: hotkeys.items.dropWhile (fun x => hotkeySortCompare x hotkey) } := by
  have hinsert := insertIdx_length_append (hotkeys.items.takeWhile fun x => hotkeySortCompare x hotkey)
    (hotkeys.items.dropWhile fun x => hotkeySortCompare x hotkey) hotkey
  rw [List.takeWhile_append_dropWhile] at hinsert
  unfold append SignalVector.insert
  simp only [hcompare]
  rw [SignalVector.lowerBound, hinsert]

theorem append_compare (hcompare : hotkeys.itemCompare = some hotkeySortCompare) (hotkey : Hotkey) :
    (append hotkeys hotkey).itemCompare = some hotkeySortCompare := by
  rw [append_eq hcompare]
  exact hcompare

theorem append_perm (hcompare : hotkeys.itemCompare = some hotkeySortCompare) (hotkey : Hotkey) :
    (append hotkeys hotkey).items.Perm (hotkey :: hotkeys.items) := by
  rw [append_eq hcompare]
  refine List.perm_middle.trans ?_
  rw [List.takeWhile_append_dropWhile]

theorem mem_append (hcompare : hotkeys.itemCompare = some hotkeySortCompare) (hotkey x : Hotkey) :
    x ∈ (append hotkeys hotkey).items ↔ x = hotkey ∨ x ∈ hotkeys.items :=
  (append_perm hcompare hotkey).mem_iff.trans List.mem_cons

theorem append_ordered (hcompare : hotkeys.itemCompare = some hotkeySortCompare)
    (hordered : Ordered hotkeys.items) {hotkey : Hotkey}
    (hnew : ∀ x ∈ hotkeys.items, x.name ≠ hotkey.name) : Ordered (append hotkeys hotkey).items := by
  rw [append_eq hcompare]
  have hsplit := hordered
  rw [← List.takeWhile_append_dropWhile (p := fun x => hotkeySortCompare x hotkey) (l := hotkeys.items)]
    at hsplit
  obtain ⟨hbefore, hafter, hacross⟩ := List.pairwise_append.mp hsplit
  have hless : ∀ x ∈ hotkeys.items.takeWhile (fun x => hotkeySortCompare x hotkey),
      hotkeySortCompare x hotkey = true := fun x hx =>
    List.mem_takeWhile_imp (p := fun y => hotkeySortCompare y hotkey) hx
  -- behind the place, the first one is not less, and the others come after it
  have hgreater : ∀ x ∈ hotkeys.items.dropWhile (fun x => hotkeySortCompare x hotkey),
      hotkeySortCompare hotkey x = true := by
    cases hdrop : hotkeys.items.dropWhile (fun x => hotkeySortCompare x hotkey) with
    | nil => exact fun x hx => nomatch hx
    | cons y rest =>
      have hy : hotkeySortCompare hotkey y = true := by
        have hmem : y ∈ hotkeys.items := (List.dropWhile_sublist _).subset (hdrop ▸ List.mem_cons_self)
        refine (hotkeySortCompare_total (hnew y hmem)).resolve_left ?_
        have hnot := List.head_dropWhile_not (fun x => hotkeySortCompare x hotkey) (l := hotkeys.items)
          (by rw [hdrop]; exact List.cons_ne_nil _ _)
        simp only [hdrop, List.head_cons] at hnot
        simp [hnot]
      rw [hdrop] at hafter
      intro x hx
      rcases List.mem_cons.mp hx with rfl | hx
      · exact hy
      · exact hotkeySortCompare_trans hy ((List.pairwise_cons.mp hafter).1 x hx)
  refine List.pairwise_append.mpr ⟨hbefore, List.pairwise_cons.mpr ⟨hgreater, hafter⟩, ?_⟩
  intro x hx y hy
  rcases List.mem_cons.mp hy with rfl | hy
  · exact hless x hx
  · exact hacross x hx y hy

/-- Hotkeys that come in their order are put one behind the other. -/
theorem foldl_append : ∀ (rest : List Hotkey) {hotkeys : SignalVector Hotkey},
    hotkeys.itemCompare = some hotkeySortCompare → Ordered (hotkeys.items ++ rest) →
      (rest.foldl append hotkeys).items = hotkeys.items ++ rest := by
  intro rest
  induction rest with
  | nil =>
    intro hotkeys _ _
    exact (List.append_nil _).symm
  | cons hotkey rest ih =>
    intro hotkeys hcompare hordered
    have hless : ∀ x ∈ hotkeys.items, hotkeySortCompare x hotkey = true := fun x hx =>
      (List.pairwise_append.mp hordered).2.2 x hx hotkey List.mem_cons_self
    have hitems : (append hotkeys hotkey).items = hotkeys.items ++ [hotkey] := by
      rw [append_eq hcompare]
      dsimp only
      rw [List.takeWhile_eq_self_iff.mpr hless, List.dropWhile_eq_nil_iff.mpr hless]
    rw [List.foldl_cons, ih (append_compare hcompare hotkey) (by rw [hitems]; simpa using hordered),
      hitems, List.append_assoc]
    rfl

end Append

/-! ## The document -/

/-- The name is stored under itself, beside the names of the added defaults. -/
def GoodName (name : QString) : Prop := '/' ∉ name ∧ name ≠ "addedDefaults".toList

/-- The hotkey is stored under its name, with all of its texts. -/
structure Storable (hotkey : Hotkey) : Prop where
  name : GoodName hotkey.name
  action : WholeString hotkey.action
  arguments : ∀ argument ∈ hotkey.arguments, WholeString argument

variable {store : SettingStore}

variable (store) in
/-- The object of the hotkeys. -/
def node (settings : store.Document) : QJsonValue := store.get "/hotkeys".toList settings

theorem splitOn_field (name : QString) {field : QString} (h : '/' ∉ field) :
    (name ++ '/' :: field).splitOn '/' = name.splitOn '/' ++ [field] := by
  rw [List.splitOn_append_cons_self, List.splitOn_eq_singleton h]

/-- What `saveHotkey` writes below the object. -/
def writeHotkey (node : QJsonValue) (hotkey : Hotkey) : QJsonValue :=
  let path := hotkey.name.splitOn '/'
  let node := SettingManager.setValue (path ++ ["action".toList]) (writeString hotkey.action) node
  let node := SettingManager.setValue (path ++ ["keySequence".toList]) (writeString hotkey.keySequence) node
  let node := SettingManager.setValue (path ++ ["category".toList])
    (writeString (hotkeyCategories hotkey.category).name) node
  SettingManager.setValue (path ++ ["arguments".toList])
    (SettingManager.ofStrings hotkey.arguments) node

section Nested

variable (hstore : store.Nested)

include hstore

theorem node_set (name field : QString) (h : '/' ∉ field) (v : QJsonValue) (settings : store.Document) :
    node store (store.set ("/hotkeys/".toList ++ name ++ '/' :: field) v settings)
      = SettingManager.setValue (name.splitOn '/' ++ [field]) v (node store settings) := by
  rw [← splitOn_field name h]
  exact hstore.get_set_below "/hotkeys".toList (name ++ '/' :: field) v settings

theorem node_saveHotkey (settings : store.Document) (hotkey : Hotkey) :
    node store (saveHotkey store settings hotkey) = writeHotkey (node store settings) hotkey := by
  unfold saveHotkey writeHotkey
  dsimp only
  refine (node_set hstore _ "arguments".toList (by decide) _ _).trans ?_
  congr 1
  refine (node_set hstore _ "category".toList (by decide) _ _).trans ?_
  congr 1
  refine (node_set hstore _ "keySequence".toList (by decide) _ _).trans ?_
  congr 1
  exact node_set hstore _ "action".toList (by decide) _ _

theorem node_foldl_saveHotkey (hotkeys : List Hotkey) : ∀ settings,
    node store (hotkeys.foldl (saveHotkey store) settings)
      = hotkeys.foldl writeHotkey (node store settings) := by
  induction hotkeys with
  | nil => exact fun settings => rfl
  | cons hotkey hotkeys ih =>
    intro settings
    rw [List.foldl_cons, ih, node_saveHotkey hstore, List.foldl_cons]

theorem node_setAddedDefaults (names : List QString) (settings : store.Document) :
    node store (setAddedDefaults store names settings)
      = SettingManager.setValue ["addedDefaults".toList] (SettingManager.ofStrings names)
          (node store settings) :=
  hstore.get_set_below "/hotkeys".toList "addedDefaults".toList _ settings

theorem addedDefaults_eq (settings : store.Document) : addedDefaults store settings
    = SettingManager.toStrings (SettingManager.getValue ["addedDefaults".toList] (node store settings)) :=
  congrArg SettingManager.toStrings (hstore.get_below "/hotkeys".toList "addedDefaults".toList settings)

/-- The object after `saveHotkeys`. -/
theorem node_saveHotkeys (c : HotkeyController store) : node store (saveHotkeys c).settings
    = c.hotkeys.items.foldl writeHotkey
        (.object [("addedDefaults".toList, SettingManager.ofStrings (addedDefaults store c.settings))]) := by
  have hempty : node store (store.set "/hotkeys".toList (.object []) c.settings) = .object [] :=
    hstore.get_set _ _ _
  unfold saveHotkeys
  dsimp only
  rw [node_foldl_saveHotkey hstore, node_setAddedDefaults hstore, hempty]
  rfl

theorem get_field (name : QString) {field : QString} (h : '/' ∉ field) (settings : store.Document) :
    store.get ("/hotkeys/".toList ++ name ++ '/' :: field) settings
      = SettingManager.getValue (name.splitOn '/' ++ [field]) (node store settings) := by
  rw [← splitOn_field name h]
  exact hstore.get_below "/hotkeys".toList (name ++ '/' :: field) settings

end Nested

/-! ## Good names -/

/-- The member of a hotkey. -/
def entry (hotkey : Hotkey) : QString × QJsonValue :=
  (hotkey.name, .object
    [("action".toList, writeString hotkey.action),
      ("keySequence".toList, writeString hotkey.keySequence),
      ("category".toList, writeString (hotkeyCategories hotkey.category).name),
      ("arguments".toList, SettingManager.ofStrings hotkey.arguments)])

theorem lookup_append_of_notMem {name : QString} {o : QJsonObject} (h : name ∉ o.map Prod.fst)
    (o' : QJsonObject) : List.lookup name (o ++ o') = List.lookup name o' := by
  have hnone : List.lookup name o = none :=
    List.lookup_eq_none_iff.mpr fun p hp => by
      simpa using fun heq : name = p.1 => h (heq ▸ List.mem_map_of_mem hp)
  rw [List.lookup_append, hnone]
  rfl

/-- A value is written to a member that comes last. -/
theorem setValue_last {name : QString} {o : QJsonObject} (h : name ∉ o.map Prod.fst) (field : QString)
    (v w : QJsonValue) : SettingManager.setValue [name, field] v (.object (o ++ [(name, w)]))
      = .object (o ++ [(name, SettingManager.setValue [field] v w)]) := by
  have hget : SettingManager.getValue [name] (.object (o ++ [(name, w)])) = w := by
    rw [SettingManager.getValue, QJsonValue.toObject, lookup_append_of_notMem h, List.lookup_cons_self]
    rfl
  rw [SettingManager.setValue, hget, QJsonValue.toObject, SettingManager.setMember_append _ h,
    SettingManager.setMember, if_pos rfl]

/-- A value is written to a member that is not there yet. -/
theorem setValue_new {name : QString} {o : QJsonObject} (h : name ∉ o.map Prod.fst) (field : QString)
    (v : QJsonValue) : SettingManager.setValue [name, field] v (.object o)
      = .object (o ++ [(name, .object [(field, v)])]) := by
  have hget : SettingManager.getValue [name] (.object o) = .undefined := by
    have hlookup := lookup_append_of_notMem h []
    rw [List.append_nil] at hlookup
    rw [SettingManager.getValue, QJsonValue.toObject, hlookup]
    rfl
  have hset := SettingManager.setMember_append (.object [(field, v)]) h []
  rw [List.append_nil] at hset
  rw [SettingManager.setValue, hget]
  exact congrArg QJsonValue.object hset

theorem writeHotkey_good {hotkey : Hotkey} (hname : '/' ∉ hotkey.name) {o : QJsonObject}
    (hnew : hotkey.name ∉ o.map Prod.fst) :
    writeHotkey (.object o) hotkey = .object (o ++ [entry hotkey]) := by
  unfold writeHotkey
  rw [List.splitOn_eq_singleton hname]
  dsimp only [List.cons_append, List.nil_append]
  rw [setValue_new hnew, setValue_last hnew, setValue_last hnew, setValue_last hnew]
  rfl

theorem foldl_writeHotkey_good (hotkeys : List Hotkey) : ∀ o : QJsonObject,
    (∀ h ∈ hotkeys, '/' ∉ h.name) → (o.map Prod.fst ++ hotkeys.map (·.name)).Nodup →
      hotkeys.foldl writeHotkey (.object o) = .object (o ++ hotkeys.map entry) := by
  induction hotkeys with
  | nil =>
    intro o _ _
    rw [List.map_nil, List.append_nil]
    rfl
  | cons hotkey hotkeys ih =>
    intro o hnames hnd
    have hnew : hotkey.name ∉ o.map Prod.fst := by
      intro hmem
      exact (List.nodup_append.mp hnd).2.2 _ hmem _ List.mem_cons_self rfl
    rw [List.foldl_cons, writeHotkey_good (hnames hotkey List.mem_cons_self) hnew,
      ih _ (fun h hh => hnames h (List.mem_cons_of_mem _ hh)) (by simpa [entry] using hnd),
      List.map_cons, List.append_assoc]
    rfl

/-! ## Reading -/

/-- What the dialog makes can be read back. -/
structure Savable (keys : KeySequences) (hotkey : Hotkey) : Prop where
  name_ne : hotkey.name ≠ []
  keySequence_ne : hotkey.keySequence ≠ []
  keySequence_eq : keys.ofText hotkey.keySequence = hotkey.keySequence
  keySequence_whole : WholeString hotkey.keySequence
  action_ne : hotkey.action ≠ []

theorem hotkeyCategoryFromName_name (category : HotkeyCategory) :
    hotkeyCategoryFromName (hotkeyCategories category).name = some category := by
  cases category <;> rfl

theorem readHotkey_entry (hstore : store.Nested) {keys : KeySequences} {settings : store.Document}
    {o : QJsonObject} {hotkey : Hotkey} (hnode : node store settings = .object o)
    (hlookup : List.lookup hotkey.name o = some (entry hotkey).2) (hstorable : Storable hotkey)
    (hsavable : Savable keys hotkey) : readHotkey store keys settings hotkey.name = some hotkey := by
  have hget (field : QString) (hfield : '/' ∉ field) :
      store.get ("/hotkeys/".toList ++ hotkey.name ++ '/' :: field) settings
        = SettingManager.getValue [field] (entry hotkey).2 := by
    rw [get_field hstore _ hfield, List.splitOn_eq_singleton hstorable.name.1, hnode, List.singleton_append,
      SettingManager.getValue, QJsonValue.toObject, hlookup, Option.getD_some]
  have hcategory_whole : WholeString (hotkeyCategories hotkey.category).name := by
    cases hotkey.category <;> decide
  have hcategory : readString (store.get ("/hotkeys/".toList ++ hotkey.name ++ "/category".toList) settings)
      = (hotkeyCategories hotkey.category).name :=
    (congrArg readString (hget "category".toList (by decide))).trans
      (SettingManager.readString_writeString hcategory_whole)
  have hkeySequence :
      readString (store.get ("/hotkeys/".toList ++ hotkey.name ++ "/keySequence".toList) settings)
        = hotkey.keySequence :=
    (congrArg readString (hget "keySequence".toList (by decide))).trans
      (SettingManager.readString_writeString hsavable.keySequence_whole)
  have haction : readString (store.get ("/hotkeys/".toList ++ hotkey.name ++ "/action".toList) settings)
      = hotkey.action :=
    (congrArg readString (hget "action".toList (by decide))).trans
      (SettingManager.readString_writeString hstorable.action)
  have harguments : SettingManager.toStrings
      (store.get ("/hotkeys/".toList ++ hotkey.name ++ "/arguments".toList) settings) = hotkey.arguments :=
    (congrArg SettingManager.toStrings (hget "arguments".toList (by decide))).trans
      (SettingManager.toStrings_ofStrings_of_whole hstorable.arguments)
  have hcategory_ne : (hotkeyCategories hotkey.category).name ≠ [] := by
    cases hotkey.category <;> exact List.cons_ne_nil _ _
  unfold readHotkey
  rw [if_neg hstorable.name.2]
  dsimp only
  rw [hcategory, hkeySequence, haction, harguments]
  simp [hcategory_ne, hsavable.keySequence_ne, hsavable.action_ne, hotkeyCategoryFromName_name,
    hsavable.keySequence_eq]

/-- A hotkey that is read has the key as its name, and texts that are stored below it. -/
theorem readHotkey_eq_some {keys : KeySequences} {settings : store.Document} {key : QString}
    {hotkey : Hotkey} (h : readHotkey store keys settings key = some hotkey) :
    hotkey.name = key ∧ key ≠ "addedDefaults".toList ∧
      hotkey.action = readString (store.get ("/hotkeys/".toList ++ key ++ "/action".toList) settings) ∧
      hotkey.arguments = SettingManager.toStrings
        (store.get ("/hotkeys/".toList ++ key ++ "/arguments".toList) settings) := by
  unfold readHotkey at h
  split at h
  · exact nomatch h
  · next hne =>
    dsimp only at h
    split at h
    · exact nomatch h
    · split at h
      · exact nomatch h
      · obtain rfl := Option.some.inj h
        exact ⟨rfl, hne, rfl, rfl⟩

theorem loadLoop_eq (keys : KeySequences) (settings : store.Document) (objectKeys : List QString) :
    ∀ hotkeys, loadLoop store keys settings objectKeys hotkeys
      = (objectKeys.filterMap (readHotkey store keys settings)).foldl append hotkeys := by
  induction objectKeys with
  | nil => exact fun hotkeys => rfl
  | cons key rest ih =>
    intro hotkeys
    rw [loadLoop, List.filterMap_cons]
    cases hread : readHotkey store keys settings key with
    | none => exact ih hotkeys
    | some hotkey => exact ih _

/-! ## What is left of the texts -/

/-- No member's name has a `'/'`, and no text a U+0000. -/
structure Written (v : QJsonValue) : Prop where
  plain : ∀ k ∈ v.toObject.map Prod.fst, '/' ∉ k
  whole : WholeTexts v

theorem Written.setValue {v w : QJsonValue} (h : Written v) (hw : WholeTexts w) {path : List QString}
    (hne : path ≠ []) (hpath : ∀ k ∈ path, '/' ∉ k) : Written (SettingManager.setValue path w v) where
  plain := by
    cases path with
    | nil => exact absurd rfl hne
    | cons k ks =>
      intro k' hk'
      rcases SettingManager.mem_keys_setMember.mp hk' with rfl | hk'
      · exact hpath _ List.mem_cons_self
      · exact h.plain k' hk'
  whole := hw.setValue path h.whole

theorem Written.writeHotkey {v : QJsonValue} (h : Written v) (hotkey : Hotkey) :
    Written (writeHotkey v hotkey) := by
  have hset {v w : QJsonValue} (hv : Written v) (hw : WholeTexts w) (field : QString) (hfield : '/' ∉ field) :
      Written (SettingManager.setValue (hotkey.name.splitOn '/' ++ [field]) w v) := by
    refine hv.setValue hw (by simp) fun k hk => ?_
    rcases List.mem_append.mp hk with hk | hk
    · exact SettingManager.notMem_of_mem_splitOn hk
    · rw [List.mem_singleton.mp hk]
      exact hfield
  have htext := SettingManager.wholeTexts_writeString
  have haction := hset h (htext hotkey.action) "action".toList (by decide)
  have hkeySequence := hset haction (htext hotkey.keySequence) "keySequence".toList (by decide)
  have hcategory := hset hkeySequence (htext (hotkeyCategories hotkey.category).name) "category".toList
    (by decide)
  exact hset hcategory (SettingManager.wholeTexts_ofStrings hotkey.arguments) "arguments".toList (by decide)

theorem written_saveHotkeys (hstore : store.Nested) (c : HotkeyController store) :
    Written (node store (saveHotkeys c).settings) := by
  have hfold : ∀ (hotkeys : List Hotkey) (v : QJsonValue), Written v →
      Written (hotkeys.foldl writeHotkey v) := by
    intro hotkeys
    induction hotkeys with
    | nil => exact fun v hv => hv
    | cons hotkey hotkeys ih => exact fun v hv => ih _ (hv.writeHotkey hotkey)
  have hempty : Written (.object []) := ⟨(fun k hk => nomatch hk), SettingManager.wholeTexts_empty⟩
  have hadded : ∀ k ∈ ["addedDefaults".toList], '/' ∉ k := by
    intro k hk
    rw [List.mem_singleton.mp hk]
    decide
  rw [node_saveHotkeys hstore]
  exact hfold _ _ (hempty.setValue (SettingManager.wholeTexts_ofStrings _) (List.cons_ne_nil _ _) hadded)

/-- What is read of the hotkeys that were saved can be stored. -/
theorem storable_of_read (hstore : store.Nested) {keys : KeySequences} {c : HotkeyController store}
    {names : List QString} {key : QString} {hotkey : Hotkey}
    (hkey : key ∈ (node store (saveHotkeys c).settings).toObject.map Prod.fst)
    (h : readHotkey store keys (setAddedDefaults store names (saveHotkeys c).settings) key = some hotkey) :
    Storable hotkey := by
  obtain ⟨rfl, hne, haction, harguments⟩ := readHotkey_eq_some h
  have hwritten := written_saveHotkeys hstore c
  have hwhole : WholeTexts (node store (setAddedDefaults store names (saveHotkeys c).settings)) := by
    rw [node_setAddedDefaults hstore]
    exact (SettingManager.wholeTexts_ofStrings names).setValue _ hwritten.whole
  refine ⟨⟨hwritten.plain _ hkey, hne⟩, ?_, ?_⟩
  · rw [haction, show "/action".toList = '/' :: "action".toList from rfl,
      get_field hstore _ (show '/' ∉ "action".toList by decide)]
    exact (hwhole _).1
  · rw [harguments, show "/arguments".toList = '/' :: "arguments".toList from rfl,
      get_field hstore _ (show '/' ∉ "arguments".toList by decide)]
    exact (hwhole _).2

/-! ## Defaults -/

theorem mem_setInsert {names : List QString} {name x : QString} :
    x ∈ setInsert names name ↔ x = name ∨ x ∈ names := by
  unfold setInsert
  split
  · next hmem =>
    exact ⟨.inr, fun h => h.elim (fun heq => heq ▸ hmem) id⟩
  · exact List.mem_orderedInsert _

/-- The texts of a hotkey that do not depend on its key sequence. -/
def texts (hotkey : Hotkey) : QString × QString × List QString :=
  (hotkey.name, hotkey.action, hotkey.arguments)

theorem texts_defaults (keys keys' : KeySequences) :
    (defaults keys).map texts = (defaults keys').map texts := rfl

/-- The defaults have good names and actions, and whole texts. -/
theorem defaults_good (keys : KeySequences) :
    ∀ d ∈ defaults keys, Storable d ∧ WholeString d.name ∧ d.name ≠ [] ∧ d.action ≠ [] := by
  let noKeys : KeySequences :=
    { ofText := id, zoomIn := [], zoomOut := [], isSingleKey := fun _ => false }
  have hall : ((defaults noKeys).map texts).all (fun p => !p.1.contains '/' &&
      p.1 != "addedDefaults".toList && !p.2.1.contains '\x00' &&
      p.2.2.all (fun argument => !argument.contains '\x00') && !p.1.contains '\x00' && !p.1.isEmpty &&
      !p.2.1.isEmpty) = true := by decide +kernel
  intro d hd
  have hmem : texts d ∈ (defaults noKeys).map texts :=
    texts_defaults keys noKeys ▸ List.mem_map_of_mem hd
  have hd' := List.all_eq_true.mp hall _ hmem
  simp only [texts, Bool.and_eq_true, Bool.not_eq_true', List.contains_eq_mem, decide_eq_false_iff_not,
    bne_iff_ne, List.all_eq_true, List.isEmpty_eq_false_iff] at hd'
  obtain ⟨⟨⟨⟨⟨⟨hslash, hne⟩, haction⟩, harguments⟩, hname⟩, hname_ne⟩, haction_ne⟩ := hd'
  exact ⟨⟨⟨hslash, hne⟩, haction, harguments⟩, hname, hname_ne, haction_ne⟩

/-- The hotkeys have different names, all of which are in the set. -/
structure Named (r : SignalVector Hotkey × List QString) : Prop where
  compare : r.1.itemCompare = some hotkeySortCompare
  ordered : Ordered r.1.items
  nodup : (r.1.items.map (·.name)).Nodup
  mem : ∀ x ∈ r.1.items, x.name ∈ r.2

theorem Named.tryAddDefault {r : SignalVector Hotkey × List QString} (h : Named r) (hotkey : Hotkey) :
    Named (tryAddDefault r hotkey) := by
  unfold HotkeyController.tryAddDefault
  split
  · exact h
  · next hnot =>
    have hnew : ∀ x ∈ r.1.items, x.name ≠ hotkey.name := fun x hx heq => hnot (heq ▸ h.mem x hx)
    constructor
    · exact append_compare h.compare hotkey
    · exact append_ordered h.compare h.ordered hnew
    · rw [((append_perm h.compare hotkey).map _).nodup_iff, List.map_cons, List.nodup_cons]
      exact ⟨fun hmem => (List.mem_map.mp hmem).elim fun x hx => hnew x hx.1 hx.2, h.nodup⟩
    · intro x hx
      rcases (mem_append h.compare hotkey x).mp hx with rfl | hx
      · exact mem_setInsert.mpr (.inl rfl)
      · exact mem_setInsert.mpr (.inr (h.mem x hx))

theorem Named.foldl {r : SignalVector Hotkey × List QString} (h : Named r) (ds : List Hotkey) :
    Named (ds.foldl HotkeyController.tryAddDefault r) := by
  induction ds generalizing r with
  | nil => exact h
  | cons d ds ih => exact ih (h.tryAddDefault d)

theorem mem_tryAddDefault (r : SignalVector Hotkey × List QString) (hotkey : Hotkey) (name : QString) :
    name ∈ (tryAddDefault r hotkey).2 ↔ name = hotkey.name ∨ name ∈ r.2 := by
  unfold tryAddDefault
  split
  · next hmem =>
    exact ⟨.inr, fun h => h.elim (fun heq => heq ▸ hmem) id⟩
  · exact mem_setInsert

/-- The names of the defaults are added. -/
theorem mem_foldl_tryAddDefault (ds : List Hotkey) (name : QString) :
    ∀ r, name ∈ (ds.foldl tryAddDefault r).2 ↔ name ∈ ds.map (·.name) ∨ name ∈ r.2 := by
  induction ds with
  | nil => simp
  | cons d ds ih =>
    intro r
    rw [List.foldl_cons, ih, mem_tryAddDefault, List.map_cons, List.mem_cons]
    exact or_left_comm.trans or_assoc.symm

/-- A hotkey of the result was there, or is a default. -/
theorem foldl_tryAddDefault_items (ds : List Hotkey) {x : Hotkey} :
    ∀ r, Named r → x ∈ (ds.foldl tryAddDefault r).1.items → x ∈ r.1.items ∨ x ∈ ds := by
  induction ds with
  | nil => exact fun r _ hx => .inl hx
  | cons d ds ih =>
    intro r hr hx
    rcases ih _ (hr.tryAddDefault d) hx with hx | hx
    · unfold tryAddDefault at hx
      split at hx
      · exact .inl hx
      · rcases (mem_append hr.compare d x).mp hx with rfl | hx
        · exact .inr List.mem_cons_self
        · exact .inl hx
    · exact .inr (List.mem_cons_of_mem _ hx)

/-- Defaults that were added before are not added again. -/
theorem foldl_tryAddDefault_of_mem (ds : List Hotkey) {r : SignalVector Hotkey × List QString}
    (h : ∀ d ∈ ds, d.name ∈ r.2) : ds.foldl tryAddDefault r = r := by
  induction ds with
  | nil => rfl
  | cons d ds ih =>
    rw [List.foldl_cons, tryAddDefault, if_pos (h d List.mem_cons_self)]
    exact ih fun d' hd' => h d' (List.mem_cons_of_mem _ hd')

/-- A default that was not added is there afterwards. -/
theorem foldl_tryAddDefault_ne_nil (ds : List Hotkey) :
    ∀ r, Named r → (r.1.items ≠ [] ∨ ∃ d ∈ ds, d.name ∉ r.2) →
      (ds.foldl tryAddDefault r).1.items ≠ [] := by
  induction ds with
  | nil =>
    rintro r _ (hne | ⟨d, hd, -⟩)
    · exact hne
    · exact nomatch hd
  | cons d ds ih =>
    intro r hr h
    refine ih _ (hr.tryAddDefault d) ?_
    unfold tryAddDefault
    split
    · next hmem =>
      rcases h with hne | ⟨d', hd', hnot⟩
      · exact .inl hne
      · rcases List.mem_cons.mp hd' with rfl | hd'
        · exact absurd hmem hnot
        · exact .inr ⟨d', hd', hnot⟩
    · refine .inl fun hnil => ?_
      have hmem := (mem_append hr.compare d d).mpr (.inl rfl)
      rw [hnil] at hmem
      exact nomatch hmem

theorem mem_setOf (names : List QString) {name : QString} :
    ∀ s, name ∈ names.foldl setInsert s ↔ name ∈ names ∨ name ∈ s := by
  induction names with
  | nil => simp
  | cons x names ih =>
    intro s
    rw [List.foldl_cons, ih, mem_setInsert, List.mem_cons]
    exact or_left_comm.trans or_assoc.symm

/-! ## A restart -/

variable (keys : KeySequences)

/-- The hotkeys are the same after they were saved and loaded. -/
def Survives (c : HotkeyController store) : Prop :=
  (new store keys (saveHotkeys c).settings).hotkeys.items = c.hotkeys.items

/-- The settings know that the defaults were added. -/
def Listed (c : HotkeyController store) : Prop := ∀ d ∈ defaults keys, d.name ∈ addedDefaults store c.settings

structure Inv (c : HotkeyController store) : Prop where
  compare : c.hotkeys.itemCompare = some hotkeySortCompare
  ordered : Ordered c.hotkeys.items
  nodup : (c.hotkeys.items.map (·.name)).Nodup
  savable : ∀ x ∈ c.hotkeys.items, Savable keys x
  /-- The names of the added defaults were written by the controller. -/
  added_whole : ∀ name ∈ addedDefaults store c.settings, WholeString name

theorem foldl_append_perm (hotkeys : List Hotkey) : ∀ {v : SignalVector Hotkey},
    v.itemCompare = some hotkeySortCompare →
      (hotkeys.foldl append v).items.Perm (hotkeys ++ v.items) := by
  induction hotkeys with
  | nil => exact fun _ => List.Perm.refl _
  | cons hotkey hotkeys ih =>
    intro v hcompare
    have hrest := ih (append_compare hcompare hotkey)
    have hone := (append_perm hcompare hotkey).append_left hotkeys
    exact (hrest.trans hone).trans List.perm_middle

section Load

variable {keys}

/-- The controller after its hotkeys were read, when `r` is what `addDefaults` gave. -/
def loaded (keys : KeySequences) (c : HotkeyController store) (r : SignalVector Hotkey × List QString) :
    HotkeyController store where
  hotkeys := (((node store c.settings).toObject.map Prod.fst).filterMap
    (readHotkey store keys (setAddedDefaults store r.2 c.settings))).foldl append r.1
  settings := setAddedDefaults store r.2 c.settings

theorem loadHotkeys_cases {c : HotkeyController store} {r : SignalVector Hotkey × List QString}
    (hr : (defaults keys).foldl tryAddDefault
      (c.hotkeys, (addedDefaults store c.settings).foldl setInsert []) = r) :
    loadHotkeys keys c = loaded keys c r ∨ loadHotkeys keys c = saveHotkeys (loaded keys c r) := by
  subst hr
  unfold loaded
  rw [← loadLoop_eq]
  unfold loadHotkeys
  dsimp only
  split
  · exact .inr rfl
  · exact .inl rfl

theorem loadHotkeys_hotkeys {c : HotkeyController store} {r : SignalVector Hotkey × List QString}
    (hr : (defaults keys).foldl tryAddDefault
      (c.hotkeys, (addedDefaults store c.settings).foldl setInsert []) = r) :
    (loadHotkeys keys c).hotkeys = (loaded keys c r).hotkeys := by
  rcases loadHotkeys_cases hr with heq | heq
  · rw [heq]
  · rw [heq]
    rfl

theorem lookup_entry {hotkeys : List Hotkey} (hnd : (hotkeys.map (·.name)).Nodup) {hotkey : Hotkey}
    (h : hotkey ∈ hotkeys) : List.lookup hotkey.name (hotkeys.map entry) = some (entry hotkey).2 := by
  induction hotkeys with
  | nil => exact nomatch h
  | cons x hotkeys ih =>
    obtain ⟨hnot, hrest⟩ := List.nodup_cons.mp hnd
    rw [List.map_cons, entry, List.lookup_cons]
    rcases List.mem_cons.mp h with rfl | h
    · rw [beq_self_eq_true]
      rfl
    · have hne : hotkey.name ≠ x.name := fun heq => hnot (List.mem_map.mpr ⟨hotkey, h, heq⟩)
      rw [beq_eq_false_iff_ne.mpr hne]
      exact ih hrest h

variable (hstore : store.Nested) {c : HotkeyController store} (hnd : (c.hotkeys.items.map (·.name)).Nodup)
  (hgood : ∀ x ∈ c.hotkeys.items, Storable x)

include hstore hnd hgood

/-- The object after `saveHotkeys`, if all hotkeys can be stored. -/
theorem node_saved : node store (saveHotkeys c).settings
    = .object (("addedDefaults".toList, SettingManager.ofStrings (addedDefaults store c.settings)) ::
        c.hotkeys.items.map entry) := by
  rw [node_saveHotkeys hstore, foldl_writeHotkey_good _ _ (fun x hx => (hgood x hx).name.1)]
  · rfl
  · refine List.nodup_cons.mpr ⟨fun hmem => ?_, hnd⟩
    obtain ⟨x, hx, heq⟩ := List.mem_map.mp hmem
    exact (hgood x hx).name.2 heq

theorem addedDefaults_saved : addedDefaults store (saveHotkeys c).settings
    = (addedDefaults store c.settings).map cString := by
  rw [addedDefaults_eq hstore, node_saved hstore hnd hgood]
  exact SettingManager.toStrings_ofStrings _

theorem addedDefaults_saved_of_whole (hwhole : ∀ name ∈ addedDefaults store c.settings, WholeString name) :
    addedDefaults store (saveHotkeys c).settings = addedDefaults store c.settings := by
  rw [addedDefaults_saved hstore hnd hgood,
    List.map_congr_left fun name hname => SettingManager.cString_eq (hwhole name hname)]
  exact List.map_id _

theorem read_saved (hsavable : ∀ x ∈ c.hotkeys.items, Savable keys x) (names : List QString) :
    ((node store (saveHotkeys c).settings).toObject.map Prod.fst).filterMap
        (readHotkey store keys (setAddedDefaults store names (saveHotkeys c).settings))
      = c.hotkeys.items := by
  have hnode : node store (setAddedDefaults store names (saveHotkeys c).settings)
      = .object (("addedDefaults".toList, SettingManager.ofStrings names) ::
          c.hotkeys.items.map entry) := by
    rw [node_setAddedDefaults hstore, node_saved hstore hnd hgood]
    rfl
  have hread : ∀ x ∈ c.hotkeys.items,
      readHotkey store keys (setAddedDefaults store names (saveHotkeys c).settings) x.name = some x := by
    intro x hx
    refine readHotkey_entry hstore hnode ?_ (hgood x hx) (hsavable x hx)
    rw [List.lookup_cons, beq_eq_false_iff_ne.mpr (hgood x hx).name.2]
    exact lookup_entry hnd hx
  have hkeys : (node store (saveHotkeys c).settings).toObject.map Prod.fst
      = "addedDefaults".toList :: c.hotkeys.items.map (·.name) := by
    rw [node_saved hstore hnd hgood, QJsonValue.toObject, List.map_cons, List.map_map]
    rfl
  rw [hkeys, List.filterMap_cons, readHotkey, if_pos rfl, List.filterMap_map]
  exact (List.filterMap_congr hread).trans List.filterMap_some

end Load

theorem named_newHotkeys (names : List QString) : Named (newHotkeys, names) where
  compare := rfl
  ordered := List.Pairwise.nil
  nodup := List.nodup_nil
  mem _ hx := nomatch hx

/-- A restart keeps the hotkeys if all of them can be stored and no default comes back. -/
theorem survives_iff (hstore : store.Nested) {c : HotkeyController store} (hinv : Inv keys c) :
    Survives keys c ↔ (∀ x ∈ c.hotkeys.items, Storable x) ∧ Listed keys c := by
  obtain ⟨r, hr⟩ : ∃ r, (defaults keys).foldl tryAddDefault
    (newHotkeys, (addedDefaults store (saveHotkeys c).settings).foldl setInsert []) = r := ⟨_, rfl⟩
  have hload : (new store keys (saveHotkeys c).settings).hotkeys = _ := loadHotkeys_hotkeys hr
  have hnamed : Named r := hr ▸ (named_newHotkeys _).foldl (defaults keys)
  rw [Survives, hload]
  unfold loaded
  dsimp only
  constructor
  · intro heq
    have hgood : ∀ x ∈ c.hotkeys.items, Storable x := by
      intro x hx
      rw [← heq, (foldl_append_perm _ hnamed.compare).mem_iff, List.mem_append] at hx
      rcases hx with hx | hx
      · obtain ⟨key, hkey, hread⟩ := List.mem_filterMap.mp hx
        exact storable_of_read hstore hkey hread
      · rw [← hr] at hx
        rcases foldl_tryAddDefault_items _ _ (named_newHotkeys _) hx with hx | hx
        · exact nomatch hx
        · exact (defaults_good keys x hx).1
    refine ⟨hgood, fun d hd => ?_⟩
    by_contra hnot
    -- a default that comes back makes the list longer
    have hne : r.1.items ≠ [] := by
      rw [← hr]
      refine foldl_tryAddDefault_ne_nil (defaults keys) _ (named_newHotkeys _) (.inr ⟨d, hd, ?_⟩)
      rw [mem_setOf, addedDefaults_saved_of_whole hstore hinv.nodup hgood hinv.added_whole]
      simpa using hnot
    rw [read_saved hstore hinv.nodup hgood hinv.savable] at heq
    have hlength := (foldl_append_perm c.hotkeys.items hnamed.compare).length_eq
    rw [heq, List.length_append] at hlength
    exact hne (List.length_eq_zero_iff.mp (by omega))
  · rintro ⟨hgood, hlisted⟩
    rw [foldl_tryAddDefault_of_mem] at hr
    · subst hr
      rw [read_saved hstore hinv.nodup hgood hinv.savable]
      exact foldl_append _ rfl hinv.ordered
    · intro d hd
      rw [mem_setOf, addedDefaults_saved_of_whole hstore hinv.nodup hgood hinv.added_whole]
      exact .inl (hlisted d hd)

end HotkeyController

end Dankerino
