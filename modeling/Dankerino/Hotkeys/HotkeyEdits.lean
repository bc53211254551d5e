import Dankerino.Hotkeys.HotkeyRestart

/-!
# Hotkeys made in the dialog

Runs of the page of the settings, from a first start. After each action the hotkeys would survive a
restart, as long as the names that are entered are good and no text has a U+0000.
-/

namespace Dankerino

open Infra HotkeyModel

open SettingManager (cString WholeString)

/-- What is relied on: a key sequence is the one of its text, without U+0000, and the defaults have one. -/
structure KeySequences.Lawful (keys : KeySequences) : Prop where
  ofText_ofText : ∀ text, keys.ofText (keys.ofText text) = keys.ofText text
  whole_ofText : ∀ text, WholeString (keys.ofText text)
  ofText_zoomIn : keys.ofText keys.zoomIn = keys.zoomIn
  ofText_zoomOut : keys.ofText keys.zoomOut = keys.zoomOut
  default_ne : ∀ d ∈ defaults keys, d.keySequence ≠ []

/-- The name is good, and no U+0000 is entered. -/
structure EditHotkeyDialog.Storable {keys : KeySequences} (d : EditHotkeyDialog keys) : Prop where
  name : HotkeyController.GoodName d.name
  action : WholeString (d.actionData.getD d.actionText)
  arguments : WholeString d.arguments

namespace HotkeyController

variable {store : SettingStore} {keys : KeySequences}

/-! ## The first start -/

theorem savable_defaults (hkeys : keys.Lawful) : ∀ d ∈ defaults keys, Savable keys d := by
  have hsequence : ∀ d ∈ defaults keys, keys.ofText d.keySequence = d.keySequence := by
    simp only [defaults, popupWindowDefaults, splitDefaults, splitInputDefaults, windowDefaults,
      openTabDefaults, defaultHotkey, List.forall_mem_append, List.forall_mem_cons, List.forall_mem_map,
      hkeys.ofText_ofText, hkeys.ofText_zoomIn, hkeys.ofText_zoomOut, List.not_mem_nil,
      false_imp_iff, implies_true, and_self]
  intro d hd
  obtain ⟨-, -, hname, haction⟩ := defaults_good keys d hd
  exact
    { name_ne := hname
      keySequence_ne := hkeys.default_ne d hd
      keySequence_eq := hsequence d hd
      keySequence_whole := hsequence d hd ▸ hkeys.whole_ofText d.keySequence
      action_ne := haction }

/-- The hotkeys can be stored, and no default comes back. -/
structure Sound (keys : KeySequences) (c : HotkeyController store) : Prop extends Inv keys c where
  good : ∀ x ∈ c.hotkeys.items, Storable x
  listed : Listed keys c

theorem addedDefaults_setAddedDefaults (hstore : store.Nested) (names : List QString)
    (settings : store.Document) :
    addedDefaults store (setAddedDefaults store names settings) = names.map cString := by
  have hget := hstore.get_set "/hotkeys/addedDefaults".toList (SettingManager.ofStrings names) settings
  exact (congrArg SettingManager.toStrings hget).trans (SettingManager.toStrings_ofStrings names)

/-- Saving keeps what is in the settings whole. -/
theorem added_whole_saveHotkeys (hstore : store.Nested) (c : HotkeyController store) :
    ∀ name ∈ addedDefaults store (saveHotkeys c).settings, WholeString name := by
  rw [addedDefaults_eq hstore]
  exact ((written_saveHotkeys hstore c).whole ["addedDefaults".toList]).2

/-- Saving keeps the controller as it is. -/
theorem Sound.saveHotkeys (hstore : store.Nested) {c : HotkeyController store} (h : Sound keys c) :
    Sound keys (saveHotkeys c) where
  compare := h.compare
  ordered := h.ordered
  nodup := h.nodup
  savable := h.savable
  added_whole := added_whole_saveHotkeys hstore c
  good := h.good
  listed d hd := by
    rw [addedDefaults_saved_of_whole hstore h.nodup h.good h.added_whole]
    exact h.listed d hd

/-- Without hotkeys in the document, there are only defaults. -/
theorem loaded_start {c : HotkeyController store}
    (hnode : ∀ k ∈ (node store c.settings).toObject.map Prod.fst, k = "addedDefaults".toList)
    (r : SignalVector Hotkey × List QString) : (loaded keys c r).hotkeys = r.1 := by
  have hnone : ((node store c.settings).toObject.map Prod.fst).filterMap
      (readHotkey store keys (setAddedDefaults store r.2 c.settings)) = [] := by
    rw [List.filterMap_eq_nil_iff]
    intro key hkey
    rw [hnode key hkey, readHotkey, if_pos rfl]
  rw [loaded, hnone]
  rfl

section Start

variable {c : HotkeyController store} (hcompare : c.hotkeys.itemCompare = some hotkeySortCompare)
  (hitems : c.hotkeys.items = [])

include hcompare hitems

theorem named_start (names : List QString) : Named (c.hotkeys, names) where
  compare := hcompare
  ordered := hitems ▸ List.Pairwise.nil
  nodup := hitems ▸ List.nodup_nil
  mem x hx := by
    rw [hitems] at hx
    exact nomatch hx

theorem foldl_tryAddDefault_start (names : List QString) :
    ∀ x ∈ ((defaults keys).foldl tryAddDefault (c.hotkeys, names)).1.items, x ∈ defaults keys := by
  intro x hx
  rcases foldl_tryAddDefault_items (defaults keys) _ (named_start hcompare hitems names) hx with hx | hx
  · rw [hitems] at hx
    exact nomatch hx
  · exact hx

variable (hnode : ∀ k ∈ (node store c.settings).toObject.map Prod.fst, k = "addedDefaults".toList)

include hnode

theorem loadHotkeys_start : ∀ x ∈ (loadHotkeys keys c).hotkeys.items, x ∈ defaults keys := by
  rw [loadHotkeys_hotkeys rfl, loaded_start hnode]
  exact foldl_tryAddDefault_start hcompare hitems _

theorem sound_loadHotkeys (hstore : store.Nested) (hkeys : keys.Lawful) :
    Sound keys (loadHotkeys keys c) := by
  obtain ⟨r, hr⟩ : ∃ r, (defaults keys).foldl tryAddDefault
    (c.hotkeys, (addedDefaults store c.settings).foldl setInsert []) = r := ⟨_, rfl⟩
  have hnamed : Named r := hr ▸ (named_start hcompare hitems _).foldl (defaults keys)
  have hdefaults : ∀ x ∈ r.1.items, x ∈ defaults keys :=
    hr ▸ foldl_tryAddDefault_start hcompare hitems _
  have hhotkeys : (loaded keys c r).hotkeys = r.1 := loaded_start hnode r
  have hsound : Sound keys (loaded keys c r) :=
    { compare := hhotkeys ▸ hnamed.compare
      ordered := hhotkeys ▸ hnamed.ordered
      nodup := hhotkeys ▸ hnamed.nodup
      savable := by
        rw [hhotkeys]
        exact fun x hx => savable_defaults hkeys x (hdefaults x hx)
      added_whole := by
        intro name hname
        rw [loaded, addedDefaults_setAddedDefaults hstore] at hname
        obtain ⟨name, -, rfl⟩ := List.mem_map.mp hname
        exact SettingManager.wholeString_cString name
      good := by
        rw [hhotkeys]
        exact fun x hx => (defaults_good keys x (hdefaults x hx)).1
      listed := by
        intro d hd
        rw [loaded, addedDefaults_setAddedDefaults hstore, ← hr]
        refine List.mem_map.mpr ⟨d.name, ?_, SettingManager.cString_eq (defaults_good keys d hd).2.1⟩
        rw [mem_foldl_tryAddDefault]
        exact .inl (List.mem_map_of_mem hd) }
  rcases loadHotkeys_cases hr with heq | heq
  · rw [heq]
    exact hsound
  · rw [heq]
    exact hsound.saveHotkeys hstore

end Start

section New

variable {settings : store.Document} (hnone : ∀ key ∈ store.getObjectKeys "/hotkeys".toList settings,
  key = "addedDefaults".toList)

include hnone

theorem sound_new (hstore : store.Nested) (hkeys : keys.Lawful) : Sound keys (new store keys settings) :=
  sound_loadHotkeys rfl rfl hnone hstore hkeys

theorem new_defaults : ∀ x ∈ (new store keys settings).hotkeys.items, x ∈ defaults keys :=
  loadHotkeys_start rfl rfl hnone

end New

/-! ## The dialog -/

theorem mem_trimmed {c : Char} (hc : QString.isSpace c = false) {s : QString} :
    c ∈ QString.trimmed s ↔ c ∈ s := by
  have hdrop (s : QString) : c ∈ s.dropWhile QString.isSpace ↔ c ∈ s := by
    have hsplit := List.takeWhile_append_dropWhile (p := QString.isSpace) (l := s)
    refine ⟨fun h => (List.dropWhile_sublist _).subset h, fun h => ?_⟩
    rw [← hsplit, List.mem_append] at h
    refine h.resolve_left fun hspace => ?_
    rw [List.mem_takeWhile_imp hspace] at hc
    exact nomatch hc
  rw [QString.trimmed, List.mem_reverse, hdrop, List.mem_reverse, hdrop]

theorem mem_splitOn {c sep : Char} (hc : c ≠ sep) (s : QString) :
    (∃ piece ∈ s.splitOn sep, c ∈ piece) ↔ c ∈ s := by
  induction s with
  | nil => simp
  | cons x s ih =>
    rw [List.splitOn_cons_eq_if_modifyHead]
    split
    · next hx =>
      have hne : c ≠ x := by simpa [beq_iff_eq.mp hx] using hc
      simpa [hne] using ih
    · cases hs : s.splitOn sep with
      | nil => exact absurd hs (List.splitOn_ne_nil _ _)
      | cons head rest =>
        rw [hs] at ih
        simpa [or_assoc] using or_congr_right ih

/-- The arguments have the U+0000 of the text that is entered. -/
theorem whole_parseHotkeyArguments (s : QString) :
    (∀ argument ∈ parseHotkeyArguments s, WholeString argument) ↔ WholeString s := by
  have htrimmed {t : QString} : WholeString (QString.trimmed t) ↔ WholeString t :=
    not_congr (mem_trimmed (by decide))
  unfold parseHotkeyArguments
  dsimp only
  split
  · next hempty =>
    rw [← htrimmed, List.isEmpty_iff.mp hempty]
    exact iff_of_true (fun argument h => nomatch h) List.not_mem_nil
  · have hpieces := not_congr (mem_splitOn (show '\x00' ≠ '\n' by decide) (QString.trimmed s))
    rw [← htrimmed, List.forall_mem_map]
    refine Iff.trans ?_ hpieces
    rw [not_exists]
    exact forall_congr' fun piece => (imp_congr_right fun _ => htrimmed).trans not_and.symm

/-- What `afterEdit` lets through. -/
structure Entered (d : EditHotkeyDialog keys) (hotkeys : List Hotkey) (hotkey : Hotkey) : Prop where
  savable : Savable keys hotkey
  name : hotkey.name = d.name
  storable : Storable hotkey ↔ d.Storable
  /-- The only hotkey that may have the name is the one that is edited. -/
  data : ∀ x ∈ hotkeys, x.name = hotkey.name → ∃ data, d.data = some data ∧ data.name = hotkey.name

theorem ite_error_eq_ok {ε α : Type*} {p : Prop} [Decidable p] {e : ε} {x : Except ε α} {a : α}
    (h : (if p then .error e else x) = Except.ok a) : ¬ p ∧ x = .ok a := by
  split at h
  · exact nomatch h
  · next hp => exact ⟨hp, h⟩

theorem afterEdit_entered (hkeys : keys.Lawful) {d : EditHotkeyDialog keys} {hotkeys : List Hotkey}
    {hotkey : Hotkey} (h : d.afterEdit hotkeys = .ok hotkey) : Entered d hotkeys hotkey := by
  unfold EditHotkeyDialog.afterEdit at h
  cases hcategory : hotkeyCategoryFromName d.categoryData with
  | none =>
    rw [hcategory] at h
    exact nomatch h
  | some category =>
    rw [hcategory] at h
    obtain ⟨htaken, h⟩ := ite_error_eq_ok h
    obtain ⟨hname, h⟩ := ite_error_eq_ok h
    obtain ⟨hkeySequence, h⟩ := ite_error_eq_ok h
    obtain ⟨haction, h⟩ := ite_error_eq_ok h
    obtain ⟨-, h⟩ := ite_error_eq_ok h
    obtain ⟨-, h⟩ := ite_error_eq_ok h
    obtain rfl := Except.ok.inj h
    rw [List.isEmpty_iff] at hname hkeySequence haction
    have hwhole : WholeString d.keySequence := d.keySequence_eq ▸ hkeys.whole_ofText d.keySequence
    refine ⟨⟨hname, hkeySequence, d.keySequence_eq, hwhole, ?_⟩, rfl, ?_, fun x hx hx_name => ?_⟩
    · dsimp only
      cases hdata : d.actionData with
      | none => exact haction
      | some raw => exact fun hnil => d.actionData_ne (hdata.trans (congrArg some hnil))
    · have harguments := whole_parseHotkeyArguments d.arguments
      exact ⟨fun h => ⟨h.name, h.action, harguments.mp h.arguments⟩,
        fun h => ⟨h.name, h.action, harguments.mpr h.arguments⟩⟩
    · have hany : (hotkeys.any fun hotkey => hotkey.name == d.name) = true :=
        List.any_eq_true.mpr ⟨x, hx, beq_iff_eq.mpr hx_name⟩
      rw [hany, Bool.true_and, Bool.not_eq_true', Bool.not_eq_false] at htaken
      cases hdata : d.data with
      | none =>
        rw [hdata] at htaken
        exact nomatch htaken
      | some data =>
        rw [hdata] at htaken
        exact ⟨data, rfl, beq_iff_eq.mp htaken⟩

/-! ## Steps -/

theorem replaceHotkey_eq {hotkeys : SignalVector Hotkey} {data : Hotkey} (h : data ∈ hotkeys.items)
    (hotkey : Hotkey) : ∃ a x b, hotkeys.items = a ++ x :: b ∧ x.name = data.name ∧
      replaceHotkey hotkeys data.name hotkey = append { hotkeys with items := a ++ b } hotkey := by
  unfold replaceHotkey
  cases hfind : hotkeys.items.findIdx? fun x => x.name = data.name with
  | none =>
    rw [List.findIdx?_eq_none_iff] at hfind
    simpa using hfind data h
  | some i =>
    obtain ⟨hi, hname, -⟩ := List.findIdx?_eq_some_iff_getElem.mp hfind
    obtain ⟨a, x, b, hitems, rfl, hremove⟩ := SignalVector.removeAt_cut hi
    refine ⟨a, x, b, hitems, ?_, ?_⟩
    · simp only [hitems, List.getElem_append_right (Nat.le_refl _)] at hname
      simpa using hname
    · simp only [hremove]

/-- A hotkey is put into a list in which no other has its name. -/
theorem Inv.append {c : HotkeyController store} (h : Inv keys c) {hotkey : Hotkey}
    (hsavable : Savable keys hotkey) (hnew : ∀ x ∈ c.hotkeys.items, x.name ≠ hotkey.name) :
    Inv keys { c with hotkeys := append c.hotkeys hotkey } where
  added_whole := h.added_whole
  compare := append_compare h.compare hotkey
  ordered := append_ordered h.compare h.ordered hnew
  nodup := by
    rw [((append_perm h.compare hotkey).map _).nodup_iff, List.map_cons, List.nodup_cons]
    exact ⟨fun hmem => (List.mem_map.mp hmem).elim fun x hx => hnew x hx.1 hx.2, h.nodup⟩
  savable x hx := by
    rcases (mem_append h.compare hotkey x).mp hx with rfl | hx
    · exact hsavable
    · exact h.savable x hx

/-- A hotkey is taken out of the list. -/
theorem Inv.remove {c : HotkeyController store} (h : Inv keys c) {a b : List Hotkey} {x : Hotkey}
    (hitems : c.hotkeys.items = a ++ x :: b) :
    Inv keys { c with hotkeys := { c.hotkeys with items := a ++ b } } := by
  have hsublist : (a ++ b).Sublist c.hotkeys.items := by
    rw [hitems]
    exact (List.sublist_cons_self x b).append_left a
  exact
    { compare := h.compare
      ordered := h.ordered.sublist hsublist
      nodup := h.nodup.sublist (hsublist.map _)
      savable := fun y hy => h.savable y (hsublist.subset hy)
      added_whole := h.added_whole }

/-- The name that is entered is good, and no text that is entered has a U+0000. -/
def EntersStorable : Op keys → Prop
  | .add d => d.Storable
  | .edit d => d.Storable
  | .removeAt _ => True
  | .resetToDefaults => True

/-- The list that a hotkey is added to when another is edited. -/
theorem edit_base {c : HotkeyController store} (h : Inv keys c) {d : EditHotkeyDialog keys}
    {data hotkey : Hotkey} (hdata : d.data = some data) (hmem : data ∈ c.hotkeys.items)
    (hentered : Entered d c.hotkeys.items hotkey) :
    ∃ base : SignalVector Hotkey, Inv keys { c with hotkeys := base } ∧
      (∀ x ∈ base.items, x ∈ c.hotkeys.items ∧ x.name ≠ hotkey.name) ∧
      replaceHotkey c.hotkeys data.name hotkey = append base hotkey := by
  obtain ⟨a, x, b, hitems, hname, hreplace⟩ := replaceHotkey_eq hmem hotkey
  refine ⟨_, h.remove hitems, fun y hy => ?_, hreplace⟩
  have hmem : y ∈ c.hotkeys.items := by
    rw [hitems]
    exact ((List.sublist_cons_self x b).append_left a).subset hy
  refine ⟨hmem, fun hy_name => ?_⟩
  -- the only other hotkey with this name would be the one that is gone
  obtain ⟨data', hdata', hdata_name⟩ := hentered.data y hmem hy_name
  rw [hdata, Option.some.injEq] at hdata'
  subst hdata'
  have hnd := h.nodup
  rw [hitems, List.map_append, List.map_cons, List.nodup_middle, List.nodup_cons] at hnd
  refine hnd.1 ?_
  rw [hname, hdata_name, ← hy_name, ← List.map_append]
  exact List.mem_map_of_mem hy

theorem add_base {c : HotkeyController store} {d : EditHotkeyDialog keys} {hotkey : Hotkey}
    (hdata : d.data = none) (hentered : Entered d c.hotkeys.items hotkey) :
    ∀ x ∈ c.hotkeys.items, x.name ≠ hotkey.name := by
  intro x hx hname
  obtain ⟨data, hdata', -⟩ := hentered.data x hx hname
  rw [hdata] at hdata'
  exact nomatch hdata'

/-- Saving after a hotkey was added. -/
theorem Sound.append_iff (hstore : store.Nested) {c : HotkeyController store} (h : Sound keys c)
    {hotkey : Hotkey} (hsavable : Savable keys hotkey) (hnew : ∀ x ∈ c.hotkeys.items, x.name ≠ hotkey.name) :
    Sound keys (HotkeyController.saveHotkeys
      { c with hotkeys := HotkeyController.append c.hotkeys hotkey }) ↔ Storable hotkey := by
  have hmem := mem_append h.compare hotkey
  constructor
  · intro hsound
    exact hsound.good hotkey ((hmem hotkey).mpr (.inl rfl))
  · intro hgood
    have hall : Sound keys { c with hotkeys := HotkeyController.append c.hotkeys hotkey } :=
      { toInv := h.toInv.append hsavable hnew
        good := fun x hx => ((hmem x).mp hx).elim (fun heq => heq ▸ hgood) (h.good x)
        listed := h.listed }
    exact hall.saveHotkeys hstore

theorem sound_reset (hstore : store.Nested) (hkeys : keys.Lawful) {c : HotkeyController store}
    (h : Inv keys c) : Sound keys (c.resetToDefaults keys) := by
  refine sound_loadHotkeys h.compare rfl (fun key hkey => ?_) hstore hkeys
  rw [node_saveHotkeys hstore] at hkey
  exact List.mem_singleton.mp hkey

theorem Inv.step (hstore : store.Nested) (hkeys : keys.Lawful) {c c' : HotkeyController store}
    {op : Op keys} (h : Inv keys c) (hstep : Step store keys c op c') : Inv keys c' := by
  cases hstep with
  | add hdata hok =>
    have hentered := afterEdit_entered hkeys hok
    have hnew := h.append hentered.savable (add_base hdata hentered)
    exact { hnew with added_whole := added_whole_saveHotkeys hstore _ }
  | edit hdata hmem hok =>
    have hentered := afterEdit_entered hkeys hok
    obtain ⟨base, hbase, hbase_mem, hreplace⟩ := edit_base h hdata hmem hentered
    rw [hreplace]
    have hnew := hbase.append hentered.savable fun x hx => (hbase_mem x hx).2
    exact { hnew with added_whole := added_whole_saveHotkeys hstore _ }
  | removeAt hremove =>
    obtain ⟨a, x, b, hitems, ⟨⟩⟩ := SignalVector.eq_of_removeAt hremove
    exact h.remove hitems
  | resetToDefaults => exact (sound_reset hstore hkeys h).toInv

/-- One action, after which a restart would keep the hotkeys exactly if what is entered can be stored. -/
theorem Sound.step_iff (hstore : store.Nested) (hkeys : keys.Lawful) {c c' : HotkeyController store}
    {op : Op keys} (h : Sound keys c) (hstep : Step store keys c op c') :
    Sound keys c' ↔ EntersStorable op := by
  cases hstep with
  | add hdata hok =>
    have hentered := afterEdit_entered hkeys hok
    rw [EntersStorable, ← hentered.storable]
    exact h.append_iff hstore hentered.savable (add_base hdata hentered)
  | edit hdata hmem hok =>
    have hentered := afterEdit_entered hkeys hok
    obtain ⟨base, hbase, hbase_mem, hreplace⟩ := edit_base h.toInv hdata hmem hentered
    rw [hreplace, EntersStorable, ← hentered.storable]
    have hsound : Sound keys { c with hotkeys := base } :=
      { toInv := hbase
        good := fun x hx => h.good x (hbase_mem x hx).1
        listed := h.listed }
    exact hsound.append_iff hstore hentered.savable fun x hx => (hbase_mem x hx).2
  | removeAt hremove =>
    obtain ⟨a, x, b, hitems, ⟨⟩⟩ := SignalVector.eq_of_removeAt hremove
    have hsound : Sound keys { c with hotkeys := { c.hotkeys with items := a ++ b } } :=
      { toInv := h.remove hitems
        good := by
          intro y hy
          refine h.good y ?_
          rw [hitems]
          exact ((List.sublist_cons_self x b).append_left a).subset hy
        listed := h.listed }
    exact iff_of_true hsound trivial
  | resetToDefaults => exact iff_of_true (sound_reset hstore hkeys h.toInv) trivial

theorem sound_iff (hstore : store.Nested) {c : HotkeyController store} (h : Inv keys c) :
    Sound keys c ↔ Survives keys c := by
  rw [survives_iff keys hstore h]
  exact ⟨fun hsound => ⟨hsound.good, hsound.listed⟩, fun hgood => ⟨h, hgood.1, hgood.2⟩⟩

/--
From a first start, a restart would keep the hotkeys after each action, exactly if every name that is
entered is good and no U+0000 is entered.
-/
theorem run_survives_iff (hstore : store.Nested) (hkeys : keys.Lawful) {settings : store.Document}
    (hnone : ∀ key ∈ store.getObjectKeys "/hotkeys".toList settings, key = "addedDefaults".toList)
    (ops : List (Op keys)) (c : HotkeyController store) :
    Run (fun c op c' => Step store keys c op c' ∧ Survives keys c') (new store keys settings) ops c ↔
      Run (fun c op c' => Step store keys c op c' ∧ EntersStorable op) (new store keys settings) ops c := by
  have hstart : Sound keys (new store keys settings) := sound_new hnone hstore hkeys
  have hinv (c : HotkeyController store) (op : Op keys) (c' : HotkeyController store) :
      Inv keys c → Step store keys c op c' → Inv keys c' := Inv.step hstore hkeys
  refine Run.guarded_iff hinv (fun c op c' hc hsurvives hstep => ?_) hstart.toInv
    ((sound_iff hstore hstart.toInv).mp hstart)
  have hsound := (sound_iff hstore hc).mpr hsurvives
  rw [← sound_iff hstore (hc.step hstore hkeys hstep)]
  exact hsound.step_iff hstore hkeys hstep

/-! ## A lost hotkey -/

/-- The texts that the constructor of a key sequence changes, among those of the defaults. -/
def changedTexts : List (QString × QString) :=
  [("Escape".toList, "Esc".toList), ("Alt+x".toList, "Alt+X".toList),
    ("Alt+left".toList, "Alt+Left".toList), ("Alt+down".toList, "Alt+Down".toList),
    ("Alt+up".toList, "Alt+Up".toList), ("Alt+right".toList, "Alt+Right".toList),
    ("CTRL+0".toList, "Ctrl+0".toList)]

def plainKeys : KeySequences where
  ofText text := if WholeString text then (changedTexts.lookup text).getD text else []
  zoomIn := "Ctrl++".toList
  zoomOut := "Ctrl+-".toList
  isSingleKey text := text.length = 1

theorem ofText_plainKeys {text : QString} (h : WholeString text) :
    plainKeys.ofText text = (changedTexts.lookup text).getD text := if_pos h

theorem plainKeys_lawful : plainKeys.Lawful where
  ofText_ofText text := by
    by_cases hwhole : WholeString text
    · rw [ofText_plainKeys hwhole]
      cases htext : changedTexts.lookup text with
      | none =>
        rw [Option.getD_none, ofText_plainKeys hwhole, htext]
        rfl
      | some changed =>
        have hall : ∀ p ∈ changedTexts, WholeString p.2 ∧ changedTexts.lookup p.2 = none := by decide
        have hmem : (text, changed) ∈ changedTexts := by
          obtain ⟨l₁, l₂, heq, -⟩ := List.lookup_eq_some_iff.mp htext
          rw [heq]
          exact List.mem_append_right _ List.mem_cons_self
        obtain ⟨hchanged, hlookup⟩ := hall _ hmem
        rw [Option.getD_some, ofText_plainKeys hchanged, hlookup]
        rfl
    · have hnil : plainKeys.ofText text = [] := if_neg hwhole
      rw [hnil]
      rfl
  whole_ofText text := by
    by_cases hwhole : WholeString text
    · rw [ofText_plainKeys hwhole]
      cases htext : changedTexts.lookup text with
      | none => exact hwhole
      | some changed =>
        have hall : ∀ p ∈ changedTexts, WholeString p.2 := by decide
        obtain ⟨l₁, l₂, heq, -⟩ := List.lookup_eq_some_iff.mp htext
        exact hall (text, changed) (by rw [heq]; exact List.mem_append_right _ List.mem_cons_self)
    · have hnil : plainKeys.ofText text = [] := if_neg hwhole
      rw [hnil]
      exact List.not_mem_nil
  ofText_zoomIn := rfl
  ofText_zoomOut := rfl
  default_ne := by
    have hall : ((defaults plainKeys).all fun d => !d.keySequence.isEmpty) = true := by decide +kernel
    intro d hd hnil
    have hd' := List.all_eq_true.mp hall d hd
    rw [hnil] at hd'
    exact nomatch hd'

/-- A hotkey that is entered with this name. -/
def enteredHotkey (name : QString) : EditHotkeyDialog plainKeys where
  data := none
  arguments := []
  categoryData := "window".toList
  name := name
  keySequence := "Ctrl+Alt+Q".toList
  actionText := "quit".toList
  actionData := some "quit".toList
  shownSingleKeyWarning := false
  keySequence_eq := rfl
  actionData_ne := by decide

theorem afterEdit_enteredHotkey {name : QString} (hname : name ≠ []) {hotkeys : List Hotkey}
    (hdefaults : ∀ x ∈ hotkeys, x ∈ defaults plainKeys)
    (hnew : ∀ x ∈ hotkeys, x.name ≠ name) :
    ∃ hotkey, (enteredHotkey name).afterEdit hotkeys = .ok hotkey := by
  have hall : ((defaults plainKeys).all fun d => d.keySequence != "Ctrl+Alt+Q".toList) = true := by
    decide +kernel
  have htaken : (hotkeys.any fun hotkey => hotkey.name == name) = false :=
    List.any_eq_false.mpr fun x hx => by simpa using hnew x hx
  have hduplicate (hotkey : Hotkey) (hkey : hotkey.keySequence = "Ctrl+Alt+Q".toList) :
      EditHotkeyDialog.isDuplicate hotkeys hotkey [] = false := by
    refine List.any_eq_false.mpr fun x hx => ?_
    have hne : (x.keySequence == hotkey.keySequence) = false := by
      rw [hkey]
      simpa using List.all_eq_true.mp hall x (hdefaults x hx)
    rw [hne, Bool.and_false]
    exact Bool.false_ne_true
  have hcategory : hotkeyCategoryFromName "window".toList = some .window := rfl
  have hkeySequence : "Ctrl+Alt+Q".toList.isEmpty = false := by decide
  have haction : "quit".toList.isEmpty = false := by decide
  have hsingle : plainKeys.isSingleKey "Ctrl+Alt+Q".toList = false := by decide
  let hotkey : Hotkey :=
    { category := .window
      keySequence := "Ctrl+Alt+Q".toList
      action := "quit".toList
      arguments := parseHotkeyArguments []
      name := name }
  refine ⟨hotkey, ?_⟩
  unfold EditHotkeyDialog.afterEdit enteredHotkey
  dsimp only
  rw [hcategory]
  dsimp only
  rw [htaken, Bool.false_and, if_neg Bool.false_ne_true, List.isEmpty_eq_false_iff.mpr hname,
    if_neg Bool.false_ne_true, hkeySequence, if_neg Bool.false_ne_true, haction,
    if_neg Bool.false_ne_true, hsingle, Bool.false_and, if_neg Bool.false_ne_true, hduplicate _ rfl,
    if_neg Bool.false_ne_true]
  rfl

/-- Settings in which nothing is stored. -/
def noSettings : SettingManager.store.Document := QJsonValue.object []

theorem empty_hotkeys : ∀ key ∈ SettingManager.store.getObjectKeys "/hotkeys".toList noSettings,
    key = "addedDefaults".toList := by
  intro key hkey
  have hnil : SettingManager.store.getObjectKeys "/hotkeys".toList noSettings = [] := rfl
  rw [hnil] at hkey
  exact nomatch hkey

/-- After a reset there are the defaults, and they survive. -/
theorem run_survives_iff_reset : ∃ c,
    Run (fun c op c' => Step SettingManager.store plainKeys c op c' ∧ Survives plainKeys c')
      (new SettingManager.store plainKeys noSettings) [.resetToDefaults] c := by
  have hstep : Step SettingManager.store plainKeys (new SettingManager.store plainKeys noSettings)
    .resetToDefaults _ := .resetToDefaults _
  exact ⟨_, (run_survives_iff SettingManager.nested_store plainKeys_lawful empty_hotkeys _ _).mpr
    (Run.single ⟨hstep, trivial⟩)⟩

/-- A hotkey whose name has a `'/'` is lost. -/
theorem slash_lost : ∃ c, Run (Step SettingManager.store plainKeys)
    (new SettingManager.store plainKeys noSettings) [.add (enteredHotkey "a/b".toList)] c ∧
      ¬ Survives plainKeys c := by
  have hstore := SettingManager.nested_store
  have hstart := sound_new empty_hotkeys hstore plainKeys_lawful
  obtain ⟨hotkey, hok⟩ := afterEdit_enteredHotkey (show "a/b".toList ≠ [] by decide)
    (new_defaults empty_hotkeys) fun x hx hname => (hname ▸ (hstart.good x hx).name.1) (by decide)
  have hstep := Step.add (new SettingManager.store plainKeys noSettings) rfl hok
  refine ⟨_, Run.single hstep, fun hsurvives => ?_⟩
  have hsound := (sound_iff hstore (hstart.toInv.step hstore plainKeys_lawful hstep)).mpr hsurvives
  exact ((hstart.step_iff hstore plainKeys_lawful hstep).mp hsound).name.1 (by decide)

end HotkeyController

end Dankerino
