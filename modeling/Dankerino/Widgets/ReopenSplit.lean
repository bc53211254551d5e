import Dankerino.Widgets.ClosedSplits
import Dankerino.Widgets.SavedLayout

/-!
# Reopening closed splits

The action `reopenSplit` of `Window.cpp` makes a split of the latest entry of `ClosedSplits`. The
channel is looked up by its name alone, on the Twitch server, and the filters by their ids among those that
there still are.

* `SplitHistory` keeps beside `ClosedSplits` what was closed and has not been reopened.
* `NoDangling`: no entry has a tab that is gone, in any run.
* `reopened_iff_foundByName`: the latest closed split is restored throughout a run exactly if the
  Twitch server has its channel by that name, and there are its filters.
-/

namespace Dankerino

open Infra

/--
`getChannel()->getName()`. A split of the watching channel has the channel that is watched, so none
has the channel `watching`.
-/
def SplitChannel.getName : SplitChannel → QString
  | .empty => []
  | .twitch name => name
  | .mentions => "/mentions".toList
  | .watching => []
  | .whispers => "/whispers".toList
  | .live => "/live".toList
  | .irc _ name => name
  | .misc => "$$$".toList

/-- A split that was closed, and its tab if that still exists. -/
structure ClosedSplit (QUuid : Type) where
  channel : SplitChannel
  filters : Finset QUuid
  tab : Option NotebookTab

def ClosedSplit.forget {QUuid : Type} (tab : NotebookTab) (c : ClosedSplit QUuid) : ClosedSplit QUuid :=
  if c.tab = some tab then { c with tab := none } else c

structure OpenedSplit (QUuid : Type) where
  channel : SplitChannel
  filters : Finset QUuid
  tab : NotebookTab

variable {QUuid : Type} [LinearOrder QUuid]

/-- The entry that is kept of it. -/
def ClosedSplit.entry (c : ClosedSplit QUuid) : SplitInfo QUuid := ⟨c.channel.getName, getFilters c.filters, c.tab⟩

/-- The action `reopenSplit`. `current` is the tab of `getOrAddSelectedPage`. -/
def reopenSplit (app : App QUuid) (current : NotebookTab) (s : ClosedSplits QUuid) :
    Option (OpenedSplit QUuid × ClosedSplits QUuid) :=
  match s.pop with
  | none => none
  | some (si, rest) =>
    some (⟨getOrAddTwitchChannel app si.channelName, filterSet app si.filters, si.tab.getD current⟩, rest)

structure SplitHistory (QUuid : Type) where
  closedSplits : ClosedSplits QUuid := {}
  /-- The tabs that exist. -/
  tabs : List NotebookTab := []
  /-- What was closed and has not been reopened, the latest at the end. -/
  closed : List (ClosedSplit QUuid) := []

namespace SplitHistory

/-! ## Runs -/

inductive Event (QUuid : Type) where
  | openTab (tab : NotebookTab)
  | closeSplit (tab : NotebookTab) (channel : SplitChannel) (filters : Finset QUuid)
  | destroyTab (tab : NotebookTab)
  /-- The channels and filters that are there and the selected tab are those of the time of the action. -/
  | reopenSplit (app : App QUuid) (current : NotebookTab)

def reopened (app : App QUuid) (current : NotebookTab) (s : SplitHistory QUuid) : SplitHistory QUuid :=
  match Dankerino.reopenSplit app current s.closedSplits with
  | none => s
  | some (_, rest) => { s with closedSplits := rest, closed := s.closed.dropLast }

/-- A tab can get the address of one that is gone. -/
inductive Step : SplitHistory QUuid → Event QUuid → SplitHistory QUuid → Prop
  | openTab (s : SplitHistory QUuid) {tab : NotebookTab} (hnew : tab ∉ s.tabs) :
      Step s (.openTab tab) { s with tabs := s.tabs ++ [tab] }
  | closeSplit (s : SplitHistory QUuid) {tab : NotebookTab} {channel : SplitChannel}
      (filters : Finset QUuid) (htab : tab ∈ s.tabs) (hchannel : channel ≠ .watching) :
      Step s (.closeSplit tab channel filters)
        { s with
          closedSplits := s.closedSplits.closeSplit channel.getName (getFilters filters) tab
          closed := s.closed ++ [⟨channel, filters, some tab⟩] }
  | destroyTab (s : SplitHistory QUuid) (tab : NotebookTab) :
      Step s (.destroyTab tab)
        { closedSplits := s.closedSplits.tabDestroyed tab
          tabs := s.tabs.filter (· != tab)
          closed := s.closed.map (ClosedSplit.forget tab) }
  | reopenSplit (s : SplitHistory QUuid) (app : App QUuid) (current : NotebookTab) :
      Step s (.reopenSplit app current) (s.reopened app current)

/-! ## What reopening is for -/

/-- What `pop` yields is not the address of a tab that is gone. -/
def NoDangling (s : SplitHistory QUuid) : Prop :=
  ∀ si rest, s.closedSplits.pop = some (si, rest) → ∀ tab, si.tab = some tab → tab ∈ s.tabs

/-- The latest closed split is there again. -/
def Restores (app : App QUuid) (current : NotebookTab) (s : SplitHistory QUuid) : Prop :=
  ∀ c, s.closed.getLast? = some c →
    ∃ opened rest, Dankerino.reopenSplit app current s.closedSplits = some (opened, rest) ∧
      opened.channel = c.channel ∧ opened.filters = c.filters ∧
      ∀ tab, c.tab = some tab → opened.tab = tab

def Kept (s : SplitHistory QUuid) (e : Event QUuid) (s' : SplitHistory QUuid) : Prop :=
  NoDangling s' ∧
    match e with
    | .reopenSplit app current => Restores app current s
    | _ => True

/-- The Twitch server has the channel by its name. -/
def FoundByName (app : App QUuid) (channel : SplitChannel) : Prop :=
  match channel with
  | .twitch name => cleanTwitchName app name = name ∧ getCustomChannel name = none
  | .mentions | .whispers | .live | .misc => cleanTwitchName app channel.getName = channel.getName
  | .empty | .watching | .irc _ _ => False

def Findable (s : SplitHistory QUuid) : Event QUuid → Prop
  | .reopenSplit app _ => ∀ c, s.closed.getLast? = some c →
    FoundByName app c.channel ∧ ∀ id ∈ c.filters, id ∈ app.filterRecords
  | _ => True

/-! ## Channels by their names -/

section Names

omit [LinearOrder QUuid]

theorem getName_of_custom {name : QString} {channel : SplitChannel}
    (h : getCustomChannel name = some channel) :
    channel.getName = name ∧
      (channel = .whispers ∨ channel = .mentions ∨ channel = .live ∨ channel = .misc) := by
  unfold getCustomChannel at h
  split_ifs at h with hwhispers hmentions hlive hmisc
  · obtain rfl := Option.some.inj h
    exact ⟨hwhispers.symm, .inl rfl⟩
  · obtain rfl := Option.some.inj h
    exact ⟨hmentions.symm, .inr (.inl rfl)⟩
  · obtain rfl := Option.some.inj h
    exact ⟨hlive.symm, .inr (.inr (.inl rfl))⟩
  · obtain rfl := Option.some.inj h
    exact ⟨hmisc.symm, .inr (.inr (.inr rfl))⟩

/-- What `getOrAddChannel` gives: a channel of the name that was cleaned twice, or a Twitch channel. -/
theorem getOrAddTwitchChannel_cases (app : App QUuid) (name : QString) :
    getCustomChannel (cleanTwitchName app (cleanTwitchName app name))
        = some (getOrAddTwitchChannel app name) ∨
      ∃ name', getOrAddTwitchChannel app name = .twitch name' := by
  unfold getOrAddTwitchChannel
  dsimp only
  split
  · next channel hcustom => exact .inl hcustom
  · split
    · exact .inr ⟨_, rfl⟩
    · exact .inr ⟨_, rfl⟩

/-- A channel with a name of its own. -/
theorem getOrAddTwitchChannel_custom {app : App QUuid} {channel : SplitChannel}
    (hcustom : getCustomChannel channel.getName = some channel)
    (htwitch : ∀ name, channel ≠ .twitch name) :
    getOrAddTwitchChannel app channel.getName = channel ↔
      cleanTwitchName app channel.getName = channel.getName := by
  constructor
  · intro h
    rcases getOrAddTwitchChannel_cases app channel.getName with hsome | ⟨name, htwitch'⟩
    · rw [h] at hsome
      exact cleanTwitchName_of_twice (getName_of_custom hsome).1.symm
    · exact absurd (h.symm.trans htwitch') (htwitch name)
  · intro hclean
    unfold getOrAddTwitchChannel
    simp only [hclean, hcustom]

/-- The Twitch server has no other channels. -/
theorem getOrAddTwitchChannel_twitch_or_custom (app : App QUuid) (name : QString) :
    (∃ name', getOrAddTwitchChannel app name = .twitch name') ∨
      getOrAddTwitchChannel app name = .whispers ∨ getOrAddTwitchChannel app name = .mentions ∨
      getOrAddTwitchChannel app name = .live ∨ getOrAddTwitchChannel app name = .misc := by
  rcases getOrAddTwitchChannel_cases app name with hsome | htwitch
  · exact .inr (getName_of_custom hsome).2
  · exact .inl htwitch

theorem foundByName_iff (app : App QUuid) (channel : SplitChannel) :
    getOrAddTwitchChannel app channel.getName = channel ↔ FoundByName app channel := by
  cases channel with
  | twitch name => exact getOrAddTwitchChannel_iff name
  | mentions | whispers | live | misc => exact getOrAddTwitchChannel_custom rfl nofun
  | empty | watching | irc =>
    refine iff_of_false (fun h => ?_) not_false
    rcases getOrAddTwitchChannel_twitch_or_custom app (SplitChannel.getName _) with
      ⟨name, htwitch⟩ | hcustom | hcustom | hcustom | hcustom
    · exact nomatch h.symm.trans htwitch
    · exact nomatch h.symm.trans hcustom
    · exact nomatch h.symm.trans hcustom
    · exact nomatch h.symm.trans hcustom
    · exact nomatch h.symm.trans hcustom

end Names

/-! ## The history agrees with `ClosedSplits` -/

/-- What `ClosedSplits` has is what was closed, and the tabs in it exist. -/
structure Mirrored (s : SplitHistory QUuid) : Prop where
  entries : s.closedSplits.closedSplits_ = s.closed.map ClosedSplit.entry
  connected : s.closedSplits.Connected
  tabs : ∀ c ∈ s.closed, ∀ tab, c.tab = some tab → tab ∈ s.tabs

theorem mirrored_empty : Mirrored ({} : SplitHistory QUuid) where
  entries := rfl
  connected := ClosedSplits.connected_empty
  tabs := nofun

theorem forget_entry (tab : NotebookTab) (c : ClosedSplit QUuid) :
    c.entry.forget tab = (c.forget tab).entry := by
  unfold SplitInfo.forget ClosedSplit.forget
  split_ifs with h h' h'
  · rfl
  · exact absurd h h'
  · exact absurd h' h
  · rfl

omit [LinearOrder QUuid] in
theorem tab_of_forget {tab tab' : NotebookTab} {c : ClosedSplit QUuid}
    (h : (c.forget tab).tab = some tab') : c.tab = some tab' ∧ tab' ≠ tab := by
  unfold ClosedSplit.forget at h
  split_ifs at h with htab
  refine ⟨h, ?_⟩
  rintro rfl
  exact htab h

/-- `pop` yields the latest closed split. -/
theorem Mirrored.pop_eq {s : SplitHistory QUuid} (h : Mirrored s) :
    s.closedSplits.pop = s.closed.getLast?.map fun c =>
      (c.entry, { s.closedSplits with closedSplits_ := s.closed.dropLast.map ClosedSplit.entry }) := by
  unfold ClosedSplits.pop
  rw [h.entries, List.getLast?_map]
  cases s.closed.getLast? with
  | none => rfl
  | some c => rw [Option.map_some, Option.map_some, ← List.map_dropLast]

theorem Mirrored.reopened {s : SplitHistory QUuid} (h : Mirrored s) (app : App QUuid)
    (current : NotebookTab) : Mirrored (s.reopened app current) := by
  unfold SplitHistory.reopened
  split
  · exact h
  · next opened rest hsome =>
    unfold Dankerino.reopenSplit at hsome
    split at hsome
    · exact nomatch hsome
    · next si rest' hpop =>
      obtain ⟨-, rfl⟩ := Prod.mk.inj (Option.some.inj hsome)
      refine ⟨?_, h.connected.pop hpop, fun c hc => h.tabs c (List.mem_of_mem_dropLast hc)⟩
      rw [h.pop_eq] at hpop
      obtain ⟨c, -, hc⟩ := Option.map_eq_some_iff.mp hpop
      rw [← (Prod.mk.inj hc).2]

theorem Mirrored.step {s s' : SplitHistory QUuid} {e : Event QUuid} (h : Mirrored s)
    (h1 : Step s e s') : Mirrored s' := by
  cases h1 with
  | openTab hnew =>
    refine ⟨h.entries, h.connected, fun c hc tab htab => ?_⟩
    exact List.mem_append_left _ (h.tabs c hc tab htab)
  | closeSplit filters htab hchannel =>
    refine ⟨?_, h.connected.closeSplit _ _ _, fun c hc tab' htab' => ?_⟩
    · unfold ClosedSplits.closeSplit
      rw [h.entries, List.map_append]
      rfl
    · rcases List.mem_append.mp hc with hold | hnew
      · exact h.tabs c hold tab' htab'
      · obtain rfl := List.mem_singleton.mp hnew
        exact Option.some.inj htab' ▸ htab
  | destroyTab tab =>
    refine ⟨?_, h.connected.tabDestroyed tab, fun c hc tab' htab' => ?_⟩
    · rw [ClosedSplits.closedSplits_tabDestroyed h.connected, h.entries, List.map_map, List.map_map]
      exact List.map_congr_left fun c _ => forget_entry tab c
    · obtain ⟨c, hold, rfl⟩ := List.mem_map.mp hc
      obtain ⟨htab, hne⟩ := tab_of_forget htab'
      exact List.mem_filter.mpr ⟨h.tabs c hold tab' htab, by simpa using hne⟩
  | reopenSplit app current => exact h.reopened app current

theorem Mirrored.noDangling {s : SplitHistory QUuid} (h : Mirrored s) : NoDangling s := by
  intro si rest hpop
  rw [h.pop_eq] at hpop
  obtain ⟨c, hc, heq⟩ := Option.map_eq_some_iff.mp hpop
  obtain rfl := (Prod.mk.inj heq).1
  exact h.tabs c (List.mem_of_getLast? hc)

theorem Mirrored.restores_iff {s : SplitHistory QUuid} (h : Mirrored s) (app : App QUuid)
    (current : NotebookTab) : Restores app current s ↔ Findable s (.reopenSplit app current) := by
  refine forall₂_congr fun c hc => ?_
  rw [← foundByName_iff, ← Finset.filter_eq_self, ← filterSet_getFilters]
  have hsome : Dankerino.reopenSplit app current s.closedSplits = some
      (⟨getOrAddTwitchChannel app c.channel.getName, filterSet app (getFilters c.filters), c.tab.getD current⟩,
        { s.closedSplits with closedSplits_ := s.closed.dropLast.map ClosedSplit.entry }) := by
    unfold Dankerino.reopenSplit
    rw [h.pop_eq, hc]
    rfl
  rw [hsome]
  constructor
  · rintro ⟨opened, rest, heq, hchannel, hfilters, -⟩
    obtain ⟨rfl, -⟩ := Prod.mk.inj (Option.some.inj heq)
    exact ⟨hchannel, hfilters⟩
  · rintro ⟨hchannel, hfilters⟩
    refine ⟨_, _, rfl, hchannel, hfilters, fun tab htab => ?_⟩
    rw [htab, Option.getD_some]

/--
The latest closed split is restored throughout a run exactly if it is found by its name, and there are its
filters.
-/
theorem reopened_iff_foundByName {s : SplitHistory QUuid} {events : List (Event QUuid)} :
    Run (fun s e s' => Step s e s' ∧ Kept s e s') {} events s ↔
      Run (fun s e s' => Step s e s' ∧ Findable s e) {} events s := by
  have hkeep : ∀ (s : SplitHistory QUuid) e s', Mirrored s → Step s e s' → Findable s e →
      Mirrored s' ∧ Kept s e s' := by
    intro s e s' h h1 hfind
    have h' := h.step h1
    refine ⟨h', h'.noDangling, ?_⟩
    cases e with
    | reopenSplit app current => exact (h.restores_iff app current).mpr hfind
    | openTab | closeSplit | destroyTab => trivial
  have honly : ∀ (s : SplitHistory QUuid) e s', Mirrored s → Step s e s' → Kept s e s' →
      Findable s e := by
    rintro s e s' h h1 ⟨-, hrestores⟩
    cases e with
    | reopenSplit app current => exact (h.restores_iff app current).mp hrestores
    | openTab | closeSplit | destroyTab => trivial
  exact Run.guarded_steps_iff hkeep honly mirrored_empty

/-- An IRC channel, for which a Twitch channel of that name is opened. -/
theorem irc_split_reopened_on_twitch : ∃ s, Run Step {} [.openTab 0,
      .closeSplit 0 (.irc (some 1) "linux".toList) {()}] s ∧
    (Dankerino.reopenSplit oneServer 0 s.closedSplits).map (·.1.channel)
      = some (.twitch "linux".toList) ∧
    ¬ Kept s (.reopenSplit oneServer 0) (s.reopened oneServer 0) := by
  let c : ClosedSplit Unit := ⟨.irc (some 1) "linux".toList, {()}, some 0⟩
  have hopen : Step ({} : SplitHistory Unit) (.openTab 0) { tabs := [0] } := .openTab _ (by decide)
  have hclose : Step ({ tabs := [0] } : SplitHistory Unit) (.closeSplit 0 c.channel c.filters)
      { closedSplits := ⟨[c.entry], [0]⟩, tabs := [0], closed := [c] } :=
    .closeSplit _ _ (List.mem_singleton.mpr rfl) nofun
  refine ⟨_, .cons hopen (Run.single hclose), by decide, ?_⟩
  rintro ⟨-, hrestores⟩
  obtain ⟨opened, rest, heq, hchannel, -⟩ := hrestores _ rfl
  obtain ⟨rfl, -⟩ := Prod.mk.inj (Option.some.inj heq)
  revert hchannel
  decide

end SplitHistory

end Dankerino
