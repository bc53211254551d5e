import Dankerino.Widgets.SplitWellFormed
import Dankerino.Widgets.WindowManager

/-!
# Restoring a saved tab

A container is seen as the tree of its splits and flex factors (`view`). Saving it and restoring the
result gives the same tree, with the channel of each split looked up again (`reopen`). So the layout
is the same exactly if every channel is found again: a name that begins with `#` is cleaned once
more on the way, and `$$$` is not saved at all.
-/

namespace Dankerino

open Infra QJsonObject

variable {QUuid : Type}

/-! ## Channels -/

section Channels

variable (app : App QUuid)

/-- The channel that a split with this channel has after a restart. -/
def reopen : SplitChannel → SplitChannel
  | .twitch name => getOrAddTwitchChannel app name
  | .irc (some id) name => getOrAddIrcChannel app id name
  | .irc none name => getOrAddIrcChannel app (-1) name
  | .misc => .empty
  | channel => channel

/-- The channel is found again. -/
def Restorable : SplitChannel → Prop
  | .twitch name => cleanTwitchName app name = name ∧ getCustomChannel name = none
  | .irc (some id) name => (app.ircServers id).isSome ∧ cleanChannelName name = name
  | .irc none _ => app.ircServers (-1) = none
  | .misc => False
  | _ => True

variable {app}

/-- How many `#` a name has after cleaning it. -/
theorem count_cleanChannelName (name : QString) :
    (cleanChannelName name).count '#' ≤ name.count '#' ∧
      ((cleanChannelName name).count '#' = name.count '#' → cleanChannelName name = name) := by
  unfold cleanChannelName
  split
  · next rest =>
    rw [List.count_cons_self]
    exact ⟨Nat.le_succ _, fun h => absurd h (Nat.ne_of_lt (Nat.lt_succ_self _))⟩
  · exact ⟨Nat.le_refl _, fun _ => rfl⟩

theorem count_toLower (lowerCase : LowerCase) (s : QString) :
    (lowerCase.toLower s).count '#' = s.count '#' := by
  induction s with
  | nil => rfl
  | cons c s ih =>
    unfold LowerCase.toLower at ih ⊢
    rw [List.flatMap_cons, List.count_append, ih, lowerCase.hash, List.count_cons, Nat.add_comm]
    simp

theorem toLower_toLower (lowerCase : LowerCase) (s : QString) :
    lowerCase.toLower (lowerCase.toLower s) = lowerCase.toLower s := by
  unfold LowerCase.toLower
  rw [List.flatMap_assoc]
  exact List.flatMap_congr fun c _ => lowerCase.idem c

/-- A name that cleaning twice gives back is clean. -/
theorem cleanTwitchName_of_twice {name : QString}
    (h : cleanTwitchName app (cleanTwitchName app name) = name) : cleanTwitchName app name = name := by
  unfold cleanTwitchName at h ⊢
  obtain ⟨hle, heq⟩ := count_cleanChannelName name
  obtain ⟨hle', heq'⟩ := count_cleanChannelName (app.lowerCase.toLower (cleanChannelName name))
  have hcount := congrArg (List.count '#') h
  rw [count_toLower] at hcount hle' heq'
  rw [heq' (by omega), toLower_toLower, heq (by omega)] at h
  rw [heq (by omega), h]

theorem getCustomChannel_ne_twitch (name channelName : QString) :
    getCustomChannel channelName ≠ some (.twitch name) := by
  unfold getCustomChannel
  repeat' split
  all_goals exact nofun

theorem getOrAddTwitchChannel_iff (name : QString) :
    getOrAddTwitchChannel app name = .twitch name ↔
      cleanTwitchName app name = name ∧ getCustomChannel name = none := by
  constructor
  · intro h
    unfold getOrAddTwitchChannel at h
    simp only [] at h
    split at h
    · next channel hcustom => exact absurd (hcustom.trans (congrArg some h)) (getCustomChannel_ne_twitch _ _)
    · next hcustom =>
      have hclean : cleanTwitchName app name = name := by
        split at h
        · exact cleanTwitchName_of_twice (SplitChannel.twitch.inj h)
        · exact SplitChannel.twitch.inj h
      rw [hclean, hclean] at hcustom
      exact ⟨hclean, hcustom⟩
  · rintro ⟨hclean, hcustom⟩
    unfold getOrAddTwitchChannel
    simp only [hclean, hcustom, ite_self]

theorem length_cleanChannelName (name : QString) :
    (cleanChannelName name).length ≤ name.length ∧
      ((cleanChannelName name).length = name.length → cleanChannelName name = name) := by
  unfold cleanChannelName
  split
  · next rest =>
    rw [List.length_cons]
    exact ⟨Nat.le_succ _, fun h => absurd h (Nat.ne_of_lt (Nat.lt_succ_self _))⟩
  · exact ⟨Nat.le_refl _, fun _ => rfl⟩

theorem getOrAddIrcChannel_iff (id : Int32) (name : QString) :
    getOrAddIrcChannel app id name = .irc (some id) name ↔
      (app.ircServers id).isSome ∧ cleanChannelName name = name := by
  unfold getOrAddIrcChannel
  cases hserver : app.ircServers id with
  | none => simp
  | some channels =>
    simp only [Option.isSome_some, true_and]
    constructor
    · intro h
      obtain ⟨hle, heq⟩ := length_cleanChannelName name
      obtain ⟨hle', -⟩ := length_cleanChannelName (cleanChannelName name)
      split at h
      · have hlen := congrArg List.length (SplitChannel.irc.inj h).2
        exact heq (by omega)
      · exact (SplitChannel.irc.inj h).2
    · intro h
      rw [h, h, ite_self]

theorem getOrAddIrcChannel_none_iff (id : Int32) (name : QString) :
    getOrAddIrcChannel app id name = .irc none name ↔ app.ircServers id = none := by
  unfold getOrAddIrcChannel
  cases hserver : app.ircServers id with
  | none => simp
  | some channels =>
    simp only []
    split <;> simp

theorem reopen_iff (channel : SplitChannel) : reopen app channel = channel ↔ Restorable app channel := by
  cases channel with
  | twitch name => exact getOrAddTwitchChannel_iff name
  | irc server name =>
    cases server with
    | some id => exact getOrAddIrcChannel_iff id name
    | none => exact getOrAddIrcChannel_none_iff (-1) name
  | misc => exact iff_of_false nofun id
  | empty | mentions | watching | whispers | live => exact iff_of_true rfl trivial

/-- A channel that is saved and loaded is looked up again. -/
theorem decode_encodeChannel (d : SplitDescriptor QUuid) (channel : SplitChannel)
    (htype : d.type = (value (encodeChannel channel) "type").toString)
    (hserver : d.server = (value (encodeChannel channel) "server").toInt (-1))
    (hname : d.channelName =
      if contains (encodeChannel channel) "channel" then
        (value (encodeChannel channel) "channel").toString
      else (value (encodeChannel channel) "name").toString) :
    decodeChannel app d = reopen app channel := by
  unfold decodeChannel
  rw [htype, hserver, hname]
  cases channel with
  | twitch name => rfl
  | irc server name =>
    cases server with
    | some id =>
      have hid : (value (encodeChannel (.irc (some id) name)) "server").toInt (-1) = id :=
        QJsonValue.toInt_ofInt id (-1)
      rw [hid]
      rfl
    | none => rfl
  | empty | mentions | watching | whispers | live | misc => rfl

end Channels

/-! ## Splits -/

section Splits

variable [LinearOrder QUuid] (format : UuidFormat QUuid) (app : App QUuid)

/-- The split that takes the place of this one. -/
def reopened (split : SplitState QUuid) : SplitState QUuid where
  channel := reopen app split.channel
  filters := split.filters.filter (· ∈ app.filterRecords)
  moderationMode := split.moderationMode

/-- The channel of the split is found again, and so are its filters. -/
def RestorableSplit (split : SplitState QUuid) : Prop :=
  Restorable app split.channel ∧ ∀ id ∈ split.filters, id ∈ app.filterRecords

theorem reopened_iff (split : SplitState QUuid) :
    reopened app split = split ↔ RestorableSplit app split := by
  obtain ⟨channel, filters, moderationMode⟩ := split
  unfold reopened RestorableSplit
  rw [SplitState.mk.injEq, reopen_iff, Finset.filter_eq_self]
  simp

theorem filterSet_getFilters (filters : Finset QUuid) :
    filterSet app (getFilters filters) = filters.filter (· ∈ app.filterRecords) := by
  ext id
  simp [filterSet, getFilters, and_comm]

theorem filterSet_encodeFilters (filters : Finset QUuid) :
    filterSet app (loadFilters format (.array (encodeFilters format filters)))
      = filters.filter (· ∈ app.filterRecords) := by
  have hload : loadFilters format (.array (encodeFilters format filters)) = getFilters filters := by
    unfold loadFilters encodeFilters
    rw [if_neg (by simp [QJsonValue.isUndefined])]
    simp only [QJsonValue.toArray, List.map_map]
    exact List.map_id'' (fun id => format.fromString_toString id) _
  rw [hload, filterSet_getFilters]

/-- A saved split is loaded and made anew. -/
theorem newSplit_load (d : LayoutData QUuid) (split : SplitState QUuid) :
    newSplit app (loadSplitNode format (encodeFlex d (encodeSplit format split))).toSplitDescriptor
      = reopened app split := by
  unfold newSplit reopened
  rw [decode_encodeChannel _ split.channel rfl rfl rfl]
  congr 1
  exact filterSet_encodeFilters format app split.filters

end Splits

/-! ## Trees -/

/-- What the nodes and splits of a container hold besides the tree. -/
structure Heap (QUuid : Type) where
  splits : Split → SplitState QUuid
  flexH : Addr → Qreal
  flexV : Addr → Qreal

def Heap.data (h : Heap QUuid) (d : NodeData) : LayoutData QUuid :=
  { type := d.type, split := d.split.map h.splits, flexH := h.flexH d.addr, flexV := h.flexV d.addr }

/-- The layout of a tree of nodes. -/
def view (h : Heap QUuid) (n : Node) : LayoutNode QUuid := RoseTree.map h.data n

/-- The same splits and flex factors in the same places, except for the flex of the root. -/
structure SameLayout (n n' : LayoutNode QUuid) : Prop where
  type : n'.label.type = n.label.type
  split : n'.label.split = n.label.split
  children : n'.children = n.children

section Trees

variable [LinearOrder QUuid] (format : UuidFormat QUuid) (app : App QUuid)

/-- The same nodes, with every split made anew. -/
def Heap.reopened (h : Heap QUuid) : Heap QUuid :=
  { h with splits := fun x => Dankerino.reopened app (h.splits x) }

/-- What a node is saved as is loaded as the item that gives the node again. -/
def Reloads (h : Heap QUuid) (n : Node) : Prop :=
  ∃ obj, encodeNodeRecursively format (view h n) = some obj ∧
    applyItem app (loadItem format obj) = view (h.reopened app) n

theorem encodeChildren_reloads (h : Heap QUuid) : ∀ (ns : List Node),
    (∀ n ∈ ns, Reloads format app h n) →
      ∃ itemsArr, encodeChildren format (ns.map (view h)) = some itemsArr ∧
        applyItems app (itemsArr.map fun val => loadItem format val.toObject)
          = ns.map (view (h.reopened app))
  | [], _ => ⟨[], rfl, rfl⟩
  | n :: ns, hns => by
    obtain ⟨obj, hobj, happly⟩ := hns n List.mem_cons_self
    obtain ⟨itemsArr, harr, hrest⟩ :=
      encodeChildren_reloads h ns fun m hm => hns m (List.mem_cons_of_mem _ hm)
    refine ⟨.object obj :: itemsArr, ?_, ?_⟩
    · rw [List.map_cons, encodeChildren, hobj, harr]
      rfl
    · rw [List.map_cons, List.map_cons, applyItems, hrest, ← happly]
      rfl

/-- A container is saved with its children. -/
theorem encode_container {h : Heap QUuid} {d : NodeData} {cs : List Node} {vertical : Bool}
    (htype : d.type = containerType vertical)
    (hcs : ∀ c ∈ cs, Reloads format app h c) :
    ∃ obj items, encodeNodeRecursively format (view h (.node d cs)) = some obj ∧
      loadContainerNode format obj = .container (h.flexH d.addr) (h.flexV d.addr) vertical items ∧
      applyItems app items = cs.map (view (h.reopened app)) ∧
      (value obj "type").toString = (if vertical then "vertical".toList else "horizontal".toList) ∧
      obj.isEmpty = false := by
  obtain ⟨itemsArr, harr, happly⟩ := encodeChildren_reloads format app h cs hcs
  let obj := encodeFlex (h.data d) (insert
    (insert [] "type" (.string (if vertical then "vertical".toList else "horizontal".toList)))
    "items" (.array itemsArr))
  refine ⟨obj, itemsArr.map fun val => loadItem format val.toObject, ?_, ?_, happly, rfl, rfl⟩
  · unfold view
    rw [RoseTree.map_node, encodeNodeRecursively]
    cases vertical with
    | true =>
      simp only [Heap.data, htype, containerType, if_true]
      rw [show cs.map (RoseTree.map h.data) = cs.map (view h) from rfl, harr]
      rfl
    | false =>
      simp only [Heap.data, htype, containerType]
      rw [show cs.map (RoseTree.map h.data) = cs.map (view h) from rfl, harr]
      rfl
  · rw [loadContainerNode_eq]
    cases vertical <;> rfl

/-- A split is saved with what it holds. -/
theorem encode_split {h : Heap QUuid} {d : NodeData} {x : Split} (htype : d.type = .split)
    (hsplit : d.split = some x) :
    encodeNodeRecursively format (view h (.node d []))
      = some (encodeFlex (h.data d) (encodeSplit format (h.splits x))) := by
  unfold view
  rw [RoseTree.map_node, encodeNodeRecursively]
  simp only [Heap.data, htype, hsplit, Option.map_some]
  rfl

/-- **One node**: what it is saved as gives it again, with its splits made anew. -/
theorem reloads (h : Heap QUuid) {p : Addr} {n : Node} (hn : EachOk (some p) n) :
    Reloads format app h n := by
  induction n using RoseTree.induct generalizing p with
  | node d cs ih =>
    rw [EachOk, RoseTree.each_node] at hn
    obtain ⟨hd, hcs⟩ := hn
    have hchildren : ∀ c ∈ cs, Reloads format app h c := fun c hc => ih c hc (hcs c hc)
    have hcontainer : ∀ vertical, d.type = containerType vertical → d.split = none →
        Reloads format app h (.node d cs) := by
      intro vertical htype hsplit
      obtain ⟨obj, items, hobj, hload, happly, hname, -⟩ :=
        encode_container format app htype hchildren
      refine ⟨obj, hobj, ?_⟩
      have hitem : loadItem format obj = loadContainerNode format obj := by
        refine if_neg fun heq => ?_
        cases hvalue : value obj "type" with
        | string text =>
          rw [hvalue] at hname heq
          have htext : text = "split".toList := eq_of_beq heq
          have hother : text = if vertical then "vertical".toList else "horizontal".toList := hname
          rw [htext] at hother
          cases vertical <;> exact absurd hother (by decide)
        | _ =>
          rw [hvalue] at heq
          exact Bool.false_ne_true heq
      rw [hitem, hload, applyItem, happly]
      unfold view
      rw [RoseTree.map_node]
      simp only [Heap.data, htype, hsplit, Option.map_none]
      rfl
    cases ht : d.type with
    | emptyRoot => cases (hd.emptyRoot ht).1
    | split =>
      obtain ⟨hlen, hsome⟩ := hd.split ht
      obtain ⟨x, hx⟩ := Option.isSome_iff_exists.mp hsome
      obtain rfl := List.length_eq_zero_iff.mp hlen
      refine ⟨_, encode_split format ht hx, ?_⟩
      have hload : loadItem format (encodeFlex (h.data d) (encodeSplit format (h.splits x)))
          = .split (loadSplitNode format (encodeFlex (h.data d) (encodeSplit format (h.splits x)))) := rfl
      rw [hload, applyItem, newSplit_load]
      unfold view
      rw [RoseTree.map_node]
      simp only [Heap.data, ht, hx, Option.map_some]
      rfl
    | verticalContainer => exact hcontainer true ht (hd.container (.inl ht)).2
    | horizontalContainer => exact hcontainer false ht (hd.container (.inr ht)).2

/-- Saving the base node of a tab and restoring it in a new container. -/
def restored (n : LayoutNode QUuid) : Option (LayoutNode QUuid) := do
  let tabObj ← encodeTab format [] false true n
  applyTab app (TabDescriptor.loadFromJSON format tabObj)

/-- **The root**: the tab is restored with its splits made anew. -/
theorem restored_root (h : Heap QUuid) {n : Node} (hn : EachOk none n) :
    ∃ n', restored format app (view h n) = some n' ∧ SameLayout (view (h.reopened app) n) n' := by
  cases n with
  | node d cs =>
    rw [EachOk, RoseTree.each_node] at hn
    obtain ⟨hd, hcs⟩ := hn
    have hchildren : ∀ c ∈ cs, Reloads format app h c := fun c hc => reloads format app h (hcs c hc)
    have hview : view (h.reopened app) (.node d cs)
        = .node ((h.reopened app).data d) (cs.map (view (h.reopened app))) := RoseTree.map_node ..
    have hrestored : ∀ obj, encodeNodeRecursively format (view h (.node d cs)) = some obj →
        restored format app (view h (.node d cs))
          = applyTab app { customTitle := [], selected := false, highlightsEnabled := true,
                           rootNode := TabDescriptor.loadRootNode format obj } := by
      intro obj hobj
      unfold restored encodeTab
      rw [hobj]
      rfl
    have hcontainer : ∀ vertical, d.type = containerType vertical → d.split = none →
        ∃ n', restored format app (view h (.node d cs)) = some n' ∧
          SameLayout (view (h.reopened app) (.node d cs)) n' := by
      intro vertical htype hsplit
      obtain ⟨obj, items, hobj, hload, happly, hname, hempty⟩ :=
        encode_container format app htype hchildren
      have hroot : TabDescriptor.loadRootNode format obj = some (loadContainerNode format obj) := by
        unfold TabDescriptor.loadRootNode
        rw [hempty, hname]
        cases vertical <;> rfl
      rw [hrestored obj hobj, hroot, hload, hview]
      refine ⟨_, rfl, ?_, ?_, ?_⟩
      · exact htype.symm
      · show none = d.split.map _
        rw [hsplit]
        rfl
      · exact happly
    cases ht : d.type with
    | emptyRoot =>
      obtain ⟨-, hlen, hnone⟩ := hd.emptyRoot ht
      obtain rfl := List.length_eq_zero_iff.mp hlen
      have hobj : encodeNodeRecursively format (view h (.node d [])) = some (encodeFlex (h.data d) []) := by
        unfold view
        rw [RoseTree.map_node, encodeNodeRecursively]
        simp only [Heap.data, ht]
        rfl
      rw [hrestored _ hobj, hview]
      refine ⟨_, rfl, ?_, ?_, rfl⟩
      · exact ht.symm
      · show none = d.split.map _
        rw [hnone]
        rfl
    | split =>
      obtain ⟨hlen, hsome⟩ := hd.split ht
      obtain ⟨x, hx⟩ := Option.isSome_iff_exists.mp hsome
      obtain rfl := List.length_eq_zero_iff.mp hlen
      rw [hrestored _ (encode_split format ht hx), hview]
      refine ⟨_, rfl, ?_, ?_, rfl⟩
      · exact ht.symm
      · show some (newSplit app _) = d.split.map _
        rw [newSplit_load, hx]
        rfl
    | verticalContainer => exact hcontainer true ht (hd.container (.inl ht)).2
    | horizontalContainer => exact hcontainer false ht (hd.container (.inr ht)).2

/-- A split pointer of a well-formed tree is the split of a leaf. -/
theorem split_eq_leafSplit {q : Option Addr} {n : Node} (hn : EachOk q n) {d : NodeData}
    (hd : d ∈ n.labels) : d.split = Node.leafSplit d := by
  obtain ⟨ctx, m, rfl, rfl⟩ := RoseTree.exists_plug_of_mem hd
  have hm := ((RoseTree.each_plug ..).mp hn).2
  cases m with
  | node d cs =>
    have hok := ((RoseTree.each_node ..).mp hm).1
    unfold Node.leafSplit
    rw [RoseTree.label_node]
    cases ht : d.type with
    | split => exact (if_pos rfl).symm
    | emptyRoot => exact (hok.emptyRoot ht).2.2
    | verticalContainer => exact (hok.container (.inl ht)).2
    | horizontalContainer => exact (hok.container (.inr ht)).2

theorem view_eq_iff (h : Heap QUuid) {n : Node} (hn : EachOk none n) :
    view (h.reopened app) n = view h n ↔
      ∀ x ∈ n.leafSplits, RestorableSplit app (h.splits x) := by
  unfold view
  rw [RoseTree.map_eq_map_iff]
  constructor
  · intro heq x hx
    obtain ⟨d, hd, hleaf⟩ := List.mem_filterMap.mp hx
    rw [← split_eq_leafSplit hn hd] at hleaf
    have hsplit := congrArg LayoutData.split (heq d hd)
    simp only [Heap.data, hleaf, Option.map_some] at hsplit
    exact (reopened_iff app _).mp (Option.some.inj hsplit)
  · intro hall d hd
    unfold Heap.data
    congr 1
    cases hsplit : d.split with
    | none => rfl
    | some x =>
      have hx : x ∈ n.leafSplits :=
        List.mem_filterMap.mpr ⟨d, hd, (split_eq_leafSplit hn hd).symm.trans hsplit⟩
      exact congrArg some ((reopened_iff app _).mpr (hall x hx))

theorem sameLayout_iff (h : Heap QUuid) {n : Node} {n' : LayoutNode QUuid}
    (hn' : SameLayout (view (h.reopened app) n) n') :
    SameLayout (view h n) n' ↔ view (h.reopened app) n = view h n := by
  constructor
  · intro hsame
    cases n with
    | node d cs =>
      have htype := hn'.type.symm.trans hsame.type
      have hsplit := hn'.split.symm.trans hsame.split
      have hchildren := hn'.children.symm.trans hsame.children
      unfold view at *
      rw [RoseTree.map_node, RoseTree.map_node] at *
      unfold Heap.data at *
      simp only [RoseTree.label_node, RoseTree.children_node] at *
      rw [hsplit, hchildren]
      rfl
  · intro heq
    rwa [heq] at hn'

/--
**Saved layouts.** A container that is saved is restored without a failed assertion, with the same
orientations, splits and flex factors in the same places, exactly if the channel of every split is
one that is found again and its filters still exist.
-/
theorem restored_iff {b : Block} {ops : List SplitContainer.Op} {s : SplitContainer}
    (hrun : Run SplitContainer.Step (SplitContainer.new b) ops s) (h : Heap QUuid) :
    ∃ n', restored format app (view h s.baseNode) = some n' ∧
      (SameLayout (view h s.baseNode) n' ↔ ∀ x ∈ s.splits, RestorableSplit app (h.splits x)) := by
  have hs := SplitContainer.run_wellFormed hrun
  obtain ⟨n', hrestored, hsame⟩ := restored_root format app h hs.tree.each
  refine ⟨n', hrestored, ?_⟩
  rw [sameLayout_iff app h hsame, view_eq_iff app h hs.tree.each]
  exact forall_congr' fun x => imp_congr_left hs.leaves.mem_iff

end Trees

/-! ### Two containers -/

/-- One filter id. -/
def oneUuid : UuidFormat Unit where
  toString _ := "67c8770b-44f1-410a-ab9a-f9b5446f13ee".toList
  fromString _ := ()
  fromString_toString _ := rfl

/-- No Twitch channel yet, one IRC server, and the filter. The lower case is that of lower case. -/
def oneServer : App Unit where
  lowerCase :=
    { lower := fun c => [c]
      idem := fun _ => rfl
      hash := fun c => by rw [List.count_singleton]; simp }
  twitchChannels := []
  ircServers id := if id = 1 then some [] else none
  filterRecords := [()]

/-- A Twitch channel with the filter, and an IRC channel beside it. -/
theorem restored_iff_twitch : ∃ s n', Run SplitContainer.Step (SplitContainer.new ⟨0, none⟩)
      [.insertSplit 1 .right none ⟨1, none⟩ ⟨2, none⟩,
        .insertSplitNextTo 2 .right 1 ⟨3, none⟩ ⟨4, none⟩] s ∧
    let h : Heap Unit :=
      { splits := fun x =>
          if x = 1 then { channel := .twitch "forsen".toList, filters := {()}, moderationMode := true }
          else { channel := .irc (some 1) "linux".toList, filters := ∅, moderationMode := false }
        flexH := fun a => .finite a
        flexV := fun _ => one }
    restored oneUuid oneServer (view h s.baseNode) = some n' ∧ SameLayout (view h s.baseNode) n' := by
  let ops : List SplitContainer.Op := [.insertSplit 1 .right none ⟨1, none⟩ ⟨2, none⟩,
    .insertSplitNextTo 2 .right 1 ⟨3, none⟩ ⟨4, none⟩]
  have hsplits : (ops.foldlM SplitContainer.check (SplitContainer.new ⟨0, none⟩)).map
      SplitContainer.splits = some [1, 2] := by decide
  obtain ⟨s, hs, hsplits⟩ := Option.map_eq_some_iff.mp hsplits
  have hrun := Run.of_foldlM SplitContainer.step_of_check hs
  obtain ⟨n', hn', hiff⟩ := restored_iff oneUuid oneServer hrun
    { splits := fun x =>
        if x = 1 then { channel := .twitch "forsen".toList, filters := {()}, moderationMode := true }
        else { channel := .irc (some 1) "linux".toList, filters := ∅, moderationMode := false }
      flexH := fun a => .finite a
      flexV := fun _ => one }
  refine ⟨s, n', hrun, hn', hiff.mpr ?_⟩
  rw [hsplits]
  intro x hx
  rcases List.mem_cons.mp hx with rfl | hx
  · exact ⟨⟨by decide, by decide⟩, by decide⟩
  · obtain rfl := List.mem_singleton.mp hx
    exact ⟨⟨by decide, by decide⟩, by decide⟩

/-- The IRC channel `##linux` of a server is called `#linux`, and is `linux` when it is restored. -/
theorem irc_channel_lost : ∃ s n', Run SplitContainer.Step (SplitContainer.new ⟨0, none⟩)
      [.insertSplit 1 .right none ⟨1, none⟩ ⟨2, none⟩] s ∧
    getOrAddIrcChannel oneServer 1 "##linux".toList = .irc (some 1) "#linux".toList ∧
    let h : Heap Unit :=
      { splits := fun _ =>
          { channel := .irc (some 1) "#linux".toList, filters := ∅, moderationMode := false }
        flexH := fun _ => one
        flexV := fun _ => one }
    restored oneUuid oneServer (view h s.baseNode) = some n' ∧
      n'.label.split.map SplitState.channel = some (.irc (some 1) "linux".toList) ∧
      ¬ SameLayout (view h s.baseNode) n' := by
  let ops : List SplitContainer.Op := [.insertSplit 1 .right none ⟨1, none⟩ ⟨2, none⟩]
  have hbase : (ops.foldlM SplitContainer.check (SplitContainer.new ⟨0, none⟩)).map
      (fun s => s.baseNode.label.split) = some (some 1) := by decide
  obtain ⟨s, hs, hsplit⟩ := Option.map_eq_some_iff.mp hbase
  have hrun := Run.of_foldlM SplitContainer.step_of_check hs
  let h : Heap Unit :=
    { splits := fun _ =>
        { channel := .irc (some 1) "#linux".toList, filters := ∅, moderationMode := false }
      flexH := fun _ => one
      flexV := fun _ => one }
  have hnode := (SplitContainer.run_wellFormed hrun).tree.each
  obtain ⟨n', hn', hsame⟩ := restored_root oneUuid oneServer h hnode
  have hview : ∀ g : Heap Unit, (view g s.baseNode).label.split = some (g.splits 1) := by
    intro g
    obtain ⟨root, selected, splits⟩ := s
    cases root
    simp only [RoseTree.label_node] at hsplit
    unfold view
    simp only [RoseTree.map_node, RoseTree.label_node, Heap.data, hsplit, Option.map_some]
  have hchannel : n'.label.split.map SplitState.channel = some (.irc (some 1) "linux".toList) := by
    rw [hsame.split, hview]
    rfl
  refine ⟨s, n', hrun, by decide, hn', hchannel, ?_⟩
  intro hlost
  rw [hlost.split, hview] at hchannel
  exact absurd hchannel (by decide)

end Dankerino
