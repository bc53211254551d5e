import Dankerino.Infra.Run
import Dankerino.Seventv.Emotes

/-!
# Live updates against the emote set

The reference is the emote set of the channel: each emote and each name is in it at most once. Live
events change it (`EmoteSet.put`, `EmoteSet.drop`), and `Converged` says that the map of the channel
is what loading that set with an empty cache gives.

Three things break this. The comparison of emotes leaves out `zeroWidth`, so the cache hands out an
emote whose attribute is old (`Stale`). `addEmote` knows emotes by their name only: one that is in
the set under another name is there twice afterwards. And `loadChannel` leaves the map as it is when
the set has become empty. A run keeps the map converged exactly if none of them happens
(`run_converged_iff`).
-/

namespace Dankerino

open Infra

/-! ## The emote set -/

/-- An emote set: neither an emote nor a name occurs twice. -/
structure EmoteSet where
  emotes : List EmoteJson
  ids : (emotes.map EmoteJson.id).Nodup
  names : (emotes.map EmoteJson.name).Nodup

namespace EmoteSet

def empty : EmoteSet := ⟨[], List.nodup_nil, List.nodup_nil⟩

def find (set : EmoteSet) (name : QString) : Option EmoteJson :=
  set.emotes.find? fun e => e.name == name

def findId (set : EmoteSet) (id : QString) : Option EmoteJson :=
  set.emotes.find? fun e => e.id == id

/-- The emote is now in the set with this name, and nothing else has its id or its name. -/
def put (set : EmoteSet) (e : EmoteJson) : EmoteSet where
  emotes := set.emotes.filter (fun x => x.id != e.id && x.name != e.name) ++ [e]
  ids := by
    rw [List.map_append]
    refine List.nodup_append.mpr ⟨set.ids.sublist (List.filter_sublist.map _), List.nodup_singleton _, ?_⟩
    intro a ha b hb
    obtain ⟨x, hx, rfl⟩ := List.mem_map.mp ha
    have hne := (List.mem_filter.mp hx).2
    rw [List.mem_singleton.mp hb]
    simp only [Bool.and_eq_true, bne_iff_ne] at hne
    exact hne.1
  names := by
    rw [List.map_append]
    refine List.nodup_append.mpr ⟨set.names.sublist (List.filter_sublist.map _), List.nodup_singleton _, ?_⟩
    intro a ha b hb
    obtain ⟨x, hx, rfl⟩ := List.mem_map.mp ha
    have hne := (List.mem_filter.mp hx).2
    rw [List.mem_singleton.mp hb]
    simp only [Bool.and_eq_true, bne_iff_ne] at hne
    exact hne.2

/-- Nothing has the name any more. -/
def drop (set : EmoteSet) (name : QString) : EmoteSet where
  emotes := set.emotes.filter fun x => x.name != name
  ids := set.ids.sublist (List.filter_sublist.map _)
  names := set.names.sublist (List.filter_sublist.map _)

theorem find_eq_some {set : EmoteSet} {name : QString} {e : EmoteJson} :
    set.find name = some e ↔ e ∈ set.emotes ∧ e.name = name := by
  constructor
  · intro h
    have hname := List.find?_some h
    exact ⟨List.mem_of_find?_eq_some h, beq_iff_eq.mp hname⟩
  · rintro ⟨hmem, rfl⟩
    unfold find
    cases h : set.emotes.find? fun x => x.name == e.name with
    | none =>
      have hall := List.find?_eq_none.mp h e hmem
      simp at hall
    | some x =>
      have hfound := List.find?_some h
      have hname : x.name = e.name := beq_iff_eq.mp hfound
      rw [List.inj_on_of_nodup_map set.names (List.mem_of_find?_eq_some h) hmem hname]

theorem findId_eq_some {set : EmoteSet} {id : QString} {e : EmoteJson} :
    set.findId id = some e ↔ e ∈ set.emotes ∧ e.id = id := by
  constructor
  · intro h
    have hid := List.find?_some h
    exact ⟨List.mem_of_find?_eq_some h, beq_iff_eq.mp hid⟩
  · rintro ⟨hmem, rfl⟩
    unfold findId
    cases h : set.emotes.find? fun x => x.id == e.id with
    | none =>
      have hall := List.find?_eq_none.mp h e hmem
      simp at hall
    | some x =>
      have hfound := List.find?_some h
      have hid : x.id = e.id := beq_iff_eq.mp hfound
      rw [List.inj_on_of_nodup_map set.ids (List.mem_of_find?_eq_some h) hmem hid]

theorem mem_put {set : EmoteSet} {e x : EmoteJson} :
    x ∈ (set.put e).emotes ↔ x ∈ set.emotes ∧ x.id ≠ e.id ∧ x.name ≠ e.name ∨ x = e := by
  simp [put]

theorem mem_drop {set : EmoteSet} {name : QString} {x : EmoteJson} :
    x ∈ (set.drop name).emotes ↔ x ∈ set.emotes ∧ x.name ≠ name := by
  simp [drop]

theorem find_put_self (set : EmoteSet) (e : EmoteJson) : (set.put e).find e.name = some e :=
  find_eq_some.mpr ⟨mem_put.mpr (Or.inr rfl), rfl⟩

theorem find_put_of_ne {set : EmoteSet} {e : EmoteJson} {name : QString} (h : name ≠ e.name) :
    (set.put e).find name = (set.find name).filter fun x => x.id != e.id := by
  refine Option.ext fun x => ?_
  rw [find_eq_some, mem_put, Option.filter_eq_some_iff, find_eq_some, bne_iff_ne]
  constructor
  · rintro ⟨⟨hmem, hid, -⟩ | rfl, hname⟩
    · exact ⟨⟨hmem, hname⟩, hid⟩
    · exact absurd hname.symm h
  · rintro ⟨⟨hmem, rfl⟩, hid⟩
    exact ⟨Or.inl ⟨hmem, hid, h⟩, rfl⟩

theorem find_drop (set : EmoteSet) (name name' : QString) :
    (set.drop name).find name' = if name' = name then none else set.find name' := by
  refine Option.ext fun x => ?_
  rw [find_eq_some, mem_drop]
  by_cases h : name' = name
  · rw [if_pos h]
    constructor
    · rintro ⟨⟨-, hne⟩, hname⟩
      exact absurd (hname.trans h) hne
    · exact fun hx => nomatch hx
  · rw [if_neg h, find_eq_some]
    constructor
    · rintro ⟨⟨hmem, -⟩, hname⟩
      exact ⟨hmem, hname⟩
    · rintro ⟨hmem, rfl⟩
      exact ⟨⟨hmem, h⟩, rfl⟩

end EmoteSet

namespace SeventvEmotes

/-! ## Emotes and the cache -/

/-- What an emote looks like when nothing is cached. -/
def fresh (e : EmoteJson) : Emote := createEmote e false

/-- What the cache hands out for an emote. -/
def given (cache : EmoteCache) (e : EmoteJson) : Emote := (cachedOrMakeEmotePtr (fresh e) cache e.id).1

/-- A cached emote that passes for the new one but has another attribute. -/
def Stale (cache : EmoteCache) (e : EmoteJson) : Prop :=
  ∃ shared, cache.lookup e.id = some shared ∧ shared.same (fresh e) = true ∧
    shared.zeroWidth ≠ (fresh e).zeroWidth

theorem same_eq {a b : Emote} (h : a.same b = true) : a = { b with zeroWidth := a.zeroWidth } := by
  obtain ⟨an, ai, at', ah, az⟩ := a
  obtain ⟨bn, bi, bt, bh, bz⟩ := b
  simp only [Emote.same, Bool.and_eq_true, beq_iff_eq] at h
  obtain ⟨⟨⟨rfl, rfl⟩, rfl⟩, rfl⟩ := h
  rfl

theorem given_eq (cache : EmoteCache) (e : EmoteJson) : given cache e =
    ((cache.lookup e.id).filter fun shared => shared.same (fresh e)).getD (fresh e) := by
  unfold given cachedOrMakeEmotePtr
  cases cache.lookup e.id with
  | none => rfl
  | some shared =>
    rw [Option.filter_some]
    simp only []
    split <;> rfl

/-- The cache hands out the right emote unless its own is stale. -/
theorem given_eq_iff (cache : EmoteCache) (e : EmoteJson) : given cache e = fresh e ↔ ¬ Stale cache e := by
  rw [given_eq]
  unfold Stale
  cases hc : cache.lookup e.id with
  | none => simp
  | some shared =>
    by_cases hsame : shared.same (fresh e) = true
    · rw [Option.filter_some, if_pos hsame]
      have heq := same_eq hsame
      constructor
      · rintro (h : shared = fresh e) ⟨_, hshared, -, hne⟩
        cases hshared
        exact hne (congrArg Emote.zeroWidth h)
      · intro hns
        have hzero : shared.zeroWidth = (fresh e).zeroWidth := by
          by_contra hne
          exact hns ⟨shared, rfl, hsame, hne⟩
        show shared = fresh e
        rw [heq, hzero]
    · rw [Option.filter_some, if_neg hsame]
      refine ⟨fun _ => ?_, fun _ => rfl⟩
      rintro ⟨_, hshared, h, -⟩
      cases hshared
      exact hsame h

/-- The cache changes at one id only. -/
theorem cache_lookup_of_ne {cache : EmoteCache} {emote : Emote} {id id' : QString} (h : id' ≠ id) :
    (cachedOrMakeEmotePtr emote cache id).2.lookup id' = cache.lookup id' := by
  unfold cachedOrMakeEmotePtr
  split
  · split
    · rfl
    · exact AList.lookup_insert_ne h
  · exact AList.lookup_insert_ne h

theorem given_of_ne {cache : EmoteCache} {emote : Emote} {id : QString} {e : EmoteJson} (h : e.id ≠ id) :
    given (cachedOrMakeEmotePtr emote cache id).2 e = given cache e := by
  rw [given_eq, given_eq, cache_lookup_of_ne h]

/-! ## Loading -/

/-- 7TV ids all have the length of an object id. -/
def idLength : Nat := 24

/-- A well-formed and visible emote. -/
structure Proper (showUnlistedEmotes : Bool) (e : EmoteJson) : Prop where
  id : e.id.length = idLength
  visible : checkEmoteVisibility showUnlistedEmotes e = true

theorem parseChannelEmotesLoop_lookup {showUnlistedEmotes : Bool} (name : QString) :
    ∀ (emotes : List EmoteJson) (map : EmoteMap) (cache : EmoteCache),
    (∀ e ∈ emotes, checkEmoteVisibility showUnlistedEmotes e = true) →
    (emotes.map EmoteJson.id).Nodup → (emotes.map EmoteJson.name).Nodup →
    (parseChannelEmotesLoop showUnlistedEmotes emotes map cache).1.lookup name
      = ((emotes.find? fun e => e.name == name).map (given cache)).or (map.lookup name)
  | [], _, _, _, _, _ => rfl
  | e :: rest, map, cache, hvis, hids, hnames => by
    rw [List.map_cons, List.nodup_cons] at hids hnames
    unfold parseChannelEmotesLoop
    rw [if_pos (hvis e List.mem_cons_self)]
    simp only []
    rw [parseChannelEmotesLoop_lookup name rest _ _ (fun x hx => hvis x (List.mem_cons_of_mem _ hx))
      hids.2 hnames.2]
    -- the rest has other ids, so the cache gives what it gave before
    have hgiven : ∀ x ∈ rest,
        given (cachedOrMakeEmotePtr (createEmote e false) cache e.id).2 x = given cache x :=
      fun x hx => given_of_ne fun he => hids.1 (List.mem_map.mpr ⟨x, hx, he⟩)
    have hmap : (rest.find? fun x => x.name == name).map
        (given (cachedOrMakeEmotePtr (createEmote e false) cache e.id).2)
        = (rest.find? fun x => x.name == name).map (given cache) := by
      cases h : rest.find? fun x => x.name == name with
      | none => rfl
      | some x => exact congrArg some (hgiven x (List.mem_of_find?_eq_some h))
    rw [hmap]
    by_cases hname : e.name = name
    · subst hname
      have hnone : (rest.find? fun x => x.name == e.name) = none :=
        List.find?_eq_none.mpr fun x hx hx' =>
          hnames.1 (List.mem_map.mpr ⟨x, hx, beq_iff_eq.mp hx'⟩)
      rw [hnone, List.find?_cons_of_pos (by simp), AList.lookup_insert]
      rfl
    · rw [List.find?_cons_of_neg (by simpa using hname), AList.lookup_insert_ne (Ne.symm hname)]

/-- What loading an emote set gives. -/
theorem parseChannelEmotes_lookup {showUnlistedEmotes : Bool} (set : EmoteSet) (cache : EmoteCache)
    (h : ∀ e ∈ set.emotes, Proper showUnlistedEmotes e) (name : QString) :
    (parseChannelEmotes showUnlistedEmotes set.emotes cache).1.lookup name
      = (set.find name).map (given cache) := by
  unfold parseChannelEmotes
  rw [parseChannelEmotesLoop_lookup name _ _ _ (fun e he => (h e he).visible) set.ids set.names]
  exact Option.or_none

/-! ## Finding the emote to update -/

theorem endsWith_iff {x e : EmoteJson} (hx : x.id.length = idLength) (he : e.id.length = idLength) :
    (fresh x).homePage.endsWith e.id = true ↔ x.id = e.id := by
  have hends : (fresh x).homePage.endsWith e.id = true ↔ e.id <:+ emoteLink x.id :=
    List.isSuffixOf_iff_suffix
  have hown : x.id <:+ emoteLink x.id := List.suffix_append _ _
  rw [hends]
  constructor
  · intro h
    have hle : e.id.length ≤ x.id.length := by omega
    exact ((List.suffix_of_suffix_length_le h hown hle).eq_of_length (by omega)).symm
  · intro h
    rw [← h]
    exact hown

/-- The map shows the set. -/
def Shows (s : State) (set : EmoteSet) : Prop := ∀ name, s.map.lookup name = (set.find name).map fresh

theorem eq_of_endsWith {s : State} {set : EmoteSet} (hshows : Shows s set)
    (hset : ∀ x ∈ set.emotes, x.id.length = idLength) {e : EmoteJson} (he : e.id.length = idLength)
    {name : QString} {v : Emote} (hv : s.map.lookup name = some v)
    (hends : v.homePage.endsWith e.id = true) : ∃ x, set.findId e.id = some x ∧ v = fresh x := by
  rw [hshows name] at hv
  obtain ⟨x, hx, rfl⟩ := Option.map_eq_some_iff.mp hv
  have hmem := (EmoteSet.find_eq_some.mp hx).1
  exact ⟨x, EmoteSet.findId_eq_some.mpr ⟨hmem, (endsWith_iff (hset x hmem) he).mp hends⟩, rfl⟩

/-- Whichever step finds it, it is the emote of the set with that id. -/
theorem findEmote_eq {s : State} {set : EmoteSet} (hshows : Shows s set)
    (hset : ∀ x ∈ set.emotes, x.id.length = idLength) {e : EmoteJson} (he : e.id.length = idLength)
    (baseName : QString) : findEmote s baseName e = (set.findId e.id).map fresh := by
  cases hfound : findEmote s baseName e with
  | some v =>
    have hv : ∃ name, s.map.lookup name = some v ∧ v.homePage.endsWith e.id = true := by
      unfold findEmote at hfound
      rw [Option.or_eq_some_iff, Option.or_eq_some_iff] at hfound
      rcases hfound with h | ⟨-, h | ⟨-, h⟩⟩
      · exact ⟨baseName, Option.filter_eq_some_iff.mp h⟩
      · obtain ⟨h, hends⟩ := Option.filter_eq_some_iff.mp h
        obtain ⟨shared, -, hlookup⟩ := Option.bind_eq_some_iff.mp h
        exact ⟨shared.name, hlookup, hends⟩
      · obtain ⟨p, hp, rfl⟩ := List.mem_map.mp (List.mem_of_find?_eq_some h)
        have hends := List.find?_some h
        exact ⟨p.1, AList.mem_lookup_iff.mpr hp, hends⟩
    obtain ⟨name, hlookup, hends⟩ := hv
    obtain ⟨x, hx, rfl⟩ := eq_of_endsWith hshows hset he hlookup hends
    rw [hx]
    rfl
  | none =>
    cases hid : set.findId e.id with
    | none => rfl
    | some x =>
      -- the last step looks at every emote
      obtain ⟨hmem, hx⟩ := EmoteSet.findId_eq_some.mp hid
      have hlookup : s.map.lookup x.name = some (fresh x) := by
        rw [hshows, EmoteSet.find_eq_some.mpr ⟨hmem, rfl⟩]
        rfl
      unfold findEmote at hfound
      rw [Option.or_eq_none_iff, Option.or_eq_none_iff] at hfound
      have hall := List.find?_eq_none.mp hfound.2.2 (fresh x)
        (List.mem_map.mpr ⟨⟨x.name, fresh x⟩, AList.mem_lookup_iff.mp hlookup, rfl⟩)
      exact absurd ((endsWith_iff (hset x hmem) he).mpr hx) hall

/-! ## Steps -/

/-- What can happen to the emotes of a channel and to the cache. -/
inductive Event
  /-- The emotes of the channel are loaded. -/
  | load (set : EmoteSet)
  | add (emoteJson : EmoteJson)
  | update (emoteBaseName : QString) (emoteJson : EmoteJson)
  | remove (emoteName : QString)
  /-- Another channel makes an emote. -/
  | elsewhere (emoteJson : EmoteJson)
  /-- The last pointer to a cached emote goes away. -/
  | expire (id : QString)

def apply (showUnlistedEmotes : Bool) (s : State) : Event → State
  | .load set =>
    let (map, cache) := parseChannelEmotes showUnlistedEmotes set.emotes s.cache
    -- `loadChannel` calls its callback only with a map that is not empty
    if map.entries.isEmpty then { s with cache } else { map, cache }
  | .add emoteJson => (addEmote showUnlistedEmotes s emoteJson).2
  | .update emoteBaseName emoteJson => (updateEmote s emoteBaseName emoteJson).2
  | .remove emoteName => (removeEmote s emoteName).2
  | .elsewhere emoteJson =>
    { s with cache := (cachedOrMakeEmotePtr (createEmote emoteJson false) s.cache emoteJson.id).2 }
  | .expire id => { s with cache := s.cache.erase id }

/-- The same events on the emote set. An update of an emote that is not in the set is ignored. -/
def applySet (set : EmoteSet) : Event → EmoteSet
  | .load set' => set'
  | .add emoteJson => set.put emoteJson
  | .update _ emoteJson =>
    match set.findId emoteJson.id with
    | none => set
    | some _ => set.put emoteJson
  | .remove emoteName => set.drop emoteName
  | .elsewhere _ => set
  | .expire _ => set

/-- The emotes of the event are well-formed and visible. -/
def ProperEvent (showUnlistedEmotes : Bool) : Event → Prop
  | .load set => ∀ e ∈ set.emotes, Proper showUnlistedEmotes e
  | .add emoteJson => Proper showUnlistedEmotes emoteJson
  | .update _ emoteJson => Proper showUnlistedEmotes emoteJson
  | _ => True

/-- A step of the channel beside the step of its emote set. -/
def LiveStep (showUnlistedEmotes : Bool) (t : State × EmoteSet) (e : Event) (t' : State × EmoteSet) :
    Prop :=
  ProperEvent showUnlistedEmotes e ∧ t' = (apply showUnlistedEmotes t.1 e, applySet t.2 e)

/-- The map is what loading the set from scratch gives. -/
def Converged (showUnlistedEmotes : Bool) (t : State × EmoteSet) : Prop :=
  ∀ name, t.1.map.lookup name = (parseChannelEmotes showUnlistedEmotes t.2.emotes ∅).1.lookup name

/--
The event meets no stale emote, adds no emote that is there under another name, and does not load an
empty set where there were emotes.
-/
def Steady (t : State × EmoteSet) : Event → Prop
  | .load set => (∀ e ∈ set.emotes, ¬ Stale t.1.cache e) ∧ (set.emotes = [] → t.2.emotes = [])
  | .add emoteJson => ¬ Stale t.1.cache emoteJson ∧
      ∀ x ∈ t.2.emotes, x.id = emoteJson.id → x.name = emoteJson.name
  | .update _ emoteJson => (t.2.findId emoteJson.id).isSome → ¬ Stale t.1.cache emoteJson
  | _ => True

/-- The emotes of the set are well-formed and visible. -/
def ProperSet (showUnlistedEmotes : Bool) (t : State × EmoteSet) : Prop :=
  ∀ e ∈ t.2.emotes, Proper showUnlistedEmotes e

section

variable {showUnlistedEmotes : Bool}

theorem converged_iff {s : State} {set : EmoteSet} (h : ProperSet showUnlistedEmotes (s, set)) :
    Converged showUnlistedEmotes (s, set) ↔ Shows s set := by
  unfold Converged Shows
  refine forall_congr' fun name => ?_
  rw [show (parseChannelEmotes showUnlistedEmotes (s, set).2.emotes ∅).1.lookup name = _ from
    parseChannelEmotes_lookup set ∅ h name]
  rfl

theorem liveStep_proper (t : State × EmoteSet) (e : Event) (t' : State × EmoteSet)
    (ht : ProperSet showUnlistedEmotes t) (h : LiveStep showUnlistedEmotes t e t') :
    ProperSet showUnlistedEmotes t' := by
  obtain ⟨hproper, rfl⟩ := h
  have hput : ∀ e, Proper showUnlistedEmotes e → ∀ x ∈ (t.2.put e).emotes, Proper showUnlistedEmotes x := by
    intro e he x hx
    rcases EmoteSet.mem_put.mp hx with ⟨hx, -⟩ | rfl
    · exact ht x hx
    · exact he
  cases e with
  | load set => exact hproper
  | add emoteJson => exact hput emoteJson hproper
  | update emoteBaseName emoteJson =>
    unfold ProperSet applySet
    simp only []
    split
    · exact ht
    · exact hput emoteJson hproper
  | remove emoteName => exact fun x hx => ht x (EmoteSet.mem_drop.mp hx).1
  | elsewhere emoteJson => exact ht
  | expire id => exact ht

/-- When writing an emote to the map shows the emote put into the set. -/
theorem shows_put_iff {map : EmoteMap} {cache cache' : EmoteCache} {set : EmoteSet} {e : EmoteJson} :
    Shows { map := map.insert e.name (given cache e), cache := cache' } (set.put e) ↔
      ¬ Stale cache e ∧ ∀ name, name ≠ e.name →
        map.lookup name = ((set.find name).filter fun x => x.id != e.id).map fresh := by
  have hself : (map.insert e.name (given cache e)).lookup e.name = ((set.put e).find e.name).map fresh ↔
      ¬ Stale cache e := by
    rw [AList.lookup_insert, EmoteSet.find_put_self, ← given_eq_iff]
    exact Option.some_inj
  have hother : ∀ name, name ≠ e.name →
      ((map.insert e.name (given cache e)).lookup name = ((set.put e).find name).map fresh ↔
        map.lookup name = ((set.find name).filter fun x => x.id != e.id).map fresh) := by
    intro name hne
    rw [AList.lookup_insert_ne hne, EmoteSet.find_put_of_ne hne]
  constructor
  · intro h
    exact ⟨hself.mp (h e.name), fun name hne => (hother name hne).mp (h name)⟩
  · rintro ⟨hstale, hrest⟩ name
    by_cases hne : name = e.name
    · subst hne
      exact hself.mpr hstale
    · exact (hother name hne).mpr (hrest name hne)

theorem parseChannelEmotes_isEmpty_iff {set : EmoteSet} (cache : EmoteCache)
    (h : ∀ e ∈ set.emotes, Proper showUnlistedEmotes e) :
    (parseChannelEmotes showUnlistedEmotes set.emotes cache).1.entries.isEmpty = true ↔
      set.emotes = [] := by
  constructor
  · intro hempty
    refine List.eq_nil_iff_forall_not_mem.mpr fun e he => ?_
    have hlookup := parseChannelEmotes_lookup set cache h e.name
    rw [EmoteSet.find_eq_some.mpr ⟨he, rfl⟩] at hlookup
    have hmem := AList.mem_lookup_iff.mp hlookup
    rw [List.isEmpty_iff.mp hempty] at hmem
    exact absurd hmem List.not_mem_nil
  · intro hnil
    rw [hnil]
    rfl

/-- Nothing is shown of a set without emotes. -/
theorem shows_nil_iff {s : State} {set set' : EmoteSet} (hshows : Shows s set)
    (hnil : set'.emotes = []) : Shows s set' ↔ set.emotes = [] := by
  have hfind : ∀ name, set'.find name = none := by
    intro name
    unfold EmoteSet.find
    rw [hnil]
    rfl
  constructor
  · intro h
    refine List.eq_nil_iff_forall_not_mem.mpr fun e he => ?_
    have hname := h e.name
    rw [hshows, hfind, EmoteSet.find_eq_some.mpr ⟨he, rfl⟩] at hname
    exact nomatch hname
  · intro h name
    have hnone : set.find name = none := by
      unfold EmoteSet.find
      rw [h]
      rfl
    rw [hshows, hfind, hnone]

theorem shows_load_iff {s : State} {set set' : EmoteSet} (hshows : Shows s set)
    (h : ∀ e ∈ set'.emotes, Proper showUnlistedEmotes e) :
    Shows (apply showUnlistedEmotes s (.load set')) set' ↔
      (∀ e ∈ set'.emotes, ¬ Stale s.cache e) ∧ (set'.emotes = [] → set.emotes = []) := by
  have hempty := parseChannelEmotes_isEmpty_iff s.cache h
  unfold apply
  simp only []
  by_cases hnil : set'.emotes = []
  · -- the callback is not called
    rw [if_pos (hempty.mpr hnil)]
    have hkept : Shows { s with cache := (parseChannelEmotes showUnlistedEmotes set'.emotes s.cache).2 } set' ↔
        set.emotes = [] := shows_nil_iff hshows hnil
    rw [hkept]
    constructor
    · intro h
      refine ⟨fun e he => ?_, fun _ => h⟩
      rw [hnil] at he
      exact absurd he List.not_mem_nil
    · intro h
      exact h.2 hnil
  · rw [if_neg fun h => hnil (hempty.mp h)]
    constructor
    · intro hload
      refine ⟨fun e he => ?_, fun h => absurd h hnil⟩
      have hname := hload e.name
      rw [parseChannelEmotes_lookup set' s.cache h, EmoteSet.find_eq_some.mpr ⟨he, rfl⟩] at hname
      exact (given_eq_iff _ e).mp (Option.some.inj hname)
    · rintro ⟨hstale, -⟩ name
      rw [parseChannelEmotes_lookup set' s.cache h]
      cases hfind : set'.find name with
      | none => rfl
      | some x =>
        exact congrArg some ((given_eq_iff _ x).mpr (hstale x (EmoteSet.find_eq_some.mp hfind).1))

/-- An emote is in the set at most once, so the filter only takes out the emote itself. -/
theorem shows_add_iff {s : State} {set : EmoteSet} {e : EmoteJson} (hshows : Shows s set) :
    (∀ name, name ≠ e.name →
        s.map.lookup name = ((set.find name).filter fun x => x.id != e.id).map fresh) ↔
      ∀ x ∈ set.emotes, x.id = e.id → x.name = e.name := by
  constructor
  · intro hrest x hx hid
    by_contra hne
    have hlookup := hrest x.name hne
    rw [hshows, EmoteSet.find_eq_some.mpr ⟨hx, rfl⟩, Option.filter_some] at hlookup
    simp [hid] at hlookup
  · intro honly name hne
    rw [hshows]
    cases hfind : set.find name with
    | none => rfl
    | some x =>
      obtain ⟨hx, rfl⟩ := EmoteSet.find_eq_some.mp hfind
      have hid : x.id ≠ e.id := fun hid => hne (honly x hx hid)
      rw [Option.filter_some, if_pos (by simpa using hid)]

/-- Erasing the name of the emote leaves what is not the emote. -/
theorem erase_lookup {s : State} {set : EmoteSet} {x : EmoteJson} (hshows : Shows s set)
    (hx : x ∈ set.emotes) (name : QString) :
    (s.map.erase x.name).lookup name = ((set.find name).filter fun y => y.id != x.id).map fresh := by
  by_cases hname : name = x.name
  · subst hname
    rw [AList.lookup_erase, EmoteSet.find_eq_some.mpr ⟨hx, rfl⟩, Option.filter_some]
    simp
  · rw [AList.lookup_erase_ne hname, hshows]
    cases hfind : set.find name with
    | none => rfl
    | some y =>
      obtain ⟨hy, rfl⟩ := EmoteSet.find_eq_some.mp hfind
      have hid : y.id ≠ x.id := by
        intro hid
        exact hname (congrArg EmoteJson.name (List.inj_on_of_nodup_map set.ids hy hx hid))
      rw [Option.filter_some, if_pos (by simpa using hid)]

/-- **One step** keeps the map converged exactly if the event is steady. -/
theorem liveStep_converged (t : State × EmoteSet) (e : Event) (t' : State × EmoteSet)
    (ht : ProperSet showUnlistedEmotes t) (hc : Converged showUnlistedEmotes t)
    (h : LiveStep showUnlistedEmotes t e t') : Converged showUnlistedEmotes t' ↔ Steady t e := by
  have ht' := liveStep_proper t e t' ht h
  obtain ⟨s, set⟩ := t
  obtain ⟨hproper, rfl⟩ := h
  have hshows : Shows s set := (converged_iff ht).mp hc
  rw [converged_iff ht']
  cases e with
  | load set' => exact shows_load_iff hshows hproper
  | add emoteJson =>
    have hadd : apply showUnlistedEmotes s (.add emoteJson) = {
        map := s.map.insert emoteJson.name (given s.cache emoteJson)
        cache := (cachedOrMakeEmotePtr (fresh emoteJson) s.cache emoteJson.id).2 } := by
      unfold apply addEmote
      simp only [hproper.visible, if_true]
      rfl
    show Shows (apply showUnlistedEmotes s (.add emoteJson)) (set.put emoteJson) ↔ _
    rw [hadd, shows_put_iff, shows_add_iff hshows]
    rfl
  | update emoteBaseName emoteJson =>
    have hfound := findEmote_eq hshows (fun x hx => (ht x hx).id) hproper.id emoteBaseName
    cases hid : set.findId emoteJson.id with
    | none =>
      rw [hid] at hfound
      have hsame : Shows (apply showUnlistedEmotes s (.update emoteBaseName emoteJson))
          (applySet set (.update emoteBaseName emoteJson)) := by
        simp only [apply, applySet, updateEmote, hid, hfound]
        exact hshows
      refine ⟨fun _ => ?_, fun _ => hsame⟩
      simp [Steady, hid]
    | some x =>
      obtain ⟨hx, hxid⟩ := EmoteSet.findId_eq_some.mp hid
      rw [hid] at hfound
      have hupdate : apply showUnlistedEmotes s (.update emoteBaseName emoteJson) = {
          map := (s.map.erase x.name).insert emoteJson.name (given s.cache emoteJson)
          cache := (cachedOrMakeEmotePtr (fresh emoteJson) s.cache emoteJson.id).2 } := by
        simp only [apply, updateEmote, hfound]
        rfl
      have hset : applySet set (.update emoteBaseName emoteJson) = set.put emoteJson := by
        simp only [applySet, hid]
      show Shows (apply showUnlistedEmotes s _) (applySet set _) ↔ _
      rw [hupdate, hset, shows_put_iff]
      have hrest : ∀ name, name ≠ emoteJson.name → (s.map.erase x.name).lookup name
          = ((set.find name).filter fun y => y.id != emoteJson.id).map fresh :=
        fun name _ => hxid ▸ erase_lookup hshows hx name
      simp only [Steady, hid, Option.isSome_some, true_implies]
      exact ⟨fun h => h.1, fun h => ⟨h, hrest⟩⟩
  | remove emoteName =>
    have hshows' : Shows (apply showUnlistedEmotes s (.remove emoteName)) (set.drop emoteName) := by
      intro name
      rw [EmoteSet.find_drop]
      cases hlookup : s.map.lookup emoteName with
      | none =>
        simp only [apply, removeEmote, hlookup]
        by_cases hname : name = emoteName
        · rw [if_pos hname, hname, hlookup]
          rfl
        · rw [if_neg hname, hshows]
      | some v =>
        simp only [apply, removeEmote, hlookup]
        by_cases hname : name = emoteName
        · rw [if_pos hname, hname, AList.lookup_erase]
          rfl
        · rw [if_neg hname, AList.lookup_erase_ne hname, hshows]
    exact ⟨fun _ => trivial, fun _ => hshows'⟩
  | elsewhere emoteJson => exact ⟨fun _ => trivial, fun _ => hshows⟩
  | expire id => exact ⟨fun _ => trivial, fun _ => hshows⟩

end

/-! ## Runs -/

/-- A channel without emotes, and an empty cache. -/
def start : State × EmoteSet := ({ map := ∅, cache := ∅ }, .empty)

/--
**Live updates converge** in every state of a run exactly if each event is steady: the map of the
channel is then what loading the emote set from scratch gives, for every name.
-/
theorem run_converged_iff {showUnlistedEmotes : Bool} {ls : List Event} {t : State × EmoteSet} :
    Run (fun t e t' => LiveStep showUnlistedEmotes t e t' ∧ Converged showUnlistedEmotes t') start ls t ↔
      Run (fun t e t' => LiveStep showUnlistedEmotes t e t' ∧ Steady t e) start ls t := by
  have hproper : ProperSet showUnlistedEmotes start := fun _ h => absurd h List.not_mem_nil
  have hconverged : Converged showUnlistedEmotes start := fun _ => rfl
  exact Run.guarded_iff liveStep_proper liveStep_converged hproper hconverged

/-- An emote that becomes a zero-width emote stays what it was, since its cached emote passes for it. -/
theorem zeroWidth_update_lost :
    ¬ ∀ (showUnlistedEmotes : Bool) (ls : List Event) (t : State × EmoteSet),
      Run (LiveStep showUnlistedEmotes) start ls t → Converged showUnlistedEmotes t := by
  intro hall
  let id : QString := List.replicate idLength '0'
  let plain : EmoteJson := ⟨id, ['a'], ['b'], 0⟩
  let zeroWidth : EmoteJson := ⟨id, ['a'], ['b'], zeroWidthFlag⟩
  let e₁ : Event := .add plain
  let e₂ : Event := .update ['a'] zeroWidth
  let t₁ : State × EmoteSet := (apply false start.1 e₁, applySet start.2 e₁)
  let t₂ : State × EmoteSet := (apply false t₁.1 e₂, applySet t₁.2 e₂)
  have h₁ : LiveStep false start e₁ t₁ := ⟨⟨by decide, by decide⟩, rfl⟩
  have h₂ : LiveStep false t₁ e₂ t₂ := ⟨⟨by decide, by decide⟩, rfl⟩
  have hconverged := hall false [e₁, e₂] t₂ (.cons h₁ (.cons h₂ (.nil _))) ['a']
  exact absurd (congrArg (Option.map Emote.zeroWidth) hconverged) (by decide)

end SeventvEmotes

end Dankerino
