import Dankerino.Common.SignalVector
import Dankerino.Filters.ParserSpec
import Dankerino.Infra.OrderedMap
import Dankerino.Infra.Run
import Dankerino.Widgets.ChannelView
import Mathlib.Data.Nat.Basic

/-!
# Filter sets

`FilterRecord` and `FilterSet` of `controllers/filters`, beside the list `filterRecords` of the
settings. A set of filters belongs to a split. It is reloaded when the list sends
`delayedItemsChanged`, some time after a change.

How an expression is evaluated and how the context of a message is built are parameters.
-/

namespace Dankerino.Filters

open Infra

universe u

/-! ## Records -/

/-- `FilterRecord`. The parser is that of the text. -/
structure FilterRecord (QUuid : Type u) where
  name : QString
  filter : QString
  id : QUuid
  parser : FilterParser
  parser_eq : FilterParser.new filter = .ok parser

namespace FilterRecord

variable {QUuid : Type u}

theorem exists_new (filter : QString) : ∃ parser, FilterParser.new filter = .ok parser := by
  obtain ⟨parser, hparser, -⟩ := FilterParser.construct_spec filter (Nat.le_refl _)
  exact ⟨parser, hparser⟩

/-- The constructor. -/
def new (name filter : QString) (id : QUuid) : FilterRecord QUuid :=
  match h : FilterParser.new filter with
  | .ok parser => { name, filter, id, parser, parser_eq := h }
  | .error fault => absurd (exists_new filter) (by
      rintro ⟨parser, hparser⟩
      rw [hparser] at h
      exact nomatch h)

@[simp]
theorem new_id (name filter : QString) (id : QUuid) : (new name filter id).id = id := by
  unfold new
  split
  · rfl
  · next h =>
    obtain ⟨parser, hparser⟩ := exists_new filter
    rw [hparser] at h
    exact nomatch h

def valid (f : FilterRecord QUuid) : Bool := f.parser.valid

/-- The record's own `filter`. -/
def accepts {ContextMap : Type*} (execute : Expression → ContextMap → Bool) (f : FilterRecord QUuid)
    (context : ContextMap) : Bool :=
  execute f.parser.builtExpression context

end FilterRecord

/-! ## The set -/

structure FilterSet (QUuid : Type u) where
  filters : OrderedMap QUuid (FilterRecord QUuid)

/-- The record that has an id. If there are several, it is the last one. -/
def currentRecord {QUuid : Type u} [DecidableEq QUuid] (filters : List (FilterRecord QUuid))
    (id : QUuid) : Option (FilterRecord QUuid) :=
  (filters.filter fun f => f.id = id).getLast?

namespace FilterSet

variable {QUuid : Type u} [LinearOrder QUuid]

/-- The loop of the constructor. -/
def constructorLoop (filterIds : List QUuid) :
    List (FilterRecord QUuid) → OrderedMap QUuid (FilterRecord QUuid) →
      OrderedMap QUuid (FilterRecord QUuid)
  | [], m => m
  | f :: rest, m => constructorLoop filterIds rest (if f.id ∈ filterIds then m.insert f.id f else m)

/-- The constructor, for the records of the list. -/
def new (filters : List (FilterRecord QUuid)) (filterIds : List QUuid) : FilterSet QUuid where
  filters := constructorLoop filterIds filters []

/-- The inner loop of `reloadFilters`, with `found`. -/
def findLoop (key : QUuid) :
    List (FilterRecord QUuid) → Bool → OrderedMap QUuid (FilterRecord QUuid) →
      Bool × OrderedMap QUuid (FilterRecord QUuid)
  | [], found, m => (found, m)
  | f :: rest, found, m =>
    if f.id = key then findLoop key rest true (m.insert key f) else findLoop key rest found m

/-- The outer loop of `reloadFilters`. -/
def reloadLoop (filters : List (FilterRecord QUuid)) :
    List QUuid → OrderedMap QUuid (FilterRecord QUuid) → OrderedMap QUuid (FilterRecord QUuid)
  | [], m => m
  | key :: keys, m =>
    let r := findLoop key filters false m
    reloadLoop filters keys (if r.1 then r.2 else r.2.erase key)

def reloadFilters (set : FilterSet QUuid) (filters : List (FilterRecord QUuid)) : FilterSet QUuid where
  filters := reloadLoop filters set.filters.keys set.filters

def filter {Message Channel ContextMap : Type*} (execute : Expression → ContextMap → Bool)
    (buildContextMap : Message → Channel → ContextMap) (set : FilterSet QUuid) (m : Message)
    (channel : Channel) : Bool :=
  if set.filters.length = 0 then true
  else
    let context := buildContextMap m channel
    (set.filters.map Prod.snd).all fun f => f.valid && f.accepts execute context

end FilterSet

/-! ## The list and a set -/

structure FilterState (QUuid : Type u) where
  filterRecords : DelayedVector (FilterRecord QUuid)
  filterSet : FilterSet QUuid
  /-- The ids that there have been. -/
  createdIds : List QUuid

namespace FilterState

variable {QUuid : Type u} [LinearOrder QUuid]

/-- A set is made for some ids, when there have been these ids, those of the list and others. -/
def new (filterRecords : DelayedVector (FilterRecord QUuid)) (filterIds others : List QUuid) :
    FilterState QUuid where
  filterRecords := filterRecords
  filterSet := FilterSet.new filterRecords.items filterIds
  createdIds := filterRecords.items.map (·.id) ++ filterIds ++ others

inductive Op
  | insert (name filter : QString) (index : Option Nat)
  /-- A row is edited, or moved. -/
  | edit (index : Nat) (name filter : QString) (newIndex : Nat)
  | removeAt (index : Nat)
  | timeout

/--
One event. A new record has an id from `createUuid`. An edit removes the record and inserts one
with its id before anything else happens.
-/
inductive Step : FilterState QUuid → Op → FilterState QUuid → Prop
  | insert (s : FilterState QUuid) {name filter : QString} {index : Option Nat} {id : QUuid}
      {r : DelayedVector (FilterRecord QUuid) × Bool} : id ∉ s.createdIds →
      s.filterRecords.apply (.insert (.new name filter id) index) = some r →
      Step s (.insert name filter index)
        { s with filterRecords := r.1, createdIds := id :: s.createdIds }
  | edit (s : FilterState QUuid) {name filter : QString} {index newIndex : Nat}
      {original : FilterRecord QUuid} {r r' : DelayedVector (FilterRecord QUuid) × Bool} :
      s.filterRecords.items[index]? = some original →
      s.filterRecords.apply (.removeAt index) = some r →
      r.1.apply (.insert (.new name filter original.id) (some newIndex)) = some r' →
      Step s (.edit index name filter newIndex) { s with filterRecords := r'.1 }
  | removeAt (s : FilterState QUuid) {index : Nat} {r : DelayedVector (FilterRecord QUuid) × Bool} :
      s.filterRecords.apply (.removeAt index) = some r →
      Step s (.removeAt index) { s with filterRecords := r.1 }
  | timeout (s : FilterState QUuid) {r : DelayedVector (FilterRecord QUuid) × Bool} :
      s.filterRecords.apply .timeout = some r →
      Step s .timeout
        { s with filterRecords := r.1, filterSet := s.filterSet.reloadFilters r.1.items }

end FilterState

/-! ## Current records -/

section Current

variable {QUuid : Type u} [DecidableEq QUuid]

theorem currentRecord_cons (f : FilterRecord QUuid) (rest : List (FilterRecord QUuid)) (id : QUuid) :
    currentRecord (f :: rest) id = (currentRecord rest id).or (if f.id = id then some f else none) := by
  unfold currentRecord
  by_cases h : f.id = id
  · rw [if_pos h, List.filter_cons_of_pos (by simpa using h), List.getLast?_cons]
    cases (rest.filter fun f => f.id = id).getLast? <;> rfl
  · rw [if_neg h, List.filter_cons_of_neg (by simpa using h), Option.or_none]

theorem isSome_currentRecord {filters : List (FilterRecord QUuid)} {id : QUuid} :
    (currentRecord filters id).isSome = true ↔ ∃ f ∈ filters, f.id = id := by
  induction filters with
  | nil => simp [currentRecord]
  | cons f rest ih =>
    rw [currentRecord_cons, Option.isSome_or, Bool.or_eq_true, ih]
    by_cases h : f.id = id <;> simp [h]

end Current

/-! ## Loading -/

namespace FilterSet

variable {QUuid : Type u} [LinearOrder QUuid]

theorem find_constructorLoop (filterIds : List QUuid) (filters : List (FilterRecord QUuid)) (id : QUuid) :
    ∀ m, (constructorLoop filterIds filters m).find id
      = if id ∈ filterIds then (currentRecord filters id).or (m.find id) else m.find id := by
  induction filters with
  | nil =>
    intro m
    simp [constructorLoop, currentRecord]
  | cons f rest ih =>
    intro m
    rw [constructorLoop, ih, currentRecord_cons]
    by_cases hf : f.id ∈ filterIds
    · rw [if_pos hf, OrderedMap.find_insert]
      by_cases hid : id = f.id
      · subst hid
        simp [hf]
      · rw [if_neg hid, if_neg (Ne.symm hid), Option.or_none]
    · rw [if_neg hf]
      by_cases hid : id ∈ filterIds
      · have hne : f.id ≠ id := fun h => hf (h ▸ hid)
        rw [if_pos hid, if_pos hid, if_neg hne, Option.or_none]
      · rw [if_neg hid, if_neg hid]

theorem findLoop_spec (key : QUuid) (filters : List (FilterRecord QUuid)) :
    ∀ found m, (findLoop key filters found m).1 = (found || (currentRecord filters key).isSome) ∧
      ∀ id, (findLoop key filters found m).2.find id
        = if id = key then (currentRecord filters key).or (m.find id) else m.find id := by
  induction filters with
  | nil =>
    intro found m
    exact ⟨(Bool.or_false _).symm, fun id => by simp [findLoop, currentRecord]⟩
  | cons f rest ih =>
    intro found m
    rw [findLoop, currentRecord_cons]
    by_cases hkey : f.id = key
    · rw [if_pos hkey, if_pos hkey]
      obtain ⟨hfound, hfind⟩ := ih true (m.insert key f)
      refine ⟨by simp [hfound], fun id => ?_⟩
      rw [hfind, OrderedMap.find_insert]
      by_cases hid : id = key
      · simp [hid]
      · simp [hid]
    · rw [if_neg hkey, if_neg hkey, Option.or_none]
      exact ih found m

/-- One key is looked up. -/
theorem find_reload (filters : List (FilterRecord QUuid)) (key : QUuid)
    (m : OrderedMap QUuid (FilterRecord QUuid)) (id : QUuid) :
    (if (findLoop key filters false m).1 then (findLoop key filters false m).2
        else (findLoop key filters false m).2.erase key : OrderedMap QUuid (FilterRecord QUuid)).find id
      = if id = key then currentRecord filters key else m.find id := by
  obtain ⟨hfound, hfind⟩ := findLoop_spec key filters false m
  rw [hfound, Bool.false_or]
  cases hcurrent : currentRecord filters key with
  | none =>
    rw [Option.isSome_none, if_neg Bool.false_ne_true, OrderedMap.find_erase, hfind]
    split_ifs <;> rfl
  | some f =>
    rw [Option.isSome_some, if_pos rfl, hfind, hcurrent, Option.some_or]

theorem find_reloadLoop (filters : List (FilterRecord QUuid)) (keys : List QUuid) (id : QUuid) :
    ∀ m, (reloadLoop filters keys m).find id
      = if id ∈ keys then currentRecord filters id else m.find id := by
  induction keys with
  | nil =>
    intro m
    rfl
  | cons key keys ih =>
    intro m
    rw [reloadLoop, ih, find_reload]
    by_cases hkey : id = key
    · subst hkey
      simp
    · simp [hkey]

/-! ## Order -/

theorem sorted_constructorLoop (filterIds : List QUuid) (filters : List (FilterRecord QUuid)) :
    ∀ m, m.Sorted → (constructorLoop filterIds filters m).Sorted := by
  induction filters with
  | nil => exact fun m hm => hm
  | cons f rest ih =>
    intro m hm
    refine ih _ ?_
    split
    · exact hm.insert _ _
    · exact hm

theorem sorted_findLoop (key : QUuid) (filters : List (FilterRecord QUuid)) :
    ∀ found m, m.Sorted → (findLoop key filters found m).2.Sorted := by
  induction filters with
  | nil => exact fun found m hm => hm
  | cons f rest ih =>
    intro found m hm
    rw [findLoop]
    split
    · exact ih _ _ (hm.insert _ _)
    · exact ih _ _ hm

theorem sorted_reloadLoop (filters : List (FilterRecord QUuid)) (keys : List QUuid) :
    ∀ m, m.Sorted → (reloadLoop filters keys m).Sorted := by
  induction keys with
  | nil => exact fun m hm => hm
  | cons key keys ih =>
    intro m hm
    have hfound := sorted_findLoop key filters false m hm
    refine ih _ ?_
    split
    · exact hfound
    · exact hfound.erase key

end FilterSet

/-! ## Runs -/

namespace FilterState

variable {QUuid : Type u} [LinearOrder QUuid]

/-- The set has selected ids only, and those of the selected ids that the list has. -/
structure Tracks (filterIds : List QUuid) (s : FilterState QUuid) : Prop where
  sorted : s.filterSet.filters.Sorted
  created : ∀ id ∈ filterIds, id ∈ s.createdIds
  selected : ∀ id ∈ s.filterSet.filters.keys, id ∈ filterIds
  kept : ∀ f ∈ s.filterRecords.items, f.id ∈ filterIds → f.id ∈ s.filterSet.filters.keys

theorem tracks_new (filterRecords : DelayedVector (FilterRecord QUuid)) (filterIds others : List QUuid) :
    Tracks filterIds (FilterState.new filterRecords filterIds others) := by
  have hfind := FilterSet.find_constructorLoop filterIds filterRecords.items
  constructor
  · exact FilterSet.sorted_constructorLoop _ _ _ List.Pairwise.nil
  · intro id hid
    simp [FilterState.new, hid]
  · intro id hid
    obtain ⟨f, hf⟩ := OrderedMap.mem_keys_iff_find.mp hid
    by_contra hnot
    rw [FilterState.new, FilterSet.new, hfind, if_neg hnot] at hf
    exact nomatch hf
  · intro f hf hid
    obtain ⟨g, hg⟩ := Option.isSome_iff_exists.mp (isSome_currentRecord.mpr ⟨f, hf, rfl⟩)
    refine OrderedMap.mem_keys_iff_find.mpr ⟨g, ?_⟩
    rw [FilterState.new, FilterSet.new, hfind, if_pos hid]
    exact Option.or_eq_some_iff.mpr (.inl hg)

theorem Tracks.find_reloadFilters {filterIds : List QUuid} {s : FilterState QUuid}
    (h : Tracks filterIds s) (id : QUuid) :
    (s.filterSet.reloadFilters s.filterRecords.items).filters.find id
      = if id ∈ filterIds then currentRecord s.filterRecords.items id else none := by
  rw [FilterSet.reloadFilters, FilterSet.find_reloadLoop]
  by_cases hkey : id ∈ s.filterSet.filters.keys
  · rw [if_pos hkey, if_pos (h.selected id hkey)]
  · rw [if_neg hkey, OrderedMap.find_eq_none hkey]
    split_ifs with hid
    · cases hcurrent : currentRecord s.filterRecords.items id with
      | none => rfl
      | some g =>
        obtain ⟨f, hf, rfl⟩ := isSome_currentRecord.mp (Option.isSome_iff_exists.mpr ⟨g, hcurrent⟩)
        exact absurd (h.kept f hf hid) hkey
    · rfl

theorem Tracks.step {filterIds : List QUuid} {s s' : FilterState QUuid} {op : Op}
    (h : Tracks filterIds s) (hstep : Step s op s') : Tracks filterIds s' := by
  cases hstep with
  | @insert name filter index id r hfresh hinsert =>
    refine { h with created := fun id hid => List.mem_cons_of_mem _ (h.created id hid), kept := ?_ }
    intro f hf hid
    rcases (DelayedVector.mem_of_insert hinsert f).mp hf with rfl | hf
    · rw [FilterRecord.new_id] at hid
      exact absurd (h.created id hid) hfresh
    · exact h.kept f hf hid
  | @edit name filter index newIndex original r r' horiginal hremove hinsert =>
    refine { h with kept := ?_ }
    intro f hf hid
    obtain ⟨gone, hgone, hmem⟩ := DelayedVector.mem_of_removeAt hremove
    rw [horiginal, Option.some.injEq] at hgone
    subst hgone
    rcases (DelayedVector.mem_of_insert hinsert f).mp hf with rfl | hf
    · -- the new record has the id of the one that is gone
      rw [FilterRecord.new_id] at hid ⊢
      exact h.kept original ((hmem original).mpr (.inl rfl)) hid
    · exact h.kept f ((hmem f).mpr (.inr hf)) hid
  | @removeAt index r hremove =>
    refine { h with kept := ?_ }
    intro f hf hid
    obtain ⟨gone, -, hmem⟩ := DelayedVector.mem_of_removeAt hremove
    exact h.kept f ((hmem f).mpr (.inr hf)) hid
  | @timeout r htimeout =>
    have hitems := DelayedVector.items_of_timeout htimeout
    rw [hitems]
    constructor
    · exact FilterSet.sorted_reloadLoop _ _ _ h.sorted
    · exact h.created
    · intro id hid
      obtain ⟨f, hf⟩ := OrderedMap.mem_keys_iff_find.mp hid
      dsimp only at hf
      rw [h.find_reloadFilters] at hf
      by_contra hnot
      rw [if_neg hnot] at hf
      exact nomatch hf
    · intro f hf hid
      dsimp only at hf
      rw [hitems] at hf
      obtain ⟨g, hg⟩ := Option.isSome_iff_exists.mp (isSome_currentRecord.mpr ⟨f, hf, rfl⟩)
      refine OrderedMap.mem_keys_iff_find.mpr ⟨g, ?_⟩
      dsimp only
      rw [h.find_reloadFilters, if_pos hid, hg]

section Filter

variable {Message Channel ContextMap : Type*} (execute : Expression → ContextMap → Bool)
  (buildContextMap : Message → Channel → ContextMap)

theorem filter_iff {set : FilterSet QUuid} (hsorted : set.filters.Sorted) (m : Message)
    (channel : Channel) : set.filter execute buildContextMap m channel = true ↔
      set.filters = [] ∨ ∀ id f, set.filters.find id = some f →
        f.valid = true ∧ f.accepts execute (buildContextMap m channel) = true := by
  rw [FilterSet.filter]
  by_cases hlength : set.filters.length = 0
  · rw [if_pos hlength]
    exact iff_of_true rfl (.inl (List.length_eq_zero_iff.mp hlength))
  · have hnil : set.filters ≠ [] := fun h => hlength (List.length_eq_zero_iff.mpr h)
    rw [if_neg hlength, or_iff_right hnil, List.all_eq_true]
    constructor
    · intro hall id f hf
      have hmem := (OrderedMap.mem_iff_find hsorted.nodup).mpr hf
      exact Bool.and_eq_true_iff.mp (hall f (List.mem_map.mpr ⟨_, hmem, rfl⟩))
    · intro hall f hf
      obtain ⟨⟨id, g⟩, hmem, rfl⟩ := List.mem_map.mp hf
      exact Bool.and_eq_true_iff.mpr (hall id g ((OrderedMap.mem_iff_find hsorted.nodup).mp hmem))

/--
After each notification the set has the current records of the selected ids that the list has, and
it accepts a message exactly if it is empty or each of its filters is valid and accepts it.
-/
theorem run_tracks (filterRecords : DelayedVector (FilterRecord QUuid)) (filterIds others : List QUuid)
    {ops : List Op} {s : FilterState QUuid}
    (h : Run Step (FilterState.new filterRecords filterIds others) ops s) :
    (∀ s', Step s .timeout s' → ∀ id, s'.filterSet.filters.find id
        = if id ∈ filterIds then currentRecord s'.filterRecords.items id else none) ∧
      ∀ (m : Message) (channel : Channel), s.filterSet.filter execute buildContextMap m channel = true ↔
        s.filterSet.filters = [] ∨ ∀ id f, s.filterSet.filters.find id = some f →
          f.valid = true ∧ f.accepts execute (buildContextMap m channel) = true := by
  have hstep (s : FilterState QUuid) (op : Op) (s' : FilterState QUuid) :
      Tracks filterIds s → Step s op s' → Tracks filterIds s' := Tracks.step
  have htracks := h.invariant hstep (tracks_new filterRecords filterIds others)
  refine ⟨?_, filter_iff execute buildContextMap htracks.sorted⟩
  intro s' htimeout id
  cases htimeout with
  | timeout htimeout =>
    rw [DelayedVector.items_of_timeout htimeout]
    exact htracks.find_reloadFilters id

/-- A selected record is edited, and then the list sends its signal. -/
theorem run_tracks_edited : ∃ s s' : FilterState Nat,
    Run Step (FilterState.new
      { items := [.new "a".toList "1".toList 7], itemCompare := none, isActive := false } [7] [])
      [.edit 0 "b".toList "0".toList 0] s ∧ Step s .timeout s' ∧
      s'.filterSet.filters.find 7 = some (.new "b".toList "0".toList 7) := by
  have hedit : Step (FilterState.new
      { items := [.new "a".toList "1".toList 7], itemCompare := none, isActive := false } [7] [])
      (.edit 0 "b".toList "0".toList 0) _ := .edit _ rfl rfl rfl
  have hrun := Run.single hedit
  refine ⟨_, _, hrun, .timeout _ rfl, ?_⟩
  have htracks := run_tracks (fun _ (_ : Unit) => true) (fun (_ : Unit) (_ : Unit) => ()) _ _ _ hrun
  rw [htracks.1 _ (.timeout _ rfl) 7]
  rfl

end Filter

end FilterState

/-! ## The set of a view -/

section View

variable {QUuid : Type u} {Channel ContextMap : Type*} (execute : Expression → ContextMap → Bool)
  (buildContextMap : Message → Channel → ContextMap) (channel : Channel)

/-- A record as a view of the channel sees it. -/
def FilterRecord.inView (f : FilterRecord QUuid) : Dankerino.FilterRecord where
  valid := f.valid
  filter m := f.accepts execute (buildContextMap m channel)

/-- The filters of a view decide like the set. -/
theorem filter_inView [LinearOrder QUuid] (set : FilterSet QUuid) (m : Message) :
    Dankerino.FilterSet.filter
        (set.filters.map fun p => p.2.inView execute buildContextMap channel) m
      = set.filter execute buildContextMap m channel := by
  unfold Dankerino.FilterSet.filter FilterSet.filter
  rw [List.length_map, List.all_map, List.all_map]
  rfl

end View

end Dankerino.Filters
