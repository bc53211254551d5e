import Dankerino.Infra.LruCache
import Dankerino.Qt.QString
import Mathlib.Data.List.Perm.Subperm

/-!
# The chatters of a channel

`ChatterSet`: the names that were seen in a channel, by their lower case, and `updateOnlineChatters`, which
is given the names that are there now.
-/

namespace Dankerino

open Infra

/-- A `std::unordered_set`, in the order in which it is iterated. -/
def UnorderedSet (α : Type) : Type := {elements : List α // elements.Nodup}

/-- `ChatterSet::chatterLimit` -/
def chatterLimit : Nat := 2000

/-- User names by their lower case. -/
structure ChatterSet where
  items : LruCache QString QString
  maxSize : items.maxSize = chatterLimit

namespace ChatterSet

section Names

variable (toLower : QString → QString)

def addRecentChatter (s : ChatterSet) (userName : QString) : ChatterSet where
  items := s.items.put (toLower userName) userName
  maxSize := s.maxSize

def contains (s : ChatterSet) (userName : QString) : Bool := s.items.contains (toLower userName)

end Names

/-- A round of the loop, on `items` and `tmp`. -/
def updateChatter (size : Nat) (state : LruCache QString QString × LruCache QString QString)
    (chatter : QString) : LruCache QString QString × LruCache QString QString :=
  let (items, tmp) := state
  if items.contains chatter then
    match items.get chatter with
    | some (value, items) => (items, tmp.put chatter value)
    | none => (items, tmp)
  else if size < chatterLimit then (items, tmp.put chatter chatter)
  else (items, tmp)

theorem maxSize_updateChatter (size : Nat) (state : LruCache QString QString × LruCache QString QString)
    (chatter : QString) : (updateChatter size state chatter).2.maxSize = state.2.maxSize := by
  unfold updateChatter
  dsimp only
  split
  · split <;> rfl
  · split <;> rfl

def updateOnlineChatters (s : ChatterSet) (lowerCaseUsernames : UnorderedSet QString) : ChatterSet where
  items := (lowerCaseUsernames.val.foldl (updateChatter lowerCaseUsernames.val.length)
    (s.items, .empty chatterLimit)).2
  maxSize := List.foldlRecOn (motive := fun state => state.2.maxSize = chatterLimit) _ _ rfl
    fun state h chatter _ => (maxSize_updateChatter _ state chatter).trans h

/-- A name is recorded as it was seen. -/
theorem find?_addRecentChatter (toLower : QString → QString) (s : ChatterSet) (userName : QString) :
    (s.addRecentChatter toLower userName).items.find? (toLower userName) = some userName :=
  LruCache.find?_put_self (by rw [s.maxSize]; decide) _ _

/-! ## What is known afterwards -/

section Update

variable {items tmp : LruCache QString QString}

/-- What is put in for a name. -/
def entry (items : LruCache QString QString) (size : Nat) (chatter : QString) : Option (QString × QString) :=
  match items.find? chatter with
  | some value => some (chatter, value)
  | none => if size < chatterLimit then some (chatter, chatter) else none

theorem fst_of_entry {size : Nat} {chatter : QString} {item : QString × QString}
    (h : entry items size chatter = some item) : item.1 = chatter := by
  unfold entry at h
  split at h
  · rw [← Option.some.inj h]
  · split at h
    · rw [← Option.some.inj h]
    · exact nomatch h

/-- A round puts the entry of the name in front, and keeps what is in `items`. -/
theorem updateChatter_spec {size : Nat} {chatter : QString} (hnew : tmp.find? chatter = none)
    (hroom : tmp.items.length < tmp.maxSize ∨ entry items size chatter = none) :
    (∀ name, (updateChatter size (items, tmp) chatter).1.find? name = items.find? name) ∧
      (updateChatter size (items, tmp) chatter).2.items
        = (entry items size chatter).toList ++ tmp.items := by
  cases hfind : items.find? chatter with
  | some value =>
    obtain ⟨items', hget, hsame⟩ := LruCache.get_eq hfind
    have hentry : entry items size chatter = some (chatter, value) := by rw [entry, hfind]
    have hcontains : items.contains chatter = true := by rw [LruCache.contains, hfind]; rfl
    have hlt : tmp.items.length < tmp.maxSize := hroom.resolve_right (by rw [hentry]; exact nofun)
    have hstep : updateChatter size (items, tmp) chatter = (items', tmp.put chatter value) := by
      simp only [updateChatter, hcontains, if_true, hget]
    rw [hstep, hentry]
    exact ⟨hsame, LruCache.items_put hnew hlt value⟩
  | none =>
    have hcontains : items.contains chatter = false := by rw [LruCache.contains, hfind]; rfl
    by_cases hsize : size < chatterLimit
    · have hentry : entry items size chatter = some (chatter, chatter) := by
        rw [entry, hfind]
        exact if_pos hsize
      have hlt : tmp.items.length < tmp.maxSize := hroom.resolve_right (by rw [hentry]; exact nofun)
      have hstep : updateChatter size (items, tmp) chatter = (items, tmp.put chatter chatter) := by
        simp only [updateChatter, hcontains, Bool.false_eq_true, if_false, if_pos hsize]
      rw [hstep, hentry]
      exact ⟨fun _ => rfl, LruCache.items_put hnew hlt chatter⟩
    · have hentry : entry items size chatter = none := by
        rw [entry, hfind]
        exact if_neg hsize
      have hstep : updateChatter size (items, tmp) chatter = (items, tmp) := by
        simp only [updateChatter, hcontains, Bool.false_eq_true, if_false, if_neg hsize]
      rw [hstep, hentry]
      exact ⟨fun _ => rfl, rfl⟩

/-- The loop puts in the entry of every name if there is room for all of them. -/
theorem items_foldl {size : Nat} (known : LruCache QString QString) (names : List QString)
    (hnodup : names.Nodup) (hsame : ∀ name, items.find? name = known.find? name)
    (hnew : ∀ name ∈ names, tmp.find? name = none)
    (hroom : (names.filterMap (entry known size)).length + tmp.items.length ≤ tmp.maxSize) :
    (names.foldl (updateChatter size) (items, tmp)).2.items
      = (names.filterMap (entry known size)).reverse ++ tmp.items := by
  induction names generalizing items tmp with
  | nil => rfl
  | cons chatter names ih =>
    obtain ⟨hnot, hnodup⟩ := List.nodup_cons.mp hnodup
    have hentry : entry items size chatter = entry known size chatter := by
      rw [entry, entry, hsame]
    have hlength : (entry known size chatter).toList.length + (names.filterMap (entry known size)).length
        + tmp.items.length ≤ tmp.maxSize := by
      rw [List.filterMap_cons] at hroom
      cases hcases : entry known size chatter with
      | none => simpa [hcases] using hroom
      | some item =>
        rw [hcases] at hroom
        have hroom' : (names.filterMap (entry known size)).length + 1 + tmp.items.length ≤ tmp.maxSize := hroom
        have hone : (some item).toList.length = 1 := rfl
        omega
    have hroom' : tmp.items.length < tmp.maxSize ∨ entry items size chatter = none := by
      rw [hentry]
      cases hcases : entry known size chatter with
      | none => exact .inr rfl
      | some item =>
        rw [hcases] at hlength
        have hone : (some item).toList.length = 1 := rfl
        omega
    obtain ⟨hkeep, hitems⟩ := updateChatter_spec (hnew chatter (.head _)) hroom'
    have hmax := maxSize_updateChatter size (items, tmp) chatter
    rw [List.foldl_cons]
    generalize updateChatter size (items, tmp) chatter = state at hkeep hitems hmax ⊢
    obtain ⟨items', tmp'⟩ := state
    dsimp only at hkeep hitems hmax
    rw [hentry] at hitems
    rw [ih hnodup (fun name => (hkeep name).trans (hsame name)), hitems]
    · rw [List.filterMap_cons]
      cases entry known size chatter with
      | none => rfl
      | some item => simp
    · -- the names that come are other names
      intro name hname
      rw [LruCache.find?_eq_none_iff, hitems]
      intro item hitem
      rcases List.mem_append.mp hitem with hitem | hitem
      · rw [fst_of_entry (Option.mem_toList.mp hitem)]
        rintro rfl
        exact hnot hname
      · exact LruCache.find?_eq_none_iff.mp (hnew name (.tail _ hname)) item hitem
    · rw [hitems, hmax, List.length_append]
      omega

/-- There is room for all names. -/
theorem length_entries_le (s : ChatterSet) {names : List QString} (hnodup : names.Nodup) :
    (names.filterMap (entry s.items names.length)).length ≤ chatterLimit := by
  by_cases hsize : names.length < chatterLimit
  · exact Nat.le_trans (List.length_filterMap_le _ _) (Nat.le_of_lt hsize)
  · -- all of them are in `items`
    have hsub : names.filterMap (entry s.items names.length) ⊆ s.items.items := by
      intro item hitem
      obtain ⟨name, -, hentry⟩ := List.mem_filterMap.mp hitem
      rw [entry, if_neg hsize] at hentry
      split at hentry
      · next value hvalue =>
        rw [← Option.some.inj hentry]
        exact LruCache.find?_eq_some_iff.mp hvalue
      · exact nomatch hentry
    have hkeys : (names.filterMap (entry s.items names.length)).Nodup := by
      refine hnodup.filterMap fun name name' item hname hname' => ?_
      rw [← fst_of_entry hname, ← fst_of_entry hname']
    exact Nat.le_trans (List.subperm_of_subset hkeys hsub).length_le (s.maxSize ▸ s.items.size_le)

/-- What is found at a name afterwards. -/
theorem find?_updateOnlineChatters (s : ChatterSet) (lowerCaseUsernames : UnorderedSet QString)
    (name : QString) : (s.updateOnlineChatters lowerCaseUsernames).items.find? name
      = if name ∈ lowerCaseUsernames.val then
          (entry s.items lowerCaseUsernames.val.length name).map Prod.snd
        else none := by
  obtain ⟨names, hnodup⟩ := lowerCaseUsernames
  have hitems : (updateOnlineChatters s ⟨names, hnodup⟩).items.items
      = (names.filterMap (entry s.items names.length)).reverse ++ [] :=
    items_foldl s.items names hnodup (fun _ => rfl) (fun _ _ => rfl) (length_entries_le s hnodup)
  refine Option.ext fun value => ?_
  rw [LruCache.find?_eq_some_iff, hitems, List.append_nil, List.mem_reverse, List.mem_filterMap]
  constructor
  · rintro ⟨chatter, hchatter, hentry⟩
    obtain rfl : name = chatter := fst_of_entry hentry
    rw [if_pos hchatter, hentry]
    rfl
  · intro h
    split at h
    · next hname =>
      obtain ⟨item, hentry, rfl⟩ := Option.map_eq_some_iff.mp h
      obtain rfl := fst_of_entry hentry
      exact ⟨item.1, hname, hentry⟩
    · exact nomatch h

/--
Exactly the names that are there are known afterwards, or if they are too many, those of them that were known.
Names that were known are written as they were, and there are not too many.
-/
theorem updateOnlineChatters_exact (toLower : QString → QString) (s : ChatterSet)
    (lowerCaseUsernames : UnorderedSet QString) :
    (lowerCaseUsernames.val.length < chatterLimit → ∀ userName,
      (s.updateOnlineChatters lowerCaseUsernames).contains toLower userName = true ↔
        toLower userName ∈ lowerCaseUsernames.val) ∧
    (chatterLimit ≤ lowerCaseUsernames.val.length → ∀ userName,
      (s.updateOnlineChatters lowerCaseUsernames).contains toLower userName = true ↔
        s.contains toLower userName = true ∧ toLower userName ∈ lowerCaseUsernames.val) ∧
    (∀ name ∈ lowerCaseUsernames.val, ∀ value, s.items.find? name = some value →
      (s.updateOnlineChatters lowerCaseUsernames).items.find? name = some value) ∧
    (s.updateOnlineChatters lowerCaseUsernames).items.items.length ≤ chatterLimit := by
  have hlength := (s.updateOnlineChatters lowerCaseUsernames).items.size_le
  rw [(s.updateOnlineChatters lowerCaseUsernames).maxSize] at hlength
  refine ⟨fun hsize userName => ?_, fun hsize userName => ?_, fun name hname value hvalue => ?_, hlength⟩
  · rw [contains, LruCache.contains, find?_updateOnlineChatters]
    split
    · next hname =>
      refine iff_of_true ?_ hname
      rw [Option.isSome_map, entry]
      split
      · rfl
      · rw [if_pos hsize]
        rfl
    · next hname => exact iff_of_false (by simp) hname
  · rw [contains, contains, LruCache.contains, find?_updateOnlineChatters, LruCache.contains]
    split
    · next hname =>
      rw [and_iff_left hname, Option.isSome_map, entry, if_neg (Nat.not_lt.mpr hsize)]
      cases s.items.find? (toLower userName) with
      | none => rfl
      | some value => exact Iff.rfl
    · next hname => exact iff_of_false (by simp) fun h => hname h.2
  · rw [find?_updateOnlineChatters, if_pos hname, entry, hvalue]
    rfl

end Update

end ChatterSet

end Dankerino
