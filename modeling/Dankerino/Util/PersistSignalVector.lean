import Dankerino.Common.SignalVector
import Dankerino.Infra.Run
import Dankerino.Util.Serialize
import Dankerino.Util.SettingManager

/-!
# Lists that are kept in the settings

`persist` connects a `SignalVector` with a setting: the vector starts with the items of the setting, and is
written to it when it sends `delayedItemsChanged`, some time after a change. `ConcurrentSettings` keeps nine
lists so, of different types, in one document.

`restarted`: what a restart loads is what each list had when its timer last ran out, whatever was done to the
other lists, and exactly the list as it was if its timer is not running. What has another path in the document
stays. The store and the conversions of lists are those of libraries, with their laws, and the texts in the list
have no U+0000.
-/

namespace Dankerino

open Infra

namespace Persist

open SettingManager

/-! ## The lists -/

/-- Lists that are kept in a store, each of items of its own type. -/
structure PersistedLists where
  store : SettingStore
  Kind : Type
  [decEq : DecidableEq Kind]
  Item : Kind → Type
  /-- `Serialize<std::vector<T>>` for the items of the list. -/
  serialize : (k : Kind) → List (Item k) → QJsonValue
  /-- `Deserialize<std::vector<T>>`, which is `none` when it reports an error. -/
  deserialize : (k : Kind) → QJsonValue → Option (List (Item k))
  /-- The items that are read back as they were. -/
  Whole : (k : Kind) → Item k → Prop
  deserialize_serialize : ∀ k items, (∀ item ∈ items, Whole k item) →
    deserialize k (serialize k items) = some items
  path : Kind → QString
  isPath : ∀ k, IsPath (path k)
  diverge : ∀ k k', k ≠ k' → Diverge (names (path k)) (names (path k'))

instance (lists : PersistedLists) : DecidableEq lists.Kind := lists.decEq

variable (lists : PersistedLists)

/-- The setting of a list, with the value of its type if there is none. -/
def settingValue (document : lists.store.Document) (k : lists.Kind) : List (lists.Item k) :=
  (lists.deserialize k (lists.store.get (lists.path k) document)).getD []

structure State where
  vectors : (k : lists.Kind) → DelayedVector (lists.Item k)
  document : lists.store.Document

/-- The first part of `persist`, which appends the items of the setting. -/
def loadVector {T : Type} (items : List T) : Option (DelayedVector T) :=
  items.foldlM (fun vec item => (vec.apply (.insert item none)).map Prod.fst) DelayedVector.new

/-- What `persist` does when `delayedItemsChanged` is sent. -/
def setSetting (k : lists.Kind) (items : List (lists.Item k)) (document : lists.store.Document) :
    lists.store.Document :=
  lists.store.set (lists.path k) (lists.serialize k items) document

/-- A start with a document. -/
def Started (document : lists.store.Document) (s : State lists) : Prop :=
  s.document = document ∧ ∀ k, loadVector (settingValue lists document k) = some (s.vectors k)

def start (document : lists.store.Document) : State lists where
  vectors k := (loadVector (settingValue lists document k)).getD .new
  document := document

/-- One operation on one list. -/
inductive Step : State lists → (k : lists.Kind) × VectorOp (lists.Item k) → State lists → Prop
  | op {s : State lists} {k : lists.Kind} {op : VectorOp (lists.Item k)} {vector : DelayedVector (lists.Item k)}
    {changed : Bool} : (s.vectors k).apply op = some (vector, changed) →
    Step s ⟨k, op⟩
      { vectors := Function.update s.vectors k vector
        document := if changed then setSetting lists k vector.items s.document else s.document }

/-! ## Loading -/

theorem loadVector_from {T : Type} (items : List T) (vec : DelayedVector T) (hvec : vec.itemCompare = none) :
    ∃ r, items.foldlM (fun vec item => (vec.apply (.insert item none)).map Prod.fst) vec = some r ∧
      r.items = vec.items ++ items := by
  induction items generalizing vec with
  | nil => exact ⟨vec, rfl, (List.append_nil _).symm⟩
  | cons item items ih =>
    have happend : (vec.apply (.insert item none)).map Prod.fst
        = some { vec with items := vec.items ++ [item], isActive := true } := by
      simp [DelayedVector.apply, SignalVector.insert, hvec]
    obtain ⟨r, hr, hitems⟩ := ih { vec with items := vec.items ++ [item], isActive := true } hvec
    refine ⟨r, ?_, by simp [hitems]⟩
    rw [List.foldlM_cons, happend]
    exact hr

theorem started_start (document : lists.store.Document) : Started lists document (start lists document) := by
  refine ⟨rfl, fun k => ?_⟩
  obtain ⟨r, hr, -⟩ := loadVector_from (settingValue lists document k) .new rfl
  have hload : loadVector (settingValue lists document k) = some r := hr
  simp [start, hload]

/-- A list starts with the items of its setting. -/
theorem items_of_started {lists : PersistedLists} {document : lists.store.Document} {s : State lists}
    (h : Started lists document s) (k : lists.Kind) : (s.vectors k).items = settingValue lists document k := by
  obtain ⟨r, hr, hitems⟩ := loadVector_from (settingValue lists document k) .new rfl
  have hload := (h.2 k).symm.trans hr
  rw [Option.some.inj hload, hitems]
  rfl

/-! ## One operation -/

variable {lists}

theorem settingValue_setSetting (k k' : lists.Kind) (items : List (lists.Item k'))
    (document : lists.store.Document) (h : k ≠ k') : settingValue lists (setSetting lists k' items document) k = settingValue lists document k := by
  have hget := lists.store.get_set_of_diverge (lists.path k) (lists.path k') (lists.serialize k' items) document
    (lists.isPath k) (lists.isPath k') (lists.diverge k k' h)
  rw [settingValue, setSetting, hget, settingValue]

theorem settingValue_setSetting_self (k : lists.Kind) {items : List (lists.Item k)}
    (h : ∀ item ∈ items, lists.Whole k item) (document : lists.store.Document) :
    settingValue lists (setSetting lists k items document) k = items := by
  have hget := lists.store.get_set_self (lists.path k) (lists.serialize k items) document (lists.isPath k)
  rw [settingValue, setSetting, hget, lists.deserialize_serialize k items h, Option.getD_some]

/-- What an operation does to a list and its setting: only the timer of the list writes to it. -/
theorem step_cases {s s' : State lists} {e : (k : lists.Kind) × VectorOp (lists.Item k)} (h : Step lists s e s')
    (k : lists.Kind) :
    (e = ⟨k, .timeout⟩ ∧ ((∀ item ∈ (s'.vectors k).items, lists.Whole k item) →
        settingValue lists s'.document k = (s'.vectors k).items)) ∨
      (e ≠ ⟨k, .timeout⟩ ∧ settingValue lists s'.document k = settingValue lists s.document k ∧
        ((s'.vectors k).isActive = true ∨ s'.vectors k = s.vectors k)) := by
  cases h with
  | @op k' op vector changed happly =>
    by_cases hk : k = k'
    · subst hk
      cases op with
      | timeout =>
        refine .inl ⟨rfl, fun hwhole => ?_⟩
        rw [DelayedVector.apply] at happly
        split at happly
        · obtain ⟨-, rfl⟩ := Prod.mk.injEq .. ▸ Option.some.inj happly
          simp only [Function.update_self] at hwhole ⊢
          exact settingValue_setSetting_self k hwhole s.document
        · simp at happly
      | insert item index =>
        obtain ⟨r, -, hr⟩ := Option.map_eq_some_iff.mp happly
        obtain ⟨rfl, rfl⟩ := Prod.mk.injEq .. ▸ hr
        exact .inr ⟨by simp, rfl, .inl (by simp)⟩
      | removeAt index =>
        obtain ⟨r, -, hr⟩ := Option.map_eq_some_iff.mp happly
        obtain ⟨rfl, rfl⟩ := Prod.mk.injEq .. ▸ hr
        exact .inr ⟨by simp, rfl, .inl (by simp)⟩
    · refine .inr ⟨fun heq => hk (congrArg Sigma.fst heq).symm, ?_, .inr (by simp [hk])⟩
      cases changed with
      | true => exact settingValue_setSetting k k' vector.items s.document hk
      | false => rfl

/-! ## Runs -/

/-- Since a timer ran out, or since the start, the setting of the list is what the list was then. -/
structure Kept (k : lists.Kind) (s₀ : State lists)
    (es : List ((k : lists.Kind) × VectorOp (lists.Item k))) (s : State lists) : Prop where
  run : Run (Step lists) s₀ es s
  settled : (s.vectors k).isActive = false → (∀ item ∈ (s.vectors k).items, lists.Whole k item) →
    settingValue lists s.document k = (s.vectors k).items
  since : ∃ before after mid, es = before ++ after ∧ Run (Step lists) s₀ before mid ∧
    (before = [] ∨ before.getLast? = some ⟨k, .timeout⟩) ∧ ⟨k, .timeout⟩ ∉ after ∧
    Run (Step lists) mid after s ∧
    ((∀ item ∈ (mid.vectors k).items, lists.Whole k item) →
      settingValue lists s.document k = (mid.vectors k).items)

theorem kept_step {k : lists.Kind} {s₀ s s' : State lists} {es : List ((k : lists.Kind) × VectorOp (lists.Item k))}
    {e : (k : lists.Kind) × VectorOp (lists.Item k)} (hs : Kept k s₀ es s) (h : Step lists s e s') :
    Kept k s₀ (es ++ [e]) s' := by
  have hrun := hs.run.append (.single h)
  rcases step_cases h k with ⟨rfl, hwritten⟩ | ⟨hne, hsame, hactive⟩
  · exact ⟨hrun, fun _ => hwritten, _, [], s', (List.append_nil _).symm, hrun, .inr (by simp), by simp, .nil _,
      hwritten⟩
  · refine ⟨hrun, fun hidle hwhole => ?_, ?_⟩
    · rcases hactive with hactive | hvector
      · exact absurd (hidle.symm.trans hactive) (by decide)
      · rw [hvector] at hidle hwhole ⊢
        rw [hsame]
        exact hs.settled hidle hwhole
    · obtain ⟨before, after, mid, rfl, hbefore, hlast, hnone, hafter, hitems⟩ := hs.since
      refine ⟨before, after ++ [e], mid, List.append_assoc .., hbefore, hlast, ?_, hafter.append (.single h),
        fun hwhole => hsame.trans (hitems hwhole)⟩
      rw [List.mem_append, List.mem_singleton, not_or]
      exact ⟨hnone, fun heq => hne heq.symm⟩

/-- What is stored elsewhere in the document stays. -/
theorem other_paths {s s' : State lists} {es : List ((k : lists.Kind) × VectorOp (lists.Item k))}
    (h : Run (Step lists) s es s') {path : QString} (hpath : IsPath path)
    (hdiverge : ∀ k, Diverge (names path) (names (lists.path k))) :
    lists.store.get path s'.document = lists.store.get path s.document := by
  have hstep : ∀ t e t', lists.store.get path t.document = lists.store.get path s.document →
      Step lists t e t' → lists.store.get path t'.document = lists.store.get path s.document := by
    intro t e t' ht hstep
    cases hstep with
    | @op k op vector changed happly =>
      rw [← ht]
      cases changed with
      | true => exact lists.store.get_set_of_diverge _ _ _ _ hpath (lists.isPath k) (hdiverge k)
      | false => rfl
  exact @Run.invariant _ _ _ (fun t => lists.store.get path t.document = lists.store.get path s.document) hstep
    _ _ _ rfl h

/--
**A restart gives back the lists.** In every run and for every list, what a start with the document of the
run loads is what the list was when its timer last ran out, or when the run started, and it is the list as it
is now if its timer is not running, where the texts in it have no U+0000. Operations on the other lists make no
difference, and what has another path in the document is what it was at the start.
-/
theorem restarted {file : lists.store.Document} {s₀ s s' : State lists}
    {es : List ((k : lists.Kind) × VectorOp (lists.Item k))} (h₀ : Started lists file s₀)
    (h : Run (Step lists) s₀ es s) (h' : Started lists s.document s') (k : lists.Kind) :
    ((s.vectors k).isActive = false → (∀ item ∈ (s.vectors k).items, lists.Whole k item) →
      (s'.vectors k).items = (s.vectors k).items) ∧
    (∃ before after mid, es = before ++ after ∧ Run (Step lists) s₀ before mid ∧
      (before = [] ∨ before.getLast? = some ⟨k, .timeout⟩) ∧ ⟨k, .timeout⟩ ∉ after ∧
      Run (Step lists) mid after s ∧
      ((∀ item ∈ (mid.vectors k).items, lists.Whole k item) →
        (s'.vectors k).items = (mid.vectors k).items)) ∧
    ∀ path, IsPath path → (∀ k, Diverge (names path) (names (lists.path k))) →
      lists.store.get path s'.document = lists.store.get path file := by
  have hstart : settingValue lists s₀.document k = (s₀.vectors k).items := by
    rw [items_of_started h₀ k, h₀.1]
  have hstep : ∀ es s e s', Kept k s₀ es s → Step lists s e s' → Kept k s₀ (es ++ [e]) s' :=
    fun _ _ _ _ hs h => kept_step hs h
  have hkept : Kept k s₀ es s := Run.history hstep
    ⟨.nil _, fun _ _ => hstart, [], [], s₀, rfl, .nil _, .inl rfl, by simp, .nil _, fun _ => hstart⟩ h
  rw [items_of_started h' k]
  refine ⟨hkept.settled, hkept.since, fun path hpath hdiverge => ?_⟩
  rw [h'.1, other_paths h hpath hdiverge, h₀.1]

/-! ## The lists of the program -/

inductive ListKind
  | highlightedMessages
  | blacklistedUsers
  | highlightedBadges
  | highlightedUsers
  | ignoredMessages
  | mutedChannels
  | filterRecords
  | nicknames
  | moderationActions
deriving DecidableEq

namespace ListKind

/-- The path that `ConcurrentSettings` passes to `persist`. -/
def path : ListKind → String
  | highlightedMessages => "/highlighting/highlights"
  | blacklistedUsers => "/highlighting/blacklist"
  | highlightedBadges => "/highlighting/badges"
  | highlightedUsers => "/highlighting/users"
  | ignoredMessages => "/ignore/phrases"
  | mutedChannels => "/pings/muted"
  | filterRecords => "/filtering/filters"
  | nicknames => "/nicknames"
  | moderationActions => "/moderation/actions"

theorem isPath (k : ListKind) : IsPath k.path.toList := by
  cases k <;> decide

theorem diverge (k k' : ListKind) (h : k ≠ k') : Diverge (names k.path.toList) (names k'.path.toList) := by
  cases k <;> cases k' <;> first | exact absurd rfl h | exact ⟨by decide, by decide⟩

variable (QUrl QUuid : Type)

def Item : ListKind → Type
  | highlightedMessages => HighlightPhrase QUrl
  | blacklistedUsers => HighlightBlacklistUser
  | highlightedBadges => HighlightBadge QUrl
  | highlightedUsers => HighlightPhrase QUrl
  | ignoredMessages => IgnorePhrase
  | mutedChannels => QString
  | filterRecords => Filters.FilterRecord QUuid
  | nicknames => Nickname
  | moderationActions => ModerationButton

end ListKind

section ConcurrentSettings

variable (store : SettingStore) {QUrl QUuid : Type} (lib : Library QUrl QUuid) (isRegex isCaseSensitive : Bool)

def ListKind.converter : (k : ListKind) → Converter (k.Item QUrl QUuid)
  | highlightedMessages => highlightPhrase lib
  | blacklistedUsers => highlightBlacklistUser lib
  | highlightedBadges => highlightBadge lib
  | highlightedUsers => highlightPhrase lib
  | ignoredMessages => ignorePhrase lib
  | mutedChannels => stringConverter
  | filterRecords => filterRecordPtr lib
  | nicknames => nickname lib isRegex isCaseSensitive
  | moderationActions => moderationAction

/-- The lists that the constructor of `ConcurrentSettings` makes persistent. -/
def concurrentSettings : PersistedLists where
  store := store
  Kind := ListKind
  Item := ListKind.Item QUrl QUuid
  serialize k := lib.writeList (ListKind.converter lib isRegex isCaseSensitive k).serialize
  deserialize k := lib.readList (ListKind.converter lib isRegex isCaseSensitive k).deserialize
  Whole k := (ListKind.converter lib isRegex isCaseSensitive k).Whole
  deserialize_serialize k items h := lib.readList_writeList _ _ items fun item hitem =>
    (ListKind.converter lib isRegex isCaseSensitive k).deserialize_serialize item (h item hitem)
  path k := k.path.toList
  isPath := ListKind.isPath
  diverge := ListKind.diverge

end ConcurrentSettings

/-- An array of the items, and texts for urls and ids. An id has no U+0000. -/
def plainLibrary : Library QString {s : QString // WholeString s} where
  writeBool := .bool
  readBool := (·.toBool false)
  readBool_writeBool _ := rfl
  writeList write items := .array (items.map write)
  readList read
    | .array values => values.mapM read
    | _ => none
  readList_writeList write read items h := by
    show (items.map write).mapM read = some items
    induction items with
    | nil => rfl
    | cons item items ih =>
      rw [List.forall_mem_cons] at h
      simp [h.1, ih h.2]
  urlOf := id
  urlText := id
  urlOf_urlText _ := rfl
  uuidOf s := if h : WholeString s then ⟨s, h⟩ else ⟨[], nofun⟩
  uuidText := Subtype.val
  uuidOf_uuidText id := dif_pos id.property
  wholeString_uuidText id := id.property
  namedColor _ := none

/-- The lists in a document that is one value, with nicknames that start without their flags. -/
abbrev plainLists : PersistedLists := concurrentSettings SettingManager.store plainLibrary false false

theorem restarted_muted : ∃ s : State plainLists,
    s.document = .object [("pings".toList, .object [("muted".toList, .array [.string "forsen".toList])])] ∧
      ((start plainLists s.document).vectors .mutedChannels).items = (s.vectors .mutedChannels).items := by
  have hrun : ∃ s, Run (Step plainLists) (start plainLists (.object []))
      [⟨.mutedChannels, .insert "forsen".toList none⟩, ⟨.mutedChannels, .timeout⟩] s ∧
      s.document = .object [("pings".toList, .object [("muted".toList, .array [.string "forsen".toList])])] ∧
      (s.vectors .mutedChannels).isActive = false ∧ (s.vectors .mutedChannels).items = ["forsen".toList] :=
    ⟨_, .cons (.op rfl) (.cons (.op rfl) (.nil _)), rfl, rfl, rfl⟩
  obtain ⟨s, hrun, hdocument, hidle, hitems⟩ := hrun
  refine ⟨s, hdocument, (restarted (started_start _ _) hrun (started_start _ _) .mutedChannels).1 hidle ?_⟩
  rw [hitems]
  exact List.forall_mem_singleton.mpr (by decide : WholeString "forsen".toList)

end Persist

end Dankerino
