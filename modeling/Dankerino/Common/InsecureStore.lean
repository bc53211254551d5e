import Dankerino.Common.Credentials
import Dankerino.Qt.PlaceMarkers
import Dankerino.Qt.QJson

/-!
# The insecure credential store

`Credentials::get`, `set` and `erase` without a keychain. The credentials are the entries of a JSON
document, which a timer writes to `credentials.json` after a change. `QJsonDocument::object` returns a
copy: `set` puts the changed copy back, `erase` does not.

* `IsMap` says that a document is the map that the calls describe.
* `formatName_inj`: two pairs of a provider and a name do not share a key.
* `faithful_iff_erasesNothing`: the document stays that map exactly as long as no call erases an
  entry that is there.
-/

namespace Dankerino

inductive QJsonDocument where
  | null
  | ofArray (a : QJsonArray)
  | ofObject (o : QJsonObject)

/-- `object`, a copy of the object. It is empty if the document has none. -/
def QJsonDocument.object : QJsonDocument → QJsonObject
  | .ofObject o => o
  | _ => []

/-- `setObject`. -/
def QJsonDocument.setObject (_ : QJsonDocument) (o : QJsonObject) : QJsonDocument := .ofObject o

namespace Credentials

/-- The name of a provider. Each caller passes the literal `"irc"`. -/
structure Provider where
  text : QString
  /-- The assertion of `FORMAT_NAME`. -/
  noColon : ':' ∉ text
  noMarker : QString.markers text = []

structure InsecureStore where
  /-- `insecureInstance`. -/
  store : QJsonDocument
  isQueued : Bool := false
  /-- The document in `credentials.json`. -/
  file : QJsonDocument

namespace InsecureStore

/-- The first use of `insecureInstance`. -/
def loadInsecure (file : QJsonDocument) : InsecureStore := { store := file, file := file }

def queueInsecureSave (s : InsecureStore) : InsecureStore :=
  if !s.isQueued then { s with isQueued := true } else s

/-- The callback of the timer that `queueInsecureSave` starts. -/
def storeInsecure (s : InsecureStore) : InsecureStore :=
  { s with file := s.store, isQueued := false }

/-- What `onLoaded` is called with. -/
def get (s : InsecureStore) (provider name_ : QString) : QString :=
  (QJsonObject.value s.store.object (String.ofList (formatName provider name_))).toString

def set (s : InsecureStore) (provider name_ credential : QString) : InsecureStore :=
  let obj := QJsonObject.insert s.store.object (String.ofList (formatName provider name_))
    (.string credential)
  queueInsecureSave { s with store := s.store.setObject obj }

def erase (s : InsecureStore) (provider name_ : QString) : InsecureStore :=
  let name := formatName provider name_
  -- The entry is erased from another copy, which nothing refers to.
  let _object : QJsonObject :=
    if QJsonObject.contains s.store.object (String.ofList name) then
      s.store.object.filter (·.1 != name)
    else s.store.object
  queueInsecureSave s

/-! ## Runs -/

/-- A call that changes the map. -/
inductive Call where
  | set (provider : Provider) (name_ credential : QString)
  | erase (provider : Provider) (name_ : QString)

inductive Event where
  | call (c : Call)
  | get (provider : Provider) (name_ : QString)
  | timeout

/-- The store with the calls so far. -/
structure History where
  insecure : InsecureStore
  calls : List Call := []

inductive Step : History → Event → History → Prop
  | set (h : History) (provider : Provider) (name_ credential : QString) :
      Step h (.call (.set provider name_ credential))
        ⟨h.insecure.set provider.text name_ credential, h.calls ++ [.set provider name_ credential]⟩
  | erase (h : History) (provider : Provider) (name_ : QString) :
      Step h (.call (.erase provider name_))
        ⟨h.insecure.erase provider.text name_, h.calls ++ [.erase provider name_]⟩
  | get (h : History) (provider : Provider) (name_ : QString) : Step h (.get provider name_) h
  | timeout (h : History) (hqueued : h.insecure.isQueued = true) :
      Step h .timeout { h with insecure := h.insecure.storeInsecure }

/-! ## The map -/

/-- What the call says of the pair: a credential, no credential, or nothing. -/
def Call.entryFor (provider : Provider) (name_ : QString) : Call → Option (Option QString)
  | .set provider' name' credential =>
    if provider'.text = provider.text ∧ name' = name_ then some (some credential) else none
  | .erase provider' name' =>
    if provider'.text = provider.text ∧ name' = name_ then some none else none

/-- The entry of the pair: what the last call for it says, or else what was loaded. -/
def entry (loaded : QJsonDocument) (calls : List Call) (provider : Provider) (name_ : QString) :
    Option QJsonValue :=
  match calls.reverse.findSome? (Call.entryFor provider name_) with
  | some said => said.map .string
  | none => List.lookup (formatName provider.text name_) loaded.object

/-- The document holds the map that the calls have made of the loaded document. -/
structure IsMap (loaded : QJsonDocument) (calls : List Call) (doc : QJsonDocument) : Prop where
  entry (provider : Provider) (name_ : QString) :
    List.lookup (formatName provider.text name_) doc.object = entry loaded calls provider name_
  /-- What is not an entry of a pair stays as it was loaded. -/
  other (key : QString) (hkey : ∀ (provider : Provider) (name_ : QString),
    key ≠ formatName provider.text name_) : List.lookup key doc.object = List.lookup key loaded.object

/-- What the store is for. -/
structure Faithful (loaded : QJsonDocument) (h : History) : Prop where
  /-- `get` yields what the last call for the pair says. -/
  get (provider : Provider) (name_ : QString) :
    h.insecure.get provider.text name_
      = ((entry loaded h.calls provider name_).map QJsonValue.toString).getD []
  store : IsMap loaded h.calls h.insecure.store
  /-- So does the file, once the timer has run. -/
  file : h.insecure.isQueued = false → IsMap loaded h.calls h.insecure.file

/-- An erased pair has no entry. -/
def ErasesNothing (h : History) : Event → Prop
  | .call (.erase provider name_) =>
    List.lookup (formatName provider.text name_) h.insecure.store.object = none
  | _ => True

/-! ## Keys -/

theorem arg_provider (provider : QString) :
    QString.arg "chatterino:%1:%2".toList provider
      = "chatterino:".toList ++ (provider ++ ":%2".toList) := by
  have hmin : (QString.markers "chatterino:%1:%2".toList).min? = some 1 := by decide +kernel
  unfold QString.arg
  rw [hmin]
  have hpieces : QString.pieces "chatterino:%1:%2".toList
      = "chatterino:".toList.map .char ++ [.marker 1 "%1".toList, .char ':', .marker 2 "%2".toList] := by
    decide +kernel
  simp only [QString.substitute, hpieces, List.flatMap_append]
  rfl

theorem formatName_eq (provider : Provider) (name_ : QString) :
    formatName provider.text name_ = "chatterino:".toList ++ (provider.text ++ ':' :: name_) := by
  have hplain : '%' ∉ "chatterino:".toList := by decide
  have hstops : QString.Stops ":%2".toList := QString.stops_cons (by decide) (by decide) _
  have hmarkers : QString.markers ("chatterino:".toList ++ (provider.text ++ ":%2".toList)) = [2] := by
    rw [QString.markers_plain_append hplain, QString.markers_append hstops, provider.noMarker]
    decide +kernel
  have hnot : 2 ∉ QString.markers provider.text := by
    rw [provider.noMarker]
    exact List.not_mem_nil
  have hlast : QString.substitute 2 name_ ":%2".toList = ':' :: name_ := by
    have hpieces : QString.pieces ":%2".toList = [.char ':', .marker 2 "%2".toList] := by decide +kernel
    unfold QString.substitute
    rw [hpieces]
    simp
  unfold formatName
  rw [arg_provider]
  unfold QString.arg
  rw [hmarkers]
  show QString.substitute 2 name_ _ = _
  rw [QString.substitute_plain_append hplain, QString.substitute_append hstops,
    QString.substitute_of_notMem hnot, hlast]

theorem append_colon_inj {provider provider' name_ name' : QString} (hcolon : ':' ∉ provider)
    (hcolon' : ':' ∉ provider') (h : provider ++ ':' :: name_ = provider' ++ ':' :: name') :
    provider = provider' ∧ name_ = name' := by
  rcases List.append_eq_append_iff.mp h with ⟨rest, rfl, hrest⟩ | ⟨rest, rfl, hrest⟩
  · cases rest with
    | nil => exact ⟨(List.append_nil _).symm, (List.cons.inj hrest).2⟩
    | cons c rest =>
      obtain rfl := (List.cons.inj hrest).1
      exact absurd (by simp) hcolon'
  · cases rest with
    | nil => exact ⟨List.append_nil _, (List.cons.inj hrest).2.symm⟩
    | cons c rest =>
      obtain rfl := (List.cons.inj hrest).1
      exact absurd (by simp) hcolon

/-- The first colon ends the provider, so a key belongs to one pair. -/
theorem formatName_inj {provider provider' : Provider} {name_ name' : QString} :
    formatName provider'.text name' = formatName provider.text name_ ↔
      provider'.text = provider.text ∧ name' = name_ := by
  constructor
  · intro h
    rw [formatName_eq, formatName_eq] at h
    have hrest := List.append_cancel_left h
    exact append_colon_inj provider'.noColon provider.noColon hrest
  · rintro ⟨hprovider, rfl⟩
    rw [hprovider]

/-! ## One step -/

theorem lookup_insert (o : QJsonObject) (name : QString) (v : QJsonValue) (key : QString) :
    List.lookup key (QJsonObject.insert o (String.ofList name) v)
      = if key = name then some v else List.lookup key o := by
  have h := QJsonObject.lookup_insert o (String.ofList name) v (String.ofList key)
  rw [String.toList_ofList] at h
  rw [h]
  by_cases hkey : key = name
  · rw [if_pos hkey, if_pos (congrArg String.ofList hkey)]
  · rw [if_neg hkey, if_neg (fun heq => hkey (String.ofList_injective heq))]

theorem Call.entryFor_set (provider provider' : Provider) (name_ name' credential : QString) :
    Call.entryFor provider' name' (.set provider name_ credential)
      = if provider.text = provider'.text ∧ name_ = name' then some (some credential) else none := rfl

theorem Call.entryFor_erase (provider provider' : Provider) (name_ name' : QString) :
    Call.entryFor provider' name' (.erase provider name_)
      = if provider.text = provider'.text ∧ name_ = name' then some none else none := rfl

theorem entry_append (loaded : QJsonDocument) (calls : List Call) (c : Call) (provider : Provider)
    (name_ : QString) :
    entry loaded (calls ++ [c]) provider name_
      = match Call.entryFor provider name_ c with
        | some said => said.map .string
        | none => entry loaded calls provider name_ := by
  unfold entry
  rw [List.reverse_append, List.reverse_singleton, List.singleton_append, List.findSome?_cons]
  cases Call.entryFor provider name_ c <;> rfl

theorem IsMap.set {loaded doc : QJsonDocument} {calls : List Call} (h : IsMap loaded calls doc)
    (provider : Provider) (name_ credential : QString) :
    IsMap loaded (calls ++ [.set provider name_ credential])
      (doc.setObject (QJsonObject.insert doc.object (String.ofList (formatName provider.text name_))
        (.string credential))) where
  entry := by
    intro provider' name'
    have hinj := @formatName_inj provider provider' name_ name'
    rw [entry_append]
    show List.lookup _ (QJsonObject.insert doc.object _ _) = _
    rw [lookup_insert, Call.entryFor_set]
    by_cases hpair : provider.text = provider'.text ∧ name_ = name'
    · rw [if_pos hpair, if_pos (hinj.mpr ⟨hpair.1.symm, hpair.2.symm⟩)]
      rfl
    · rw [if_neg hpair, if_neg (fun heq => hpair ⟨(hinj.mp heq).1.symm, (hinj.mp heq).2.symm⟩)]
      exact h.entry provider' name'
  other := by
    intro key hkey
    show List.lookup _ (QJsonObject.insert doc.object _ _) = _
    rw [lookup_insert, if_neg (hkey provider name_)]
    exact h.other key hkey

/-- An erased pair that has no entry. -/
theorem IsMap.erase {loaded doc : QJsonDocument} {calls : List Call} (h : IsMap loaded calls doc)
    (provider : Provider) (name_ : QString) :
    IsMap loaded (calls ++ [.erase provider name_]) doc ↔
      List.lookup (formatName provider.text name_) doc.object = none := by
  constructor
  · intro h'
    rw [h'.entry, entry_append]
    simp [Call.entryFor]
  · intro hnone
    refine ⟨fun provider' name' => ?_, h.other⟩
    rw [entry_append, Call.entryFor_erase]
    by_cases hpair : provider.text = provider'.text ∧ name_ = name'
    · rw [if_pos hpair, ← hpair.1, ← hpair.2, hnone]
      rfl
    · rw [if_neg hpair]
      exact h.entry provider' name'

/-! ## The store over a run -/

theorem queueInsecureSave_store (s : InsecureStore) : s.queueInsecureSave.store = s.store := by
  unfold queueInsecureSave
  split <;> rfl

theorem queueInsecureSave_isQueued (s : InsecureStore) : s.queueInsecureSave.isQueued = true := by
  unfold queueInsecureSave
  cases hqueued : s.isQueued <;> simp [hqueued]

/-- `get` reads the document. -/
theorem faithful_of_isMap {loaded : QJsonDocument} {h : History}
    (hstore : IsMap loaded h.calls h.insecure.store)
    (hfile : h.insecure.isQueued = false → IsMap loaded h.calls h.insecure.file) :
    Faithful loaded h where
  store := hstore
  file := hfile
  get := by
    intro provider name_
    unfold InsecureStore.get QJsonObject.value
    rw [String.toList_ofList, hstore.entry]
    cases entry loaded h.calls provider name_ <;> rfl

/-- After a call the file is only read again when the timer has run. -/
theorem faithful_queued {loaded : QJsonDocument} {s : InsecureStore} {calls : List Call} :
    Faithful loaded ⟨s.queueInsecureSave, calls⟩ ↔ IsMap loaded calls s.store := by
  constructor
  · intro h
    have hstore := h.store
    rw [queueInsecureSave_store] at hstore
    exact hstore
  · intro h
    refine faithful_of_isMap ?_ ?_
    · rw [queueInsecureSave_store]
      exact h
    · intro hqueued
      rw [queueInsecureSave_isQueued] at hqueued
      exact nomatch hqueued

theorem faithful_step {loaded : QJsonDocument} {h h' : History} {e : Event}
    (hfaithful : Faithful loaded h) (hstep : Step h e h') :
    Faithful loaded h' ↔ ErasesNothing h e := by
  cases hstep with
  | set provider name_ credential =>
    exact iff_of_true (faithful_queued.mpr (hfaithful.store.set provider name_ credential)) trivial
  | erase provider name_ => exact faithful_queued.trans (hfaithful.store.erase provider name_)
  | get => exact iff_of_true hfaithful trivial
  | timeout hqueued =>
    exact iff_of_true (faithful_of_isMap hfaithful.store fun _ => hfaithful.store) trivial

theorem faithful_loadInsecure (loaded : QJsonDocument) : Faithful loaded { insecure := loadInsecure loaded } :=
  have hmap : IsMap loaded [] loaded := ⟨fun _ _ => rfl, fun _ _ => rfl⟩
  faithful_of_isMap hmap fun _ => hmap

/-- The store is the map of the calls throughout a run exactly if no call erases an entry. -/
theorem faithful_iff_erasesNothing (loaded : QJsonDocument) (events : List Event) (h : History) :
    Infra.Run (fun h e h' => Step h e h' ∧ Faithful loaded h') { insecure := loadInsecure loaded }
        events h ↔
      Infra.Run (fun h e h' => Step h e h' ∧ ErasesNothing h e) { insecure := loadInsecure loaded }
        events h := by
  have hinv : ∀ s (l : Event) s', True → Step s l s' → True := fun _ _ _ _ _ => trivial
  have hstep : ∀ s l s', True → Faithful loaded s → Step s l s' →
      (Faithful loaded s' ↔ ErasesNothing s l) := fun _ _ _ _ hfaithful hstep =>
    faithful_step hfaithful hstep
  exact Infra.Run.guarded_iff hinv hstep trivial (faithful_loadInsecure loaded)

/-- The provider of the callers. -/
def irc : Provider := ⟨"irc".toList, by decide, by decide +kernel⟩

/-- A credential is set and erased, and is still there. -/
theorem erased_credential_kept :
    ∃ h : History,
      Infra.Run Step { insecure := loadInsecure .null }
        [.call (.set irc "a".toList "1".toList), .call (.erase irc "a".toList), .timeout,
          .get irc "a".toList] h ∧
      h.insecure.get irc.text "a".toList = "1".toList ∧
      h.calls.getLast?.bind (Call.entryFor irc "a".toList) = some none ∧
      ¬ Faithful .null h := by
  have hget : ∀ doc : QJsonDocument,
      QJsonObject.value (QJsonObject.insert doc.object (String.ofList (formatName irc.text "a".toList))
        (.string "1".toList)) (String.ofList (formatName irc.text "a".toList)) = .string "1".toList :=
    fun doc => QJsonObject.value_insert_self _ _ _
  have hstored := congrArg QJsonValue.toString (hget .null)
  refine ⟨_, .cons (.set _ _ _ _) (.cons (.erase _ _ _) (.cons (.timeout _ rfl)
    (.cons (.get _ _ _) (.nil _)))), hstored, by decide, ?_⟩
  intro hfaithful
  have hempty := hfaithful.get irc "a".toList
  rw [entry_append, Call.entryFor_erase, if_pos ⟨rfl, rfl⟩] at hempty
  exact absurd (hstored.symm.trans hempty) (by decide)

end InsecureStore

end Credentials

end Dankerino
