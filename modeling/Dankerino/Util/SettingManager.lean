import Dankerino.Qt.QJson
import Mathlib.Data.List.TakeWhile

/-!
# The settings document

`SettingManager` of the settings library, as far as it is used: values are stored at paths, and `'/'`
separates the names of nested objects. A value that is no object becomes one when something is stored
below it. An object keeps the order in which its members were added.

`SettingStore` is what can be relied on without that: a value is read back where it was stored, and stays when
something is stored elsewhere. `SettingStore.Nested` adds that `'/'` separates nested objects, whatever the
names are. The document here is such a store.
-/

namespace Dankerino

namespace SettingManager

/-! ## Paths -/

/-- The names on a path, which starts with a `'/'`. -/
def names (path : QString) : List QString := (path.splitOn '/').tail

/-- Writes a member, behind the others if it is new. -/
def setMember (k : QString) (v : QJsonValue) : QJsonObject → QJsonObject
  | [] => [(k, v)]
  | (k', w) :: o => if k' = k then (k, v) :: o else (k', w) :: setMember k v o

def getValue : List QString → QJsonValue → QJsonValue
  | [], node => node
  | k :: ks, node => getValue ks ((List.lookup k node.toObject).getD .undefined)

def setValue : List QString → QJsonValue → QJsonValue → QJsonValue
  | [], v, _ => v
  | k :: ks, v, node => .object (setMember k (setValue ks v (getValue [k] node)) node.toObject)

/-- `Setting<T>::get`, without the conversion. -/
def get (path : QString) (document : QJsonValue) : QJsonValue := getValue (names path) document

def set (path : QString) (v document : QJsonValue) : QJsonValue := setValue (names path) v document

/-! ## Texts -/

/-- A text is handed on as a C string, which ends before a U+0000. -/
def cString (s : QString) : QString := s.takeWhile fun c => c ≠ '\x00'

/-- `Serialize<QString>`. -/
def writeString (s : QString) : QJsonValue := .string (cString s)

/-- `Deserialize<QString>`. -/
def readString : QJsonValue → QString
  | .string s => s
  | _ => []

def WholeString (s : QString) : Prop := '\x00' ∉ s

instance (s : QString) : Decidable (WholeString s) := inferInstanceAs (Decidable (_ ∉ _))

/-- The conversion to `std::vector<QString>`. -/
def toStrings (v : QJsonValue) : List QString := v.toArray.map readString

def ofStrings (strings : List QString) : QJsonValue := .array (strings.map writeString)

theorem cString_eq {s : QString} (h : WholeString s) : cString s = s := by
  refine List.takeWhile_eq_self_iff.mpr fun c hc => ?_
  rw [decide_eq_true_eq]
  rintro rfl
  exact h hc

theorem wholeString_cString (s : QString) : WholeString (cString s) := by
  intro h
  simpa using List.mem_takeWhile_imp h

theorem readString_writeString {s : QString} (h : WholeString s) : readString (writeString s) = s :=
  cString_eq h

theorem toStrings_ofStrings (strings : List QString) :
    toStrings (ofStrings strings) = strings.map cString := by
  rw [toStrings, ofStrings, QJsonValue.toArray, List.map_map]
  rfl

theorem toStrings_ofStrings_of_whole {strings : List QString} (h : ∀ s ∈ strings, WholeString s) :
    toStrings (ofStrings strings) = strings := by
  rw [toStrings_ofStrings, List.map_congr_left fun s hs => cString_eq (h s hs)]
  exact List.map_id _

/-! ## Names -/

theorem notMem_of_mem_splitOn {c : Char} {s t : QString} (h : t ∈ s.splitOn c) : c ∉ t := by
  induction s generalizing t with
  | nil =>
    rw [List.splitOn_nil, List.mem_singleton] at h
    subst h
    exact List.not_mem_nil
  | cons x s ih =>
    rw [List.splitOn_cons_eq_if_modifyHead] at h
    split at h
    · rcases List.mem_cons.mp h with rfl | h
      · exact List.not_mem_nil
      · exact ih h
    · next hx =>
      cases hs : s.splitOn c with
      | nil =>
        rw [hs] at h
        exact nomatch h
      | cons head rest =>
        rw [hs, List.modifyHead_cons] at h
        rcases List.mem_cons.mp h with rfl | h
        · have hhead := ih (hs ▸ List.mem_cons_self)
          have hne : c ≠ x := fun heq => hx (by simp [heq])
          simp [hne, hhead]
        · exact ih (hs ▸ List.mem_cons_of_mem _ h)

/-- A path and what is below it. -/
theorem names_append (path below : QString) :
    names (path ++ '/' :: below) = names path ++ below.splitOn '/' := by
  rw [names, List.splitOn_append_cons_self, List.tail_append_of_ne_nil (List.splitOn_ne_nil _ _)]
  rfl

/-! ## Members -/

theorem lookup_setMember (k : QString) (v : QJsonValue) (o : QJsonObject) (k' : QString) :
    List.lookup k' (setMember k v o) = if k' = k then some v else List.lookup k' o := by
  induction o with
  | nil =>
    by_cases hk : k' = k <;> simp [setMember, List.lookup_cons, hk, beq_eq_false_iff_ne.mpr]
  | cons entry o ih =>
    obtain ⟨h, w⟩ := entry
    rw [setMember]
    by_cases hh : h = k
    · subst hh
      rw [if_pos rfl, List.lookup_cons, List.lookup_cons]
      by_cases hk : k' = h
      · simp [hk]
      · simp [hk, beq_eq_false_iff_ne.mpr hk]
    · rw [if_neg hh, List.lookup_cons, List.lookup_cons, ih]
      by_cases hk : k' = h
      · subst hk
        simp [hh]
      · simp [beq_eq_false_iff_ne.mpr hk]

theorem mem_keys_setMember {k : QString} {v : QJsonValue} {o : QJsonObject} {k' : QString} :
    k' ∈ (setMember k v o).map Prod.fst ↔ k' = k ∨ k' ∈ o.map Prod.fst := by
  induction o with
  | nil => simp [setMember]
  | cons entry o ih =>
    obtain ⟨h, w⟩ := entry
    rw [setMember]
    by_cases hh : h = k
    · simp [hh]
    · rw [if_neg hh, List.map_cons, List.mem_cons, ih, List.map_cons, List.mem_cons]
      exact or_left_comm

/-- A new member comes last. -/
theorem setMember_append {k : QString} (v : QJsonValue) {o : QJsonObject} (h : k ∉ o.map Prod.fst)
    (o' : QJsonObject) : setMember k v (o ++ o') = o ++ setMember k v o' := by
  induction o with
  | nil => rfl
  | cons entry o ih =>
    obtain ⟨h', w⟩ := entry
    rw [List.map_cons, List.mem_cons, not_or] at h
    rw [List.cons_append, setMember, if_neg (Ne.symm h.1), ih h.2, List.cons_append]

/-! ## Values -/

@[simp]
theorem getValue_nil (node : QJsonValue) : getValue [] node = node := rfl

theorem getValue_append (ks ks' : List QString) (node : QJsonValue) :
    getValue (ks ++ ks') node = getValue ks' (getValue ks node) := by
  induction ks generalizing node with
  | nil => rfl
  | cons k ks ih =>
    rw [List.cons_append, getValue, getValue, ih]

/-- What is stored below a path is stored in the value there. -/
theorem getValue_setValue_append (ks ks' : List QString) (v node : QJsonValue) :
    getValue ks (setValue (ks ++ ks') v node) = setValue ks' v (getValue ks node) := by
  induction ks generalizing node with
  | nil => rfl
  | cons k ks ih =>
    rw [List.cons_append, setValue, getValue, QJsonValue.toObject, lookup_setMember, if_pos rfl,
      Option.getD_some, ih]
    rfl

/-- No text in the value has a U+0000. -/
def WholeTexts (node : QJsonValue) : Prop :=
  ∀ ks, WholeString (readString (getValue ks node)) ∧ ∀ s ∈ toStrings (getValue ks node), WholeString s

theorem wholeTexts_undefined : WholeTexts .undefined := by
  intro ks
  induction ks with
  | nil => exact ⟨List.not_mem_nil, fun s hs => nomatch hs⟩
  | cons k ks ih => exact ih

theorem wholeTexts_empty : WholeTexts (.object [])
  | [] => ⟨List.not_mem_nil, fun _ hs => nomatch hs⟩
  | _ :: ks => wholeTexts_undefined ks

theorem wholeTexts_writeString (s : QString) : WholeTexts (writeString s)
  | [] => ⟨wholeString_cString s, fun _ ht => nomatch ht⟩
  | _ :: ks => wholeTexts_undefined ks

theorem wholeTexts_ofStrings (strings : List QString) : WholeTexts (ofStrings strings)
  | [] => by
    refine ⟨List.not_mem_nil, fun s hs => ?_⟩
    rw [getValue_nil, toStrings_ofStrings] at hs
    obtain ⟨t, -, rfl⟩ := List.mem_map.mp hs
    exact wholeString_cString t
  | _ :: ks => wholeTexts_undefined ks

/-- What is stored has whole texts, and so has the value then. -/
theorem WholeTexts.setValue {v : QJsonValue} (hv : WholeTexts v) (path : List QString) {node : QJsonValue}
    (hnode : WholeTexts node) : WholeTexts (setValue path v node) := by
  induction path generalizing node with
  | nil => exact hv
  | cons k path ih =>
    have hmember : WholeTexts (getValue [k] node) := fun ks => hnode (k :: ks)
    intro ks
    cases ks with
    | nil => exact ⟨List.not_mem_nil, fun s hs => nomatch hs⟩
    | cons k' ks =>
      rw [SettingManager.setValue, getValue, QJsonValue.toObject, lookup_setMember]
      split
      · exact ih hmember ks
      · exact hnode (k' :: ks)

/-! ## Stores -/

/-- Neither path leads to what the other one leads through. -/
def Diverge (ks ks' : List QString) : Prop := ¬ ks <+: ks' ∧ ¬ ks' <+: ks

/-- What is stored at a path does not change what is at another one. -/
theorem getValue_setValue_of_diverge {ks ks' : List QString} (h : Diverge ks ks') (v node : QJsonValue) :
    getValue ks (setValue ks' v node) = getValue ks node := by
  induction ks generalizing ks' node with
  | nil => exact absurd List.nil_prefix h.1
  | cons k ks ih =>
    cases ks' with
    | nil => exact absurd List.nil_prefix h.2
    | cons k' ks' =>
      rw [setValue, getValue, QJsonValue.toObject, lookup_setMember]
      by_cases hk : k = k'
      · subst hk
        have hrest : Diverge ks ks' :=
          ⟨fun hp => h.1 (List.cons_prefix_cons.mpr ⟨rfl, hp⟩),
            fun hp => h.2 (List.cons_prefix_cons.mpr ⟨rfl, hp⟩)⟩
        rw [if_pos rfl, Option.getD_some, ih hrest]
        rfl
      · rw [if_neg hk]
        rfl

theorem getValue_setValue_self (ks : List QString) (v node : QJsonValue) :
    getValue ks (setValue ks v node) = v := by
  have h := getValue_setValue_append ks [] v node
  rw [List.append_nil] at h
  exact h

/-- A path whose names have a letter, so that none is an index in an array, and no escapes. -/
def IsPath (path : QString) : Prop :=
  path.head? = some '/' ∧ ∀ name ∈ names path, name.any Char.isAlpha = true ∧ '~' ∉ name

instance (path : QString) : Decidable (IsPath path) := inferInstanceAs (Decidable (_ ∧ _))

end SettingManager

open SettingManager

/-- The store of the settings library. The value at a path is `undefined` if there is none. -/
structure SettingStore where
  Document : Type
  get : QString → Document → QJsonValue
  set : QString → QJsonValue → Document → Document
  get_set_self : ∀ path v document, IsPath path → get path (set path v document) = v
  get_set_of_diverge : ∀ path path' v document, IsPath path → IsPath path' →
    Diverge (names path) (names path') → get path (set path' v document) = get path document

namespace SettingStore

def getObjectKeys (store : SettingStore) (path : QString) (document : store.Document) : List QString :=
  (store.get path document).toObject.map Prod.fst

/-- A `'/'` separates the names of nested objects, and nothing else in a path is special. -/
structure Nested (store : SettingStore) : Prop where
  get_set : ∀ path v document, store.get path (store.set path v document) = v
  get_below : ∀ path below document,
    store.get (path ++ '/' :: below) document = getValue (below.splitOn '/') (store.get path document)
  get_set_below : ∀ path below v document, store.get path (store.set (path ++ '/' :: below) v document)
    = setValue (below.splitOn '/') v (store.get path document)

end SettingStore

/-- The document that is one value. -/
def SettingManager.store : SettingStore where
  Document := QJsonValue
  get := SettingManager.get
  set := SettingManager.set
  get_set_self path v document _ := getValue_setValue_self (names path) v document
  get_set_of_diverge _ _ v document _ _ h := getValue_setValue_of_diverge h v document

theorem SettingManager.nested_store : store.Nested where
  get_set path v document := getValue_setValue_self (names path) v document
  get_below path below (document : QJsonValue) := by
    have hget := getValue_append (names path) (below.splitOn '/') document
    rw [← names_append] at hget
    exact hget
  get_set_below path below v (document : QJsonValue) := by
    have hget := getValue_setValue_append (names path) (below.splitOn '/') v document
    rw [← names_append] at hget
    exact hget

end Dankerino
