import Mathlib.Data.List.Perm.Basic
import Dankerino.Infra.Run
import Dankerino.Qt.QJson

/-!
# Badge icons

`TwitchBadges`: requests for the icon of a badge wait in a queue until the badges are loaded, and are
then answered from a map of icons, or load an image first. Requests come from any thread, also while
`loaded` is emptying the queue, so that each turn of its loop is a step of its own. A callback is a
number.

`answered`: in every run each request is waiting, loading, answered once, or given up for one of two
reasons, and an answer is made from the image of the badge that was asked for.
-/

namespace Dankerino

open Infra

namespace TwitchBadges

/-- The `Emote` of a badge. -/
structure BadgeEmote where
  image1 : QString
  image2 : QString
  image3 : QString
  tooltip : QString
  homePage : QString
deriving DecidableEq

/-- `badgeSets_`: versions by the name of the set. -/
abbrev BadgeSets := List (QString × List (QString × BadgeEmote))

def parseVersion (versionObj : QJsonObject) : BadgeEmote where
  image1 := (versionObj.value "image_url_1x").toString
  image2 := (versionObj.value "image_url_2x").toString
  image3 := (versionObj.value "image_url_4x").toString
  tooltip := (versionObj.value "title").toString
  homePage := (versionObj.value "click_url").toString

/-- What `loadTwitchBadges` reads from the reply. -/
def parseBadgeSets (root : QJsonObject) : BadgeSets :=
  (root.value "badge_sets").toObject.map fun (key, set) =>
    (key, (set.toObject.value "versions").toObject.map fun (version, versionObj) =>
      (version, parseVersion versionObj.toObject))

/-- An icon, with the url of the image that it was read from. -/
structure QIcon (ι : Type) where
  url : QString
  image : ι

/-- A request of `loadEmoteImage` that has no reply yet. -/
structure Load where
  name : QString
  url : QString
  callback : Nat

end TwitchBadges

/-- The fields of `TwitchBadges`, and what became of the requests. -/
structure TwitchBadges (ι : Type) where
  loaded_ : Bool
  /-- `loaded` is emptying the queue. -/
  flushing : Bool
  badgeSets_ : TwitchBadges.BadgeSets
  callbackQueue_ : List (QString × Nat)
  badgesMap_ : List (QString × TwitchBadges.QIcon ι)
  loads : List TwitchBadges.Load
  asked : List (QString × Nat)
  called : List ((QString × Nat) × TwitchBadges.QIcon ι)
  /-- There is no badge of the name. -/
  unknown : List (QString × Nat)
  /-- The image could not be loaded or read. -/
  failed : List (QString × Nat)

namespace TwitchBadges

variable {ι : Type}

def new : TwitchBadges ι where
  loaded_ := false
  flushing := false
  badgeSets_ := []
  callbackQueue_ := []
  badgesMap_ := []
  loads := []
  asked := []
  called := []
  unknown := []
  failed := []

/-! ## Looking up badges -/

-- what the iteration of a hash map starts with is up to the library
variable (begin : List (QString × BadgeEmote) → Option BadgeEmote)

/-- `badge` with a version. -/
def badgeVersion (sets : BadgeSets) (set version : QString) : Option BadgeEmote :=
  (sets.lookup set).bind fun versions => versions.lookup version

/-- `badge` without a version. -/
def badge (sets : BadgeSets) (set : QString) : Option BadgeEmote :=
  (sets.lookup set).bind fun versions => if versions.length > 0 then begin versions else none

/-- The badge of a text `"name1/version1,name2/version2"`, or of a name. -/
def find (sets : BadgeSets) (name : QString) : Option BadgeEmote :=
  match ((name.splitOn ',').headD []).splitOn '/' with
  | [set, version] => badgeVersion sets set version
  | targetBadge => badge begin sets (targetBadge.headD [])

/-! ## Operations -/

def getBadgeIcon (name : QString) (callback : Nat) (s : TwitchBadges ι) : TwitchBadges ι :=
  if !s.loaded_ then { s with callbackQueue_ := s.callbackQueue_ ++ [(name, callback)] }
  else
    match s.badgesMap_.lookup name with
    | some icon => { s with called := s.called ++ [((name, callback), icon)] }
    | none =>
      match find begin s.badgeSets_ name with
      | some emote => { s with loads := s.loads ++ [⟨name, emote.image3, callback⟩] }
      | none => { s with unknown := s.unknown ++ [(name, callback)] }

/-- `loaded`, up to its loop. -/
def loaded (s : TwitchBadges ι) : TwitchBadges ι := { s with loaded_ := true, flushing := true }

/-- One turn of the loop in `loaded`. -/
def flush (s : TwitchBadges ι) : TwitchBadges ι :=
  match s.callbackQueue_ with
  | [] => { s with flushing := false }
  | (name, callback) :: queue => getBadgeIcon begin name callback { s with callbackQueue_ := queue }

/-- The reply to the request of the index, with an image that can be read. -/
def imageLoaded (i : Nat) (load : Load) (image : ι) (s : TwitchBadges ι) : TwitchBadges ι :=
  { s with
    loads := s.loads.eraseIdx i
    badgesMap_ := (load.name, ⟨load.url, image⟩) :: s.badgesMap_
    called := s.called ++ [((load.name, load.callback), ⟨load.url, image⟩)] }

def imageFailed (i : Nat) (load : Load) (s : TwitchBadges ι) : TwitchBadges ι :=
  { s with loads := s.loads.eraseIdx i, failed := s.failed ++ [(load.name, load.callback)] }

inductive Event (ι : Type)
  | getBadgeIcon (name : QString) (callback : Nat)
  | loadSucceeded (root : QJsonObject)
  | loadFailed
  | flush
  | imageLoaded (i : Nat) (image : ι)
  | imageFailed (i : Nat)

inductive Step : TwitchBadges ι → Event ι → TwitchBadges ι → Prop
  | getBadgeIcon (s : TwitchBadges ι) (name : QString) (callback : Nat) :
    Step s (.getBadgeIcon name callback)
      (getBadgeIcon begin name callback { s with asked := s.asked ++ [(name, callback)] })
  | loadSucceeded (s : TwitchBadges ι) (root : QJsonObject) : s.loaded_ = false →
    Step s (.loadSucceeded root) (loaded { s with badgeSets_ := parseBadgeSets root })
  | loadFailed (s : TwitchBadges ι) : s.loaded_ = false → Step s .loadFailed (loaded s)
  | flush (s : TwitchBadges ι) : s.flushing → Step s .flush (flush begin s)
  | imageLoaded (s : TwitchBadges ι) {i : Nat} {load : Load} (image : ι) : s.loads[i]? = some load →
    Step s (.imageLoaded i image) (imageLoaded i load image s)
  | imageFailed (s : TwitchBadges ι) {i : Nat} {load : Load} : s.loads[i]? = some load →
    Step s (.imageFailed i) (imageFailed i load s)

/-! ## Every request is accounted for -/

def Load.request (load : Load) : QString × Nat := (load.name, load.callback)

/-- The requests in every place where one can be. -/
def places (s : TwitchBadges ι) : List (QString × Nat) :=
  s.callbackQueue_ ++ s.loads.map Load.request ++ s.called.map Prod.fst ++ s.unknown ++ s.failed

/-- The url is the one of the badge of the name. -/
def IsImageOf (sets : BadgeSets) (url name : QString) : Prop :=
  ∃ emote, find begin sets name = some emote ∧ emote.image3 = url

/-- What is stored was read from the image of the badge, and what is unknown has no badge. -/
structure Sound (s : TwitchBadges ι) : Prop where
  /-- Before the badges are loaded nothing is done. -/
  early : s.loaded_ = false → s.loads = [] ∧ s.badgesMap_ = [] ∧ s.called = [] ∧ s.unknown = []
  loads : ∀ load ∈ s.loads, IsImageOf begin s.badgeSets_ load.url load.name
  icons : ∀ p ∈ s.badgesMap_, IsImageOf begin s.badgeSets_ p.2.url p.1
  called : ∀ c ∈ s.called, IsImageOf begin s.badgeSets_ c.2.url c.1.1
  unknown : ∀ u ∈ s.unknown, find begin s.badgeSets_ u.1 = none

structure Answered (s : TwitchBadges ι) : Prop where
  /-- Each request is in one place. -/
  conserved : s.asked.Perm s.places
  /-- None waits once the queue was emptied. -/
  flushed : s.loaded_ → s.flushing = false → s.callbackQueue_ = []
  sound : Sound begin s

variable {begin}

theorem answered_new : Answered begin (new : TwitchBadges ι) := by
  refine ⟨by simp [new, places], fun _ _ => rfl, fun _ => by simp [new], ?_, ?_, ?_, ?_⟩ <;> simp [new]

theorem getBadgeIcon_places (name : QString) (callback : Nat) (s : TwitchBadges ι) :
    (getBadgeIcon begin name callback s).places.Perm ((name, callback) :: s.places) := by
  refine List.perm_iff_count.mpr fun a => ?_
  unfold getBadgeIcon
  split
  · simp only [places, List.count_append, List.count_cons, List.count_nil]
    omega
  · split
    · simp only [places, List.map_append, List.map_cons, List.map_nil, List.count_append, List.count_cons,
        List.count_nil]
      omega
    · split
      · simp only [places, Load.request, List.map_append, List.map_cons, List.map_nil, List.count_append,
          List.count_cons, List.count_nil]
        omega
      · simp only [places, List.count_append, List.count_cons, List.count_nil]
        omega

theorem getBadgeIcon_asked (name : QString) (callback : Nat) (s : TwitchBadges ι) :
    (getBadgeIcon begin name callback s).asked = s.asked := by
  unfold getBadgeIcon
  repeat' split
  all_goals rfl

/-- Once the badges are loaded, a request does not wait. -/
theorem getBadgeIcon_loaded (name : QString) (callback : Nat) (s : TwitchBadges ι) :
    (getBadgeIcon begin name callback s).loaded_ = s.loaded_ ∧
      (getBadgeIcon begin name callback s).flushing = s.flushing ∧
      (s.loaded_ → (getBadgeIcon begin name callback s).callbackQueue_ = s.callbackQueue_) := by
  unfold getBadgeIcon
  split
  · next hloaded => exact ⟨rfl, rfl, fun h => by simp [h] at hloaded⟩
  · split
    · exact ⟨rfl, rfl, fun _ => rfl⟩
    · split <;> exact ⟨rfl, rfl, fun _ => rfl⟩

theorem getBadgeIcon_sound {s : TwitchBadges ι} (name : QString) (callback : Nat) (hs : Sound begin s) :
    Sound begin (getBadgeIcon begin name callback s) := by
  unfold getBadgeIcon
  split
  · exact ⟨hs.early, hs.loads, hs.icons, hs.called, hs.unknown⟩
  · next hloaded =>
    have hlate (h : s.loaded_ = false) : False := by simp [h] at hloaded
    split
    · next icon hicon =>
      obtain ⟨before, after, hsplit, -⟩ := List.lookup_eq_some_iff.mp hicon
      have himage := hs.icons (name, icon) (by simp [hsplit])
      refine ⟨fun h => (hlate h).elim, hs.loads, hs.icons, fun c hc => ?_, hs.unknown⟩
      rcases List.mem_append.mp hc with hc | hc
      · exact hs.called c hc
      · rw [List.mem_singleton.mp hc]
        exact himage
    · split
      · next emote hemote =>
        refine ⟨fun h => (hlate h).elim, fun load hload => ?_, hs.icons, hs.called, hs.unknown⟩
        rcases List.mem_append.mp hload with hload | hload
        · exact hs.loads load hload
        · rw [List.mem_singleton.mp hload]
          exact ⟨emote, hemote, rfl⟩
      · next hnone =>
        refine ⟨fun h => (hlate h).elim, hs.loads, hs.icons, hs.called, fun u hu => ?_⟩
        rcases List.mem_append.mp hu with hu | hu
        · exact hs.unknown u hu
        · rw [List.mem_singleton.mp hu]
          exact hnone

/-- A reply takes its request from the ones that load. -/
theorem count_loads {s : TwitchBadges ι} {i : Nat} {load : Load} (h : s.loads[i]? = some load)
    (a : QString × Nat) : (s.loads.map Load.request).count a
      = ((s.loads.eraseIdx i).map Load.request).count a + [load.request].count a := by
  obtain ⟨hi, rfl⟩ := List.getElem?_eq_some_iff.mp h
  have hperm := (List.getElem_cons_eraseIdx_perm hi).map Load.request
  rw [← List.perm_iff_count.mp hperm a, List.map_cons, List.count_cons, List.count_singleton]

theorem answered_step {s s' : TwitchBadges ι} {e : Event ι} (hs : Answered begin s)
    (h : Step begin s e s') : Answered begin s' := by
  obtain ⟨hconserved, hflushed, hsound⟩ := hs
  cases h with
  | getBadgeIcon name callback =>
    have hbefore : Sound begin { s with asked := s.asked ++ [(name, callback)] } :=
      ⟨hsound.early, hsound.loads, hsound.icons, hsound.called, hsound.unknown⟩
    obtain ⟨hloaded, hflushing, hqueue⟩ :=
      @getBadgeIcon_loaded _ begin name callback { s with asked := s.asked ++ [(name, callback)] }
    refine ⟨?_, fun h h' => ?_, getBadgeIcon_sound name callback hbefore⟩
    · rw [getBadgeIcon_asked]
      refine (List.perm_append_singleton _ _).trans (.trans ?_ (getBadgeIcon_places name callback _).symm)
      exact hconserved.cons _
    · rw [hloaded] at h
      rw [hflushing] at h'
      rw [hqueue h]
      exact hflushed h h'
  | loadSucceeded root hloaded =>
    obtain ⟨hloads, hicons, hcalled, hunknown⟩ := hsound.early hloaded
    refine ⟨hconserved, fun _ h => by simp [loaded] at h, fun h => by simp [loaded] at h, ?_, ?_, ?_, ?_⟩
    all_goals simp [loaded, hloads, hicons, hcalled, hunknown]
  | loadFailed hloaded =>
    refine ⟨hconserved, fun _ h => by simp [loaded] at h, fun h => by simp [loaded] at h, ?_, ?_, ?_, ?_⟩
    · exact hsound.loads
    · exact hsound.icons
    · exact hsound.called
    · exact hsound.unknown
  | flush hflushing =>
    unfold flush
    split
    · next hqueue =>
      exact ⟨hconserved, fun _ _ => hqueue, hsound.early, hsound.loads, hsound.icons, hsound.called,
        hsound.unknown⟩
    · next name callback queue hqueue =>
      have hbefore : Sound begin { s with callbackQueue_ := queue } :=
        ⟨hsound.early, hsound.loads, hsound.icons, hsound.called, hsound.unknown⟩
      obtain ⟨-, hflushing', -⟩ :=
        @getBadgeIcon_loaded _ begin name callback { s with callbackQueue_ := queue }
      refine ⟨?_, fun _ h => ?_, getBadgeIcon_sound name callback hbefore⟩
      · rw [getBadgeIcon_asked]
        refine .trans ?_ (getBadgeIcon_places name callback _).symm
        have hplaces : s.places = (name, callback) :: places { s with callbackQueue_ := queue } := by
          simp [places, hqueue]
        rw [← hplaces]
        exact hconserved
      · rw [hflushing'] at h
        exact absurd (hflushing.symm.trans h) (by decide)
  | @imageLoaded i load image hload =>
    have hload' := hsound.loads load (List.mem_of_getElem? hload)
    refine ⟨List.perm_iff_count.mpr fun a => ?_, hflushed, fun h => ?_, fun l hl => ?_, fun p hp => ?_,
      fun c hc => ?_, hsound.unknown⟩
    · have hbefore := List.perm_iff_count.mp hconserved a
      have hcount := count_loads hload a
      simp only [places, imageLoaded, Load.request, List.map_append, List.map_cons, List.map_nil,
        List.count_append] at hbefore hcount ⊢
      omega
    · have hempty := (hsound.early h).1
      simp [hempty] at hload
    · exact hsound.loads l (List.mem_of_mem_eraseIdx hl)
    · rcases List.mem_cons.mp hp with rfl | hp
      · exact hload'
      · exact hsound.icons p hp
    · rcases List.mem_append.mp hc with hc | hc
      · exact hsound.called c hc
      · rw [List.mem_singleton.mp hc]
        exact hload'
  | @imageFailed i load hload =>
    refine ⟨List.perm_iff_count.mpr fun a => ?_, hflushed, fun h => ?_, fun l hl => ?_, hsound.icons,
      hsound.called, hsound.unknown⟩
    · have hbefore := List.perm_iff_count.mp hconserved a
      have hcount := count_loads hload a
      simp only [places, imageFailed, Load.request, List.count_append] at hbefore hcount ⊢
      omega
    · have hempty := (hsound.early h).1
      simp [hempty] at hload
    · exact hsound.loads l (List.mem_of_mem_eraseIdx hl)

/--
**Every request is accounted for.** In every run each request for an icon is in one place: it waits
for the badges, its image is loading, it was answered, it has no badge, or its image failed. None waits
once the queue was emptied, and whatever a callback got was read from the image of the badge of its name.
-/
theorem answered {es : List (Event ι)} {s : TwitchBadges ι} (h : Run (Step begin) new es s) :
    Answered begin s := by
  have hstep : ∀ (s : TwitchBadges ι) e s', Answered begin s → Step begin s e s' → Answered begin s' :=
    fun _ _ _ hs h => answered_step hs h
  exact Run.invariant hstep answered_new h

/-- One badge, whose set has one version. -/
def oneBadge : QJsonObject :=
  [("badge_sets".toList, .object [("moderator".toList, .object [("versions".toList, .object
    [("1".toList, .object [("image_url_4x".toList, .string "m3".toList)])])])])]

theorem answered_oneBadge : ∃ s : TwitchBadges Nat,
    Answered (fun versions => versions.head?.map Prod.snd) s ∧ s.called.length = 1 ∧ s.unknown.length = 1 := by
  refine ⟨_, answered (.cons (.getBadgeIcon _ "moderator/1,partner/1".toList 0) <|
    .cons (.getBadgeIcon _ "partner".toList 1) <| .cons (.loadSucceeded _ oneBadge rfl) <|
    .cons (.flush _ rfl) <| .cons (.flush _ rfl) <| .cons (.flush _ rfl) <|
    .cons (.imageLoaded _ (i := 0) 7 rfl) (.nil _)), rfl, rfl⟩

end TwitchBadges

end Dankerino
