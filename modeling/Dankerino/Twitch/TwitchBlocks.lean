import Dankerino.Qt.QJson
import Mathlib.Data.Finset.Insert
import Mathlib.Data.Finset.Erase

/-!
# The blocked users of an account

The two sets of `TwitchAccount` that say who is blocked, and what the responses to `loadBlocks`,
`blockUser` and `unblockUser` make of them. The requests themselves are in `BlockSync`.
-/

namespace Dankerino

structure HelixBlock where
  userId : QString
  userName : QString
  displayName : QString
deriving DecidableEq

def HelixBlock.ofJson (jsonObject : QJsonObject) : HelixBlock where
  userId := (QJsonObject.value jsonObject "user_id").toString
  userName := (QJsonObject.value jsonObject "user_login").toString
  displayName := (QJsonObject.value jsonObject "display_name").toString

namespace Helix

/-- The number of entries that `loadBlocks` asks for. -/
def first : Nat := 100

/-- What `loadBlocks` hands to its caller. `none` is the call of `failureCallback`. -/
def loadBlocks (root : QJsonObject) : Option (List HelixBlock) :=
  let data := QJsonObject.value root "data"
  if data.isArray then
    some (data.toArray.map fun jsonStream => .ofJson jsonStream.toObject)
  else none

end Helix

structure TwitchUser where
  id : QString := []
  name : QString := []
  displayName : QString := []
deriving DecidableEq

namespace TwitchUser

def fromHelixBlock (ignore : HelixBlock) : TwitchUser where
  id := ignore.userId
  name := ignore.userName
  displayName := ignore.displayName

/-! ## Sets of users -/

/-- `operator<` looks at the ids only. -/
def insert (users : List TwitchUser) (user : TwitchUser) : List TwitchUser :=
  if user.id ∈ users.map TwitchUser.id then users else user :: users

def erase (users : List TwitchUser) (user : TwitchUser) : List TwitchUser :=
  users.filter (·.id ≠ user.id)

theorem mem_insert (users : List TwitchUser) (user : TwitchUser) (u : QString) :
    u ∈ (insert users user).map TwitchUser.id ↔ u = user.id ∨ u ∈ users.map TwitchUser.id := by
  unfold insert
  split
  · next hmem =>
    refine ⟨.inr, fun h => ?_⟩
    rcases h with rfl | h
    · exact hmem
    · exact h
  · simp

theorem mem_erase (users : List TwitchUser) (user : TwitchUser) (u : QString) :
    u ∈ (erase users user).map TwitchUser.id ↔ u ≠ user.id ∧ u ∈ users.map TwitchUser.id := by
  simp only [erase, List.mem_map, List.mem_filter, decide_eq_true_eq]
  constructor
  · rintro ⟨v, ⟨hv, hne⟩, rfl⟩
    exact ⟨hne, v, hv, rfl⟩
  · rintro ⟨hne, v, hv, rfl⟩
    exact ⟨v, ⟨hv, hne⟩, rfl⟩

end TwitchUser

structure TwitchBlocks where
  ignores_ : List TwitchUser := []
  ignoresUserIds_ : Finset QString := ∅

namespace TwitchBlocks

/-- One entry of the loaded list. -/
def insertBlock (s : TwitchBlocks) (block : HelixBlock) : TwitchBlocks :=
  let blockedUser := TwitchUser.fromHelixBlock block
  { ignores_ := TwitchUser.insert s.ignores_ blockedUser
    ignoresUserIds_ := insert blockedUser.id s.ignoresUserIds_ }

/-- The response to `loadBlocks`, which replaces everything. -/
def loadBlocks (blocks : List HelixBlock) (s : TwitchBlocks) : TwitchBlocks :=
  blocks.foldl insertBlock { s with ignores_ := [], ignoresUserIds_ := ∅ }

/-- The response to `blockUser`. -/
def blockUser (userId : QString) (s : TwitchBlocks) : TwitchBlocks :=
  let blockedUser : TwitchUser := { id := userId }
  { ignores_ := TwitchUser.insert s.ignores_ blockedUser
    ignoresUserIds_ := insert blockedUser.id s.ignoresUserIds_ }

/-- The response to `unblockUser`. -/
def unblockUser (userId : QString) (s : TwitchBlocks) : TwitchBlocks :=
  let ignoredUser : TwitchUser := { id := userId }
  { ignores_ := TwitchUser.erase s.ignores_ ignoredUser
    ignoresUserIds_ := s.ignoresUserIds_.erase ignoredUser.id }

/-- Both sets have the user exactly if `b` holds. -/
def Has (s : TwitchBlocks) (u : QString) (b : Prop) : Prop :=
  (u ∈ s.ignores_.map TwitchUser.id ↔ b) ∧ (u ∈ s.ignoresUserIds_ ↔ b)

variable {s : TwitchBlocks} {u : QString} {b : Prop}

theorem Has.congr {b' : Prop} (h : s.Has u b) (hb : b ↔ b') : s.Has u b' :=
  ⟨h.1.trans hb, h.2.trans hb⟩

theorem Has.iff {b' : Prop} (h : s.Has u b) (h' : s.Has u b') : b ↔ b' := h.2.symm.trans h'.2

theorem insertBlock_has (h : s.Has u b) (block : HelixBlock) :
    (s.insertBlock block).Has u (u = block.userId ∨ b) := by
  refine ⟨?_, ?_⟩
  · exact (TwitchUser.mem_insert ..).trans (or_congr Iff.rfl h.1)
  · exact Finset.mem_insert.trans (or_congr Iff.rfl h.2)

theorem foldl_insertBlock_has (blocks : List HelixBlock) (h : s.Has u b) :
    (blocks.foldl insertBlock s).Has u (b ∨ u ∈ blocks.map HelixBlock.userId) := by
  induction blocks generalizing s b with
  | nil => exact h.congr (by simp)
  | cons block blocks ih =>
    refine (ih (insertBlock_has h block)).congr ?_
    rw [List.map_cons, List.mem_cons, or_assoc, or_left_comm]

theorem loadBlocks_has (blocks : List HelixBlock) (s : TwitchBlocks) (u : QString) :
    (s.loadBlocks blocks).Has u (u ∈ blocks.map HelixBlock.userId) := by
  have hempty : ({ s with ignores_ := [], ignoresUserIds_ := ∅ } : TwitchBlocks).Has u False :=
    ⟨by simp, by simp⟩
  exact (foldl_insertBlock_has blocks hempty).congr (by simp)

theorem blockUser_self (s : TwitchBlocks) (userId : QString) : (s.blockUser userId).Has userId True :=
  ⟨by simp [blockUser, TwitchUser.mem_insert], by simp [blockUser]⟩

theorem blockUser_of_ne {userId : QString} (hne : u ≠ userId) :
    (s.blockUser userId).Has u b ↔ s.Has u b := by
  simp [Has, blockUser, TwitchUser.mem_insert, hne]

theorem unblockUser_self (s : TwitchBlocks) (userId : QString) :
    (s.unblockUser userId).Has userId False :=
  ⟨by simp [unblockUser, TwitchUser.mem_erase], by simp [unblockUser]⟩

theorem unblockUser_of_ne {userId : QString} (hne : u ≠ userId) :
    (s.unblockUser userId).Has u b ↔ s.Has u b := by
  simp [Has, unblockUser, TwitchUser.mem_erase, hne]

end TwitchBlocks

end Dankerino
