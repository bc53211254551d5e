import Dankerino.Highlights.WhisperSettings

/-!
# What a check of a message gives

`HighlightController::check` stops as soon as its result is full. It gives what it would without
stopping, and this is read off the answers of the checks: each field is that of the first answer that
sets it.
-/

namespace Dankerino

universe u

namespace HighlightController

variable {QUrl : Type u}

/-- What a check answers to a message, with `self` as `check` computes it. -/
def answer (s : HighlightController QUrl) (args : MessageParseArgs) (badges : List Badge)
    (senderName originalMessage : QString) (check : HighlightCheck QUrl) :
    Option (HighlightResult QUrl) :=
  check args badges senderName originalMessage (decide (senderName = s.twitch.currentUserName))

/-- `check` without the early out: every check is run, and every answer merged. -/
def checkAll (s : HighlightController QUrl) (args : MessageParseArgs) (badges : List Badge)
    (senderName originalMessage : QString) : Bool × HighlightResult QUrl :=
  s.checks.foldl
    (fun (highlighted, result) check =>
      match s.answer args badges senderName originalMessage check with
      | none => (highlighted, result)
      | some checkResult => (true, merge result checkResult))
    (false, .emptyResult)

/-- The value of the first answer in which the field is set. -/
def firstSet (field : HighlightResult QUrl → Bool) (results : List (HighlightResult QUrl)) : Bool :=
  ((results.find? field).map field).getD false

/-- What `check` is to give: something was answered, and each field is from the first answer that
sets it. -/
structure CheckSpec (results : List (HighlightResult QUrl)) (checked : Bool × HighlightResult QUrl) :
    Prop where
  highlighted : checked.1 = true ↔ results ≠ []
  alert : checked.2.alert = firstSet (·.alert) results
  playSound : checked.2.playSound = firstSet (·.playSound) results
  customSoundUrl : checked.2.customSoundUrl = results.findSome? (·.customSoundUrl)
  color : checked.2.color = results.findSome? (·.color)
  showInMentions : checked.2.showInMentions = firstSet (·.showInMentions) results

theorem firstSet_cons (field : HighlightResult QUrl → Bool) (result : HighlightResult QUrl)
    (results : List (HighlightResult QUrl)) :
    firstSet field (result :: results) = (field result || firstSet field results) := by
  unfold firstSet
  cases hfield : field result with
  | true => simp [hfield]
  | false => simp [hfield]

theorem firstSet_iff (field : HighlightResult QUrl → Bool) (results : List (HighlightResult QUrl)) :
    firstSet field results = true ↔ ∃ result ∈ results, field result = true := by
  induction results with
  | nil => simp [firstSet]
  | cons result results ih => simp [firstSet_cons, ih]

/-- A `bool` that each answer may set. -/
theorem foldl_merge_flag (field : HighlightResult QUrl → Bool)
    (hmerge : ∀ result checkResult, field (merge result checkResult)
      = (field result || field checkResult)) (results : List (HighlightResult QUrl)) :
    ∀ result, field (results.foldl merge result) = (field result || firstSet field results) := by
  induction results with
  | nil => simp [firstSet]
  | cons checkResult results ih =>
    intro result
    rw [List.foldl_cons, ih, hmerge, firstSet_cons, Bool.or_assoc]

/-- An `optional` or a pointer that each answer may set. -/
theorem foldl_merge_optional {α : Type*} (field : HighlightResult QUrl → Option α)
    (hmerge : ∀ result checkResult, field (merge result checkResult)
      = (field result).or (field checkResult)) (results : List (HighlightResult QUrl)) :
    ∀ result, field (results.foldl merge result) = (field result).or (results.findSome? field) := by
  induction results with
  | nil => simp
  | cons checkResult results ih =>
    intro result
    rw [List.foldl_cons, ih, hmerge, List.findSome?_cons, Option.or_assoc]
    cases field checkResult <;> rfl

theorem check_eq_foldl (s : HighlightController QUrl) (args : MessageParseArgs) (badges : List Badge)
    (senderName originalMessage : QString) :
    let results := s.checks.filterMap (s.answer args badges senderName originalMessage)
    s.check args badges senderName originalMessage
      = (!results.isEmpty, results.foldl merge .emptyResult) :=
  checkLoop_eq _ s.checks false .emptyResult

theorem checkAll_eq_foldl (s : HighlightController QUrl) (args : MessageParseArgs)
    (badges : List Badge) (senderName originalMessage : QString) :
    let results := s.checks.filterMap (s.answer args badges senderName originalMessage)
    s.checkAll args badges senderName originalMessage
      = (!results.isEmpty, results.foldl merge .emptyResult) := by
  intro results
  unfold checkAll
  -- with what was answered before, as it is in the middle of the loop
  suffices h : ∀ (checks : List (HighlightCheck QUrl)) (highlighted : Bool)
      (result : HighlightResult QUrl), checks.foldl _ (highlighted, result)
        = (highlighted || !(checks.filterMap (s.answer args badges senderName originalMessage)).isEmpty,
          (checks.filterMap (s.answer args badges senderName originalMessage)).foldl merge result) from
    h s.checks false .emptyResult
  intro checks
  induction checks with
  | nil => simp
  | cons check checks ih =>
    intro highlighted result
    rw [List.foldl_cons]
    cases hanswer : s.answer args badges senderName originalMessage check with
    | none => rw [List.filterMap_cons_none hanswer, ih]
    | some checkResult => simp [List.filterMap_cons_some hanswer, ih]

/-- **The early out changes nothing**, and each field is that of the first check that sets it. -/
theorem check_spec (s : HighlightController QUrl) (args : MessageParseArgs) (badges : List Badge)
    (senderName originalMessage : QString) :
    s.check args badges senderName originalMessage = s.checkAll args badges senderName originalMessage ∧
      CheckSpec (s.checks.filterMap (s.answer args badges senderName originalMessage))
        (s.check args badges senderName originalMessage) := by
  rw [checkAll_eq_foldl, check_eq_foldl]
  refine ⟨rfl, ?_, ?_, ?_, ?_, ?_, ?_⟩
  · simp
  · exact foldl_merge_flag _ (fun _ _ => rfl) _ _
  · exact foldl_merge_flag _ (fun _ _ => rfl) _ _
  · exact foldl_merge_optional _ (fun _ _ => rfl) _ _
  · exact foldl_merge_optional _ (fun _ _ => rfl) _ _
  · exact foldl_merge_flag _ (fun _ _ => rfl) _ _

end HighlightController

end Dankerino
