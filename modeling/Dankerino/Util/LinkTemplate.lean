import Dankerino.Infra.Regex
import Dankerino.Infra.Termination
import Dankerino.Qt.QJson

/-!
# Links from a response

`getLinkFromResponse` of `util/NuulsUploader.cpp`: the placeholders of a pattern are replaced by values of the
response. Each round searches the whole text again, with the values that were inserted, and replaces every
occurrence of what it finds. `getLinkFromResponse_of_stable` says when this is the same as replacing all
placeholders at once.
-/

namespace Dankerino

open Infra

namespace NuulsUploader

/-- `responseJson[key]` -/
def index (responseJson : QJsonValue) (key : QString) : QJsonValue :=
  (List.lookup key responseJson.toObject).getD .undefined

def getJSONValue (responseJson : QJsonValue) (jsonPattern : QString) : QString :=
  ((jsonPattern.splitOn '.').foldl index responseJson).toString

/-- `}`, behind a group that started at `inner`. -/
def closing (inner rest : QString) : Option (QString × QString) :=
  Regex.first (.text ['\x7d']) (fun behind => some (inner.take (inner.length - rest.length), behind)) rest

/-- `{(.+)}` with inverted greediness, at the start of a text: the group, and what is behind the match. -/
def matchLink (s : QString) : Option (QString × QString) :=
  Regex.first (.text ['\x7b']) (fun inner =>
    Regex.firstLazy (.plus (.set fun c => c != '\n')) (closing inner) inner) s

/-- `match`: `captured(1)` of the first match. -/
def findLink : QString → Option QString
  | [] => none
  | c :: s =>
    match matchLink (c :: s) with
    | some (captured1, _) => some captured1
    | none => findLink s

/-- What is matched, `captured(0)`. -/
def braced (captured1 : QString) : QString := '\x7b' :: (captured1 ++ ['\x7d'])

section Loop

variable (value : QString → QString)

/-- A round of the loop, for given values. -/
def round (pattern : QString) : Option QString :=
  (findLink pattern).map fun captured1 => QString.replace pattern (braced captured1) (value captured1)

end Loop

/-- The loop. It may go on for ever. -/
def getLinkFromResponse (response : QJsonValue) (pattern : QString) : Part QString :=
  StateTransition.eval (round (getJSONValue response)) pattern

/-! ## What it should be -/

/-- A character or a placeholder of a pattern. -/
inductive Segment where
  | char (c : Char)
  | placeholder (path : QString)
  deriving DecidableEq

/-- The placeholders from left to right, in at most `n` characters. -/
def parseLoop : Nat → QString → List Segment
  | 0, _ => []
  | _ + 1, [] => []
  | n + 1, c :: s =>
    match matchLink (c :: s) with
    | some (path, behind) => .placeholder path :: parseLoop n behind
    | none => .char c :: parseLoop n s

def parse (pattern : QString) : List Segment := parseLoop pattern.length pattern

section Values

variable (value : QString → QString)

/-- The text of a pattern in which some placeholders are replaced. -/
def render (done : List QString) : List Segment → QString
  | [] => []
  | .char c :: segments => c :: render done segments
  | .placeholder path :: segments =>
    (if path ∈ done then value path else braced path) ++ render done segments

/-- All placeholders are replaced. -/
def expand : List Segment → QString
  | [] => []
  | .char c :: segments => c :: expand segments
  | .placeholder path :: segments => value path ++ expand segments

/-- On its line the text has a closing brace behind at least one character. -/
def Closes (s : QString) : Prop := ∃ path behind, s = path ++ '\x7d' :: behind ∧ path ≠ [] ∧ '\n' ∉ path

/-- No brace of a text that is followed by another one closes. -/
def Quiet (s behind : QString) : Prop := ∀ front rest, s = front ++ '\x7b' :: rest → ¬ Closes (rest ++ behind)

/-- The text of the placeholder is found only where there is the placeholder. -/
def Apart (done : List QString) (path : QString) : List Segment → Prop
  | [] => True
  | .char _ :: segments => Apart done path segments
  | .placeholder other :: segments =>
    (other ≠ path → ∀ front rest, (if other ∈ done then value other else other ++ ['\x7d']) = front ++ '\x7b' :: rest →
      ¬ path ++ ['\x7d'] <+: rest ++ render value done segments) ∧ Apart done path segments

/--
While the placeholders are replaced from left to right, no brace in the value of one closes with what is behind it
at that time, and the text of the next one is found only where there is the placeholder.
-/
def Stable : List QString → List Segment → Prop
  | _, [] => True
  | done, .char _ :: segments => Stable done segments
  | done, .placeholder path :: segments =>
    (path ∉ done → Apart value done path segments) ∧
      Quiet (value path) (render value (path :: done) segments) ∧ Stable (path :: done) segments

end Values

/-! ## Matches -/

/-- What a match takes between its braces. -/
structure IsPath (path : QString) : Prop where
  ne_nil : path ≠ []
  line : '\n' ∉ path
  brace : '\x7d' ∉ path.tail

theorem closes_braced {path : QString} (h : IsPath path) (behind : QString) :
    Closes (path ++ '\x7d' :: behind) :=
  ⟨path, behind, rfl, h.ne_nil, h.line⟩

theorem takeWhile_brace {s : QString} (h : '\x7d' ∉ s) (behind : QString) :
    (s ++ '\x7d' :: behind).takeWhile (· != '\x7d') = s := by
  have hall : ∀ c ∈ s, (c != '\x7d') = true := by
    intro c hc
    rw [bne_iff_ne]
    rintro rfl
    exact h hc
  rw [List.takeWhile_append_of_pos hall, List.takeWhile_cons_of_neg (by decide), List.append_nil]

theorem IsPath.unique {path path' behind behind' : QString} (h : IsPath path) (h' : IsPath path')
    (heq : path ++ '\x7d' :: behind = path' ++ '\x7d' :: behind') : path = path' ∧ behind = behind' := by
  obtain ⟨c, tail, rfl⟩ := List.exists_cons_of_ne_nil h.ne_nil
  obtain ⟨c', tail', rfl⟩ := List.exists_cons_of_ne_nil h'.ne_nil
  rw [List.cons_append, List.cons_append] at heq
  obtain ⟨rfl, hrest⟩ := List.cons.inj heq
  have htail := congrArg (List.takeWhile (· != '\x7d')) hrest
  have hbrace : '\x7d' ∉ tail := h.brace
  have hbrace' : '\x7d' ∉ tail' := h'.brace
  rw [takeWhile_brace hbrace, takeWhile_brace hbrace'] at htail
  subst htail
  exact ⟨rfl, (List.cons.inj (List.append_cancel_left hrest)).2⟩

theorem closing_of_ne {c : Char} (h : c ≠ '\x7d') (inner s : QString) : closing inner (c :: s) = none := by
  refine Regex.first_text_of_not_prefix fun hclose => h ?_
  obtain ⟨rest, hrest⟩ := hclose
  exact (List.cons.inj hrest).1.symm

theorem closing_brace (path behind : QString) :
    closing (path ++ '\x7d' :: behind) ('\x7d' :: behind) = some (path, behind) := by
  have hclose := Regex.first_text_append ['\x7d'] behind fun behind' =>
    some ((path ++ '\x7d' :: behind).take ((path ++ '\x7d' :: behind).length - ('\x7d' :: behind).length), behind')
  rw [List.length_append, Nat.add_sub_cancel, List.take_left] at hclose
  rw [closing, List.length_append, Nat.add_sub_cancel, List.take_left]
  exact hclose

/-- A lazy run goes up to the first brace on the line. -/
theorem firstLazy_closing (inner s : QString) :
    (∃ front behind, s = front ++ '\x7d' :: behind ∧ '\n' ∉ front ∧ '\x7d' ∉ front ∧
        Regex.firstLazy (.star (.set fun c => c != '\n')) (closing inner) s
          = (closing inner ('\x7d' :: behind)).or
              (Regex.firstLazy (.star (.set fun c => c != '\n')) (closing inner) behind)) ∨
      (∀ front behind, s = front ++ '\x7d' :: behind → '\n' ∈ front) ∧
        Regex.firstLazy (.star (.set fun c => c != '\n')) (closing inner) s = none := by
  induction s with
  | nil =>
    refine .inr ⟨fun front behind h => ?_, (Regex.firstLazy_star_set_nil _).trans rfl⟩
    exact absurd h.symm (List.append_ne_nil_of_right_ne_nil _ (List.cons_ne_nil _ _))
  | cons c s ih =>
    rw [Regex.firstLazy_star_set_cons]
    by_cases hbrace : c = '\x7d'
    · subst hbrace
      exact .inl ⟨[], s, rfl, List.not_mem_nil, List.not_mem_nil, by rw [if_pos (by decide)]⟩
    · rw [closing_of_ne hbrace, Option.none_or]
      by_cases hline : c = '\n'
      · subst hline
        refine .inr ⟨fun front behind h => ?_, by rw [if_neg (by decide)]⟩
        cases front with
        | nil => exact absurd (List.cons.inj h).1 (by decide)
        | cons d front =>
          rw [(List.cons.inj h).1]
          exact List.mem_cons_self
      · rw [if_pos (by simpa using hline)]
        rcases ih with ⟨front, behind, rfl, hfront, hbraces, heq⟩ | ⟨hnone, heq⟩
        · refine .inl ⟨c :: front, behind, rfl, ?_, ?_, heq⟩
          · simpa using ⟨Ne.symm hline, hfront⟩
          · simpa using ⟨Ne.symm hbrace, hbraces⟩
        · refine .inr ⟨fun front behind h => ?_, heq⟩
          cases front with
          | nil => exact absurd (List.cons.inj h).1 hbrace
          | cons d front => exact List.mem_cons_of_mem _ (hnone front behind (List.cons.inj h).2)

theorem matchLink_of_ne {c : Char} (h : c ≠ '\x7b') (s : QString) : matchLink (c :: s) = none := by
  refine Regex.first_text_of_not_prefix fun hopen => h ?_
  obtain ⟨rest, hrest⟩ := hopen
  exact (List.cons.inj hrest).1.symm

/-- A brace is matched up to the next closing brace on its line, behind at least one character. -/
theorem matchLink_cases (inner : QString) :
    (∃ path behind, inner = path ++ '\x7d' :: behind ∧ IsPath path ∧
        matchLink ('\x7b' :: inner) = some (path, behind)) ∨
      ¬ Closes inner ∧ matchLink ('\x7b' :: inner) = none := by
  have hmatch : matchLink ('\x7b' :: inner) =
      Regex.firstLazy (.plus (.set fun c => c != '\n')) (closing inner) inner :=
    Regex.first_text_append ['\x7b'] inner _
  rw [hmatch]
  cases inner with
  | nil =>
    refine .inr ⟨?_, rfl⟩
    rintro ⟨path, behind, h, -⟩
    exact absurd h.symm (List.append_ne_nil_of_right_ne_nil _ (List.cons_ne_nil _ _))
  | cons c s =>
    rw [Regex.firstLazy_plus_set_cons]
    by_cases hline : c = '\n'
    · subst hline
      refine .inr ⟨?_, by rw [if_neg (by decide)]⟩
      rintro ⟨path, behind, h, hpath, hlinePath⟩
      obtain ⟨d, tail, rfl⟩ := List.exists_cons_of_ne_nil hpath
      rw [← (List.cons.inj h).1] at hlinePath
      exact hlinePath List.mem_cons_self
    · rw [if_pos (by simpa using hline)]
      rcases firstLazy_closing (c :: s) s with ⟨front, behind, rfl, hfront, hbraces, heq⟩ | ⟨hnone, heq⟩
      · refine .inl ⟨c :: front, behind, rfl, ⟨List.cons_ne_nil _ _, ?_, hbraces⟩, ?_⟩
        · simpa using ⟨Ne.symm hline, hfront⟩
        · rw [heq, ← List.cons_append, closing_brace]
          rfl
      · refine .inr ⟨?_, heq⟩
        rintro ⟨path, behind, h, hpath, hlinePath⟩
        obtain ⟨d, tail, rfl⟩ := List.exists_cons_of_ne_nil hpath
        exact hlinePath (List.mem_cons_of_mem _ (hnone tail behind (List.cons.inj h).2))

theorem matchLink_of_not_closes {s : QString} (h : ¬ Closes s) : matchLink ('\x7b' :: s) = none := by
  rcases matchLink_cases s with ⟨path, behind, rfl, hpath, -⟩ | ⟨-, hnone⟩
  · exact absurd (closes_braced hpath behind) h
  · exact hnone

theorem matchLink_braced {path : QString} (h : IsPath path) (behind : QString) :
    matchLink (braced path ++ behind) = some (path, behind) := by
  have hsplit : braced path ++ behind = '\x7b' :: (path ++ '\x7d' :: behind) := by simp [braced]
  rw [hsplit]
  rcases matchLink_cases (path ++ '\x7d' :: behind) with ⟨path', behind', heq, hpath', hmatch⟩ | ⟨hnot, -⟩
  · obtain ⟨rfl, rfl⟩ := h.unique hpath' heq
    exact hmatch
  · exact absurd (closes_braced h behind) hnot

/-! ## The placeholders of a pattern -/

/-- What the pattern says about its segments. -/
def Parsed : List Segment → Prop
  | [] => True
  | .char c :: segments =>
    (c = '\x7b' → ¬ Closes (render (fun _ => []) [] segments)) ∧ Parsed segments
  | .placeholder path :: segments => IsPath path ∧ Parsed segments

theorem parseLoop_spec : ∀ (n : Nat) (s : QString), s.length ≤ n →
    render (fun _ => []) [] (parseLoop n s) = s ∧ Parsed (parseLoop n s) := by
  intro n
  induction n with
  | zero =>
    intro s hs
    rw [List.length_eq_zero_iff.mp (Nat.le_zero.mp hs)]
    exact ⟨rfl, trivial⟩
  | succ n ih =>
    intro s hs
    cases s with
    | nil => exact ⟨rfl, trivial⟩
    | cons c s =>
      rw [List.length_cons] at hs
      obtain ⟨htext, hparsed⟩ := ih s (by omega)
      by_cases hbrace : c = '\x7b'
      · subst hbrace
        rcases matchLink_cases s with ⟨path, behind, rfl, hpath, hmatch⟩ | ⟨hnot, hmatch⟩
        · rw [List.length_append, List.length_cons] at hs
          obtain ⟨htext, hparsed⟩ := ih behind (by omega)
          rw [parseLoop, hmatch]
          refine ⟨?_, hpath, hparsed⟩
          rw [render, if_neg List.not_mem_nil, htext, braced, List.cons_append, List.append_assoc]
          rfl
        · rw [parseLoop, hmatch]
          exact ⟨by rw [render, htext], fun _ => by rw [htext]; exact hnot, hparsed⟩
      · rw [parseLoop, matchLink_of_ne hbrace]
        exact ⟨by rw [render, htext], fun heq => absurd heq hbrace, hparsed⟩

section Values

variable {value : QString → QString} {done : List QString} {path : QString} {segments : List Segment}

theorem render_nil (value value' : QString → QString) (segments : List Segment) :
    render value [] segments = render value' [] segments := by
  induction segments with
  | nil => rfl
  | cons segment segments ih =>
    cases segment with
    | char c => rw [render, render, ih]
    | placeholder path => rw [render, render, ih, if_neg List.not_mem_nil, if_neg List.not_mem_nil]

/-! ## Lines -/

/-- What is behind the first line does not matter. -/
theorem closes_of_line {s : QString} (h : '\n' ∈ s) {behind : QString} (behind' : QString)
    (hcloses : Closes (s ++ behind)) : Closes (s ++ behind') := by
  obtain ⟨path, rest, heq, hne, hline⟩ := hcloses
  rcases List.append_eq_append_iff.mp heq with ⟨more, rfl, -⟩ | ⟨more, rfl, hmore⟩
  · exact absurd (List.mem_append_left _ h) hline
  · cases more with
    | nil =>
      rw [List.append_nil] at h
      exact absurd h hline
    | cons c more =>
      obtain ⟨rfl, -⟩ := List.cons.inj hmore
      exact ⟨path, more ++ behind', by rw [List.append_assoc, List.cons_append], hne, hline⟩

/-- A placeholder is not on a line that does not close, so that its value does not matter. -/
theorem not_closes_render {done' : List QString} (hdone : ∀ path ∈ done, path ∈ done') :
    ∀ {segments : List Segment} {s : QString}, Parsed segments →
      ¬ Closes (s ++ render value done segments) → ¬ Closes (s ++ render value done' segments)
  | [], _, _, h => h
  | .char c :: segments, s, hparsed, h => by
    rw [render, List.append_cons] at h ⊢
    exact not_closes_render hdone hparsed.2 h
  | .placeholder path :: segments, s, hparsed, h => by
    rw [render] at h ⊢
    by_cases hmem : path ∈ done
    · rw [if_pos hmem, ← List.append_assoc] at h
      rw [if_pos (hdone path hmem), ← List.append_assoc]
      exact not_closes_render hdone hparsed.2 h
    · rw [if_neg hmem] at h
      by_cases hline : '\n' ∈ s
      · exact fun hcloses => h (closes_of_line hline _ hcloses)
      · refine absurd ⟨s ++ '\x7b' :: path, render value done segments, ?_, ?_, ?_⟩ h
        · simp [braced]
        · exact List.append_ne_nil_of_right_ne_nil _ (List.cons_ne_nil _ _)
        · simpa using ⟨hline, hparsed.1.line⟩

theorem not_closes_of_parsed {c : Char} (h : Parsed (.char c :: segments)) (hc : c = '\x7b') :
    ¬ Closes (render value done segments) := by
  have hnot := h.1 hc
  rw [render_nil (fun _ => []) value] at hnot
  exact not_closes_render (s := []) (fun path hmem => absurd hmem List.not_mem_nil) h.2 hnot

/-! ## Quiet texts -/

theorem quiet_append {s t behind : QString} :
    Quiet (s ++ t) behind ↔ Quiet s (t ++ behind) ∧ Quiet t behind := by
  constructor
  · intro h
    refine ⟨fun front rest heq => ?_, fun front rest heq => ?_⟩
    · rw [← List.append_assoc]
      exact h front (rest ++ t) (by rw [heq, List.append_assoc]; rfl)
    · exact h (s ++ front) rest (by rw [heq, List.append_assoc])
  · rintro ⟨hs, ht⟩ front rest heq
    rcases List.append_eq_append_iff.mp heq with ⟨more, rfl, hmore⟩ | ⟨more, rfl, hmore⟩
    · exact ht more rest hmore
    · cases more with
      | nil => exact ht [] rest hmore.symm
      | cons c more =>
        obtain ⟨rfl, rfl⟩ := List.cons.inj hmore
        show ¬ Closes (more ++ t ++ behind)
        rw [List.append_assoc]
        exact hs front more rfl

/-- Nothing is found in a quiet text. -/
theorem findLink_quiet {behind : QString} : ∀ {s : QString}, Quiet s behind →
    findLink (s ++ behind) = findLink behind
  | [], _ => rfl
  | c :: s, h => by
    have hnone : matchLink (c :: (s ++ behind)) = none := by
      by_cases hbrace : c = '\x7b'
      · subst hbrace
        exact matchLink_of_not_closes (h [] s rfl)
      · exact matchLink_of_ne hbrace _
    rw [List.cons_append, findLink, hnone]
    exact findLink_quiet (quiet_append.mp (show Quiet ([c] ++ s) behind from h)).2

theorem findLink_braced (h : IsPath path) (behind : QString) :
    findLink (braced path ++ behind) = some path := by
  have hmatch := matchLink_braced h behind
  rw [braced, List.cons_append] at hmatch ⊢
  rw [findLink, hmatch]

/-! ## Replacing a placeholder -/

theorem braced_ne_nil (path : QString) : braced path ≠ [] := List.cons_ne_nil _ _

theorem replace_braced (path value behind : QString) :
    QString.replace (braced path ++ behind) (braced path) value
      = value ++ QString.replace behind (braced path) value := by
  have hcons : braced path ++ behind = '\x7b' :: (path ++ ['\x7d'] ++ behind) := rfl
  have hself : (braced path).isPrefixOf ('\x7b' :: (path ++ ['\x7d'] ++ behind)) = true :=
    List.isPrefixOf_iff_prefix.mpr ⟨behind, hcons⟩
  rw [hcons, QString.replace_cons (braced_ne_nil path), if_pos hself, ← hcons, List.drop_left]

/-- A part of a text where the placeholder is not found stays. -/
theorem replace_append {value behind : QString} : ∀ {s : QString},
    (∀ front rest, s = front ++ '\x7b' :: rest → ¬ path ++ ['\x7d'] <+: rest ++ behind) →
      QString.replace (s ++ behind) (braced path) value = s ++ QString.replace behind (braced path) value
  | [], _ => rfl
  | c :: s, h => by
    have hnot : ¬ (braced path).isPrefixOf (c :: (s ++ behind)) = true := by
      rw [List.isPrefixOf_iff_prefix, braced, List.cons_prefix_cons]
      rintro ⟨rfl, hrest⟩
      exact h [] s rfl hrest
    rw [List.cons_append, QString.replace_cons (braced_ne_nil path), if_neg hnot,
      replace_append fun front rest heq => h (c :: front) rest (by rw [heq]; rfl)]
    rfl

theorem closes_of_front {s : QString} (hpath : IsPath path) (h : path ++ ['\x7d'] <+: s) : Closes s := by
  obtain ⟨behind, rfl⟩ := h
  exact ⟨path, behind, List.append_assoc _ _ _, hpath.ne_nil, hpath.line⟩

/-- Where the text of a placeholder is found only where it is, replacing the text replaces the placeholder. -/
theorem replace_render (hpath : IsPath path) (hdone : path ∉ done) : ∀ {segments : List Segment},
    Parsed segments → Apart value done path segments →
      QString.replace (render value done segments) (braced path) (value path)
        = render value (path :: done) segments
  | [], _, _ => rfl
  | .char c :: segments, hparsed, hapart => by
    rw [render, render, ← List.singleton_append, replace_append ?_, replace_render hpath hdone hparsed.2 hapart]
    · rfl
    · intro front rest heq hprefix
      cases front with
      | nil =>
        obtain ⟨hc, rfl⟩ := List.cons.inj heq
        exact not_closes_of_parsed hparsed hc (closes_of_front hpath hprefix)
      | cons d front =>
        exact absurd (List.cons.inj heq).2.symm (List.append_ne_nil_of_right_ne_nil _ (List.cons_ne_nil _ _))
  | .placeholder other :: segments, hparsed, hapart => by
    have hrest := replace_render hpath hdone hparsed.2 hapart.2
    rw [render, render]
    by_cases hsame : other = path
    · subst hsame
      rw [if_neg hdone, if_pos List.mem_cons_self, replace_braced, hrest]
    · by_cases hmem : other ∈ done
      · have hquiet := hapart.1 hsame
        rw [if_pos hmem] at hquiet
        rw [if_pos hmem, if_pos (List.mem_cons_of_mem _ hmem), replace_append hquiet, hrest]
      · have hquiet := hapart.1 hsame
        rw [if_neg hmem] at hquiet
        have hnot : other ∉ path :: done := by simpa using ⟨hsame, hmem⟩
        rw [if_neg hmem, if_neg hnot, replace_append ?_, hrest]
        intro front rest heq hprefix
        cases front with
        | nil =>
          -- at its first brace the other placeholder would be the same
          obtain ⟨-, rfl⟩ := List.cons.inj heq
          obtain ⟨behind, hbehind⟩ := hprefix
          rw [List.append_assoc, List.append_assoc] at hbehind
          exact hsame (hpath.unique hparsed.1 hbehind).1.symm
        | cons c front => exact hquiet front rest (List.cons.inj heq).2 hprefix

/-! ## The loop -/

theorem render_congr {done' : List QString} (h : ∀ path, path ∈ done ↔ path ∈ done') :
    ∀ segments : List Segment, render value done segments = render value done' segments
  | [] => rfl
  | .char c :: segments => by rw [render, render, render_congr h segments]
  | .placeholder path :: segments => by
    rw [render, render, render_congr h segments]
    congr 1
    by_cases hmem : path ∈ done
    · rw [if_pos hmem, if_pos ((h path).mp hmem)]
    · rw [if_neg hmem, if_neg fun hmem' => hmem ((h path).mpr hmem')]

/-- A round replaces the first placeholder that is left. -/
theorem round_placeholder {front : QString}
    (hquiet : Quiet front (render value done (.placeholder path :: segments))) (hpath : IsPath path)
    (hdone : path ∉ done) (hparsed : Parsed segments) (hapart : Apart value done path segments) :
    round value (front ++ render value done (.placeholder path :: segments))
      = some (front ++ (value path ++ render value (path :: done) segments)) := by
  have hfront : ∀ before rest, front = before ++ '\x7b' :: rest →
      ¬ path ++ ['\x7d'] <+: rest ++ render value done (.placeholder path :: segments) :=
    fun before rest heq hprefix => hquiet before rest heq (closes_of_front hpath hprefix)
  rw [round, findLink_quiet hquiet, render, if_neg hdone, findLink_braced hpath, Option.map_some]
  rw [render, if_neg hdone] at hfront
  rw [replace_append hfront, replace_braced, replace_render hpath hdone hparsed hapart]

/-- The induction is on what is left of the pattern; `front` is what no round changes any more. -/
theorem mem_eval_round : ∀ {segments : List Segment} {done : List QString} {front : QString},
    Parsed segments → Stable value done segments → Quiet front (render value done segments) →
      front ++ expand value segments ∈
        StateTransition.eval (round value) (front ++ render value done segments)
  | [], done, front, _, _, hquiet => by
    have hnone : round value (front ++ render value done []) = none := by
      rw [round, findLink_quiet hquiet]
      rfl
    exact StateTransition.mem_eval.mpr ⟨.refl, hnone⟩
  | .char c :: segments, done, front, hparsed, hstable, hquiet => by
    have hnext : Quiet (front ++ [c]) (render value done segments) := by
      refine quiet_append.mpr ⟨hquiet, fun before rest heq => ?_⟩
      cases before with
      | nil =>
        obtain ⟨hc, rfl⟩ := List.cons.inj heq
        exact not_closes_of_parsed hparsed hc
      | cons d before =>
        exact absurd (List.cons.inj heq).2.symm (List.append_ne_nil_of_right_ne_nil _ (List.cons_ne_nil _ _))
    have hrest := mem_eval_round hparsed.2 hstable hnext
    rw [List.append_assoc, List.append_assoc] at hrest
    exact hrest
  | .placeholder path :: segments, done, front, hparsed, hstable, hquiet => by
    obtain ⟨hapart, hvalue, hstable⟩ := hstable
    -- behind the value the placeholder counts as replaced
    have hnext : Quiet (front ++ value path) (render value (path :: done) segments) := by
      refine quiet_append.mpr ⟨fun before rest heq => ?_, hvalue⟩
      have hnot := not_closes_render (fun other hother => List.mem_cons_of_mem path hother) hparsed
        (hquiet before rest heq)
      rw [render, if_pos List.mem_cons_self] at hnot
      exact hnot
    have hrest := mem_eval_round hparsed.2 hstable hnext
    rw [List.append_assoc, List.append_assoc] at hrest
    rw [expand]
    by_cases hdone : path ∈ done
    · have hsame : render value done segments = render value (path :: done) segments :=
        render_congr (fun other => ⟨List.mem_cons_of_mem path, fun hmem => by
          rcases List.mem_cons.mp hmem with rfl | hmem
          · exact hdone
          · exact hmem⟩) segments
      rw [render, if_pos hdone, hsame]
      exact hrest
    · have hround := round_placeholder hquiet hparsed.1 hdone hparsed.2 (hapart hdone)
      rw [StateTransition.reaches_eval (.single hround)]
      exact hrest

/-- Nothing is returned that a placeholder is found in. -/
theorem findLink_of_mem_eval {pattern link : QString}
    (h : link ∈ StateTransition.eval (round value) pattern) : findLink link = none := by
  obtain ⟨-, hnone⟩ := StateTransition.mem_eval.mp h
  exact Option.map_eq_none_iff.mp hnone

end Values

/--
If no brace of a value closes with what is behind it, and the text of a placeholder is found only where the
placeholder is, then the loop ends, with every placeholder of the pattern replaced by its value. If a placeholder is
found in that text, the loop does not return it.
-/
theorem getLinkFromResponse_of_stable (response : QJsonValue) (pattern : QString) :
    (Stable (getJSONValue response) [] (parse pattern) →
      getLinkFromResponse response pattern = Part.some (expand (getJSONValue response) (parse pattern))) ∧
    (findLink (expand (getJSONValue response) (parse pattern)) ≠ none →
      expand (getJSONValue response) (parse pattern) ∉ getLinkFromResponse response pattern) := by
  refine ⟨fun hstable => ?_, fun hfound hmem => hfound (findLink_of_mem_eval hmem)⟩
  obtain ⟨htext, hparsed⟩ := parseLoop_spec pattern.length pattern (Nat.le_refl _)
  have hquiet : Quiet [] (render (getJSONValue response) [] (parse pattern)) := fun before rest heq =>
    absurd heq.symm (List.append_ne_nil_of_right_ne_nil _ (List.cons_ne_nil _ _))
  have hmem := mem_eval_round hparsed hstable hquiet
  rw [List.nil_append, List.nil_append, render_nil _ fun _ => [], htext] at hmem
  exact Part.eq_some_iff.mpr hmem

/-- The response of a server that stores an image. -/
def stored : QJsonValue := .object [("host".toList, .string "i.example".toList), ("id".toList, .string "a1".toList)]

/-- Two placeholders. -/
theorem getLinkFromResponse_stored :
    getLinkFromResponse stored "\x7bhost\x7d/\x7bid\x7d.png".toList = Part.some "i.example/a1.png".toList := by
  have hparse : parse "\x7bhost\x7d/\x7bid\x7d.png".toList =
      [.placeholder "host".toList, .char '/', .placeholder "id".toList, .char '.', .char 'p', .char 'n',
        .char 'g'] := by decide
  have hhost : getJSONValue stored "host".toList = "i.example".toList := by decide
  have hid : getJSONValue stored "id".toList = "a1".toList := by decide
  have hbrace {s : QString} (hs : '\x7b' ∉ s) {front rest : QString} (heq : s = front ++ '\x7b' :: rest) : False :=
    hs (heq ▸ List.mem_append_right _ List.mem_cons_self)
  have hstable : Stable (getJSONValue stored) [] (parse "\x7bhost\x7d/\x7bid\x7d.png".toList) := by
    rw [hparse]
    refine ⟨fun _ => ⟨fun _ front rest heq => ?_, trivial⟩, fun front rest heq => ?_,
      fun _ => trivial, fun front rest heq => ?_, trivial⟩
    · rw [if_neg List.not_mem_nil] at heq
      exact (hbrace (by decide) heq).elim
    · rw [hhost] at heq
      exact (hbrace (by decide) heq).elim
    · rw [hid] at heq
      exact (hbrace (by decide) heq).elim
  rw [(getLinkFromResponse_of_stable stored _).1 hstable, hparse]
  rfl

/-- A value that is a placeholder: its own one is replaced for ever, another one is replaced again. -/
theorem getLinkFromResponse_braces :
    ¬ (getLinkFromResponse (.object [("link".toList, .string "\x7blink\x7d".toList)])
        "\x7blink\x7d".toList).Dom ∧
      "x".toList ∈ getLinkFromResponse (.object [("a".toList, .string "\x7bb\x7d".toList),
        ("b".toList, .string "x".toList)]) "\x7ba\x7d".toList ∧
      expand (getJSONValue (.object [("a".toList, .string "\x7bb\x7d".toList),
        ("b".toList, .string "x".toList)])) (parse "\x7ba\x7d".toList) = "\x7bb\x7d".toList := by
  have hloop : round (getJSONValue (.object [("link".toList, .string "\x7blink\x7d".toList)]))
      "\x7blink\x7d".toList = some "\x7blink\x7d".toList := by decide
  have hfirst : round (getJSONValue (.object [("a".toList, .string "\x7bb\x7d".toList),
      ("b".toList, .string "x".toList)])) "\x7ba\x7d".toList = some "\x7bb\x7d".toList := by decide
  have hsecond : round (getJSONValue (.object [("a".toList, .string "\x7bb\x7d".toList),
      ("b".toList, .string "x".toList)])) "\x7bb\x7d".toList = some "x".toList := by decide
  refine ⟨?_, ?_, by decide⟩
  · refine not_dom_of_stuck (fun s (hs : s = "\x7blink\x7d".toList) => ?_) rfl
    exact ⟨_, by rw [hs]; exact hloop, rfl⟩
  · rw [getLinkFromResponse, StateTransition.reaches_eval (.single hfirst),
      StateTransition.reaches_eval (.single hsecond)]
    exact StateTransition.mem_eval.mpr ⟨.refl, by decide⟩

end NuulsUploader

end Dankerino
