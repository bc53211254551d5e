import Dankerino.Qt.Utf16
import Mathlib.Tactic.SplitIfs

/-!
# Tag values

`parseTagString` of `util/IrcHelpers`, which reads the escapes of a tag value and rewrites the text in
place. It looks at the low byte of the unit behind a backslash, so that a unit outside of Latin-1 can be
taken for the letter of an escape. Otherwise it decodes the text in one pass (`parseTagString_iff`), and
what is escaped is always read back.
-/

namespace Dankerino

/-- `QChar::cell`, the low byte. -/
def cell (unit : Nat) : Nat := unit % 256

def backslash : Nat := 0x5C

namespace Units

/-- `replace(i, n, after)`, for one unit after it. -/
def replaceAt (s : Units) (i n after : Nat) : Units := s.take i ++ after :: s.drop (i + n)

end Units

namespace IrcHelpers

/-- The escapes: `n`, `r`, `s`, a backslash and `:`. -/
def tagEscape (c : Nat) : Option Nat :=
  if c = 0x6E then some 0x0A
  else if c = 0x72 then some 0x0D
  else if c = 0x73 then some 0x20
  else if c = backslash then some backslash
  else if c = 0x3A then some 0x3B
  else none

/-- The loop of `parseTagString`. -/
def parseTagLoop (output : Units) (length i : Nat) : Units :=
  if i + 1 < length then
    if output.getD i 0 = backslash then
      match tagEscape (cell (output.getD (i + 1) 0)) with
      | some after => parseTagLoop (output.replaceAt i 2 after) (length - 1) (i + 1)
      | none => parseTagLoop (output.remove i 1) (length - 1) (i + 1)
    else parseTagLoop output length (i + 1)
  else output
termination_by length - i

def parseTagString (input : Units) : Units := parseTagLoop input input.length 0

/-! ## One pass -/

/-- What an escape with the unit stands for. -/
def unescaped (c : Nat) : Nat := (tagEscape c).getD c

/--
The decoding in one pass, from left to right. A backslash that stands alone at the end is no escape, and
`lone` is what becomes of it.
-/
def decodeWith (escape : Nat → Nat) (lone : Units) : Units → Units
  | [] => []
  | [unit] => if unit = backslash then lone else [unit]
  | unit :: c :: rest =>
    if unit = backslash then escape c :: decodeWith escape lone rest
    else unit :: decodeWith escape lone (c :: rest)

def decode (lone input : Units) : Units := decodeWith unescaped lone input

/-- The units of the escapes. -/
def escapes : Units → List Nat
  | [] => []
  | [_] => []
  | unit :: c :: rest => if unit = backslash then c :: escapes rest else escapes (c :: rest)

/-- A backslash that is no escape stands at the end. -/
def EndsLone : Units → Prop
  | [] => False
  | [unit] => unit = backslash
  | unit :: c :: rest => if unit = backslash then EndsLone rest else EndsLone (c :: rest)

/-- The escaping of a unit. -/
def escapeUnit (c : Nat) : Units :=
  if c = 0x0A then [backslash, 0x6E]
  else if c = 0x0D then [backslash, 0x72]
  else if c = 0x20 then [backslash, 0x73]
  else if c = backslash then [backslash, backslash]
  else if c = 0x3B then [backslash, 0x3A]
  else [c]

def escapeTag (s : Units) : Units := s.flatMap escapeUnit

/-- A unit outside of Latin-1 with the low byte of the letter of an escape. -/
def Misread (c : Nat) : Prop := 256 ≤ c ∧ (tagEscape (cell c)).isSome = true

instance (c : Nat) : Decidable (Misread c) := instDecidableAnd

/-! ## The loop -/

theorem replaceAt_escape (done rest : Units) (c after : Nat) :
    Units.replaceAt (done ++ backslash :: c :: rest) done.length 2 after = done ++ [after] ++ rest := by
  simp [Units.replaceAt, List.drop_append]

theorem remove_escape (done rest : Units) (c : Nat) :
    Units.remove (done ++ backslash :: c :: rest) done.length 1 = done ++ [c] ++ rest := by
  simp [Units.remove, List.drop_append]

/-- What the loop makes of an escape. -/
def readEscape (c : Nat) : Nat := (tagEscape (cell c)).getD c

theorem parseTagLoop_eq (done rest : Units) :
    parseTagLoop (done ++ rest) (done ++ rest).length done.length
      = done ++ decodeWith readEscape [backslash] rest := by
  fun_induction decodeWith readEscape [backslash] rest generalizing done with
  | case1 =>
    rw [parseTagLoop, if_neg (by simp)]
  | case2 =>
    rw [parseTagLoop, if_neg (by simp)]
  | case3 unit hunit =>
    rw [parseTagLoop, if_neg (by simp)]
  | case4 c rest ih =>
    have hlt : done.length + 1 < (done ++ backslash :: c :: rest).length := by simp
    have hunit : (done ++ backslash :: c :: rest).getD done.length 0 = backslash := by simp
    have hnext : (done ++ backslash :: c :: rest).getD (done.length + 1) 0 = c := by simp
    have hlength : ∀ after : Nat, (done ++ backslash :: c :: rest).length - 1
        = (done ++ [after] ++ rest).length := by simp
    have hstep : ∀ after : Nat, done.length + 1 = (done ++ [after]).length := by simp
    rw [parseTagLoop, if_pos hlt, if_pos hunit, hnext, readEscape]
    cases htag : tagEscape (cell c) with
    | some after =>
      dsimp only
      rw [replaceAt_escape, hlength after, hstep after, ih, Option.getD_some, List.append_assoc]
      rfl
    | none =>
      dsimp only
      rw [remove_escape, hlength c, hstep c, ih, Option.getD_none, List.append_assoc]
      rfl
  | case5 unit c rest hunit ih =>
    have hlt : done.length + 1 < (done ++ unit :: c :: rest).length := by simp
    have hget : ¬ (done ++ unit :: c :: rest).getD done.length 0 = backslash := by simpa using hunit
    have hsplit : done ++ unit :: c :: rest = done ++ [unit] ++ c :: rest := by simp
    have hstep : done.length + 1 = (done ++ [unit]).length := by simp
    rw [parseTagLoop, if_pos hlt, if_neg hget, hsplit, hstep, ih, List.append_assoc]
    rfl

/-- The loop decodes in one pass, with its own reading of the escapes. -/
theorem parseTagString_eq (input : Units) :
    parseTagString input = decodeWith readEscape [backslash] input :=
  parseTagLoop_eq [] input

/-! ## Two readings of the escapes -/

theorem decodeWith_eq_iff (f g : Nat → Nat) (l l' : Units) (s : Units) :
    decodeWith f l s = decodeWith g l' s ↔ (∀ c ∈ escapes s, f c = g c) ∧ (EndsLone s → l = l') := by
  fun_induction decodeWith f l s with
  | case1 => simp [decodeWith, escapes, EndsLone]
  | case2 => simp [decodeWith, escapes, EndsLone]
  | case3 unit hunit => simp [decodeWith, escapes, EndsLone, hunit]
  | case4 c rest ih => simp [decodeWith, escapes, EndsLone, ih, and_assoc]
  | case5 unit c rest hunit ih => simp [decodeWith, escapes, EndsLone, hunit, ih]

/-- The letters of escapes are in Latin-1. -/
theorem lt_of_tagEscape {c after : Nat} (h : tagEscape c = some after) : c < 256 ∧ after < 256 := by
  unfold tagEscape backslash at h
  split_ifs at h <;> have hafter := Option.some.inj h <;> omega

theorem readEscape_eq_iff (c : Nat) : readEscape c = unescaped c ↔ ¬ Misread c := by
  unfold readEscape unescaped Misread
  rcases Nat.lt_or_ge c 256 with hlt | hge
  · rw [cell, Nat.mod_eq_of_lt hlt]
    exact iff_of_true rfl fun hmisread => absurd hmisread.1 (Nat.not_le.mpr hlt)
  · have hnone : tagEscape c = none := by
      cases htag : tagEscape c with
      | none => rfl
      | some after => exact absurd (lt_of_tagEscape htag).1 (Nat.not_lt.mpr hge)
    rw [hnone]
    cases htag : tagEscape (cell c) with
    | none => simp
    | some after =>
      have hafter := (lt_of_tagEscape htag).2
      simp only [Option.getD_some, Option.getD_none, Option.isSome_some, and_true]
      omega

theorem decodeWith_cons {f : Nat → Nat} {l : Units} {unit : Nat} (h : unit ≠ backslash) (rest : Units) :
    decodeWith f l (unit :: rest) = unit :: decodeWith f l rest := by
  cases rest with
  | nil => simp [decodeWith, h]
  | cons c rest => rw [decodeWith, if_neg h]

theorem decodeWith_escapeUnit (l : Units) (c : Nat) (rest : Units) :
    decodeWith readEscape l (escapeUnit c ++ rest) = c :: decodeWith readEscape l rest := by
  unfold escapeUnit
  split_ifs with hn hr hs hb hc
  · rw [hn]
    rfl
  · rw [hr]
    rfl
  · rw [hs]
    rfl
  · rw [hb]
    rfl
  · rw [hc]
    rfl
  · exact decodeWith_cons hb rest

theorem decodeWith_escapeTag (l s : Units) : decodeWith readEscape l (escapeTag s) = s := by
  induction s with
  | nil => rfl
  | cons c s ih =>
    have hcons : escapeTag (c :: s) = escapeUnit c ++ escapeTag s := List.flatMap_cons
    rw [hcons, decodeWith_escapeUnit, ih]

/--
**Tag values.** The text is decoded in one pass exactly if no unit of an escape is outside of Latin-1
with the low byte of one of the letters. If a backslash alone at the end is to be dropped, none may stand
there. What is escaped is read back.
-/
theorem parseTagString_iff (input : Units) :
    (parseTagString input = decode [backslash] input ↔ ∀ c ∈ escapes input, ¬ Misread c) ∧
      (parseTagString input = decode [] input ↔
        (∀ c ∈ escapes input, ¬ Misread c) ∧ ¬ EndsLone input) ∧
      parseTagString (escapeTag input) = input := by
  have hescapes : (∀ c ∈ escapes input, readEscape c = unescaped c) ↔ ∀ c ∈ escapes input, ¬ Misread c :=
    forall_congr' fun c => forall_congr' fun _ => readEscape_eq_iff c
  refine ⟨?_, ?_, ?_⟩
  · rw [parseTagString_eq, decode, decodeWith_eq_iff, hescapes]
    simp
  · rw [parseTagString_eq, decode, decodeWith_eq_iff, hescapes]
    simp
  · rw [parseTagString_eq, decodeWith_escapeTag]

/-- `Ů` behind a backslash is taken for an `n`. -/
theorem misread_is_newline :
    parseTagString [0x61, backslash, 0x16E, 0x62] = [0x61, 0x0A, 0x62] ∧
      decode [backslash] [0x61, backslash, 0x16E, 0x62] = [0x61, 0x16E, 0x62] := by
  rw [parseTagString_eq]
  decide

example : parseTagString [0x66, backslash, 0x3A, 0x62] = [0x66, 0x3B, 0x62] := by
  rw [parseTagString_eq]
  decide

end IrcHelpers

end Dankerino
