import Dankerino.Infra.RegexLanguage
import Dankerino.Qt.Utf16

/-!
# Short codes

`Emojis::replaceShortCodes`, which finds the codes in the text and replaces them one after another in a copy
of it. The index of a code in the copy is its index in the text and an offset. The result is the text with
all known codes replaced at once (`replaceShortCodes_eq_iff`).

The text is meant to be well-formed UTF-16. In one with a surrogate alone the regular expression finds
nothing, which is left out here.
-/

namespace Dankerino

open Infra

/-- `QString::replace` of the units from an index on. -/
def Units.replace (s : Units) (position : Int) (n : Nat) (after : Units) : Units :=
  if position < 0 ∨ (s.length : Int) < position then s
  else s.take position.toNat ++ after ++ s.drop (position.toNat + n)

namespace Emojis

/-- `[-+\w]` -/
def isCodeUnit (unit : Nat) : Bool :=
  unit = 0x2D || unit = 0x2B || unit = 0x5F || (0x30 ≤ unit && unit ≤ 0x39)
    || (0x41 ≤ unit && unit ≤ 0x5A) || (0x61 ≤ unit && unit ≤ 0x7A)

/-- `:([-+\w]+):` -/
def findShortCodesRegex : Regex Nat :=
  .seq (.text [0x3A]) (.seq (.plus (.set isCodeUnit)) (.text [0x3A]))

section Replace

-- `emojiShortCodeToEmoji_`, with the value of the emoji
variable (emojiShortCodeToEmoji : Units → Option Units)

/-- One round of the loop, on `ret` and `offset`. -/
def replaceMatch (state : Units × Int) (found : Nat × Units) : Units × Int :=
  let (ret, offset) := state
  let (capturedStart, capturedString) := found
  let matchString := capturedString.toLower.mid 1 (capturedString.length - 2)
  match emojiShortCodeToEmoji matchString with
  | none => (ret, offset)
  | some value =>
    (ret.replace (offset + capturedStart) capturedString.length value,
      offset + (value.length - capturedString.length))

def replaceShortCodes (text : Units) : Units :=
  ((Regex.globalMatch findShortCodesRegex 0 text).foldl (replaceMatch emojiShortCodeToEmoji) (text, 0)).1

/-! ## All codes at once -/

structure IsCode (code : Units) : Prop where
  ne_nil : code ≠ []
  units : ∀ unit ∈ code, isCodeUnit unit = true

/-- A code between colons. -/
def enclosed (code : Units) : Units := 0x3A :: (code ++ [0x3A])

/-- The emoji of a known code, and an unknown code as it is. -/
def emojiOf (code : Units) : Units := (emojiShortCodeToEmoji code.toLower).getD (enclosed code)

/-- From left to right: each code is replaced, and each other unit is kept. -/
inductive Substituted : Units → Units → Prop
  | nil : Substituted [] []
  | unit {unit : Nat} {rest result : Units} (hnone : ∀ code, IsCode code → ¬ enclosed code <+: unit :: rest)
      (hrest : Substituted rest result) : Substituted (unit :: rest) (unit :: result)
  | code {code rest result : Units} (hcode : IsCode code) (hrest : Substituted rest result) :
      Substituted (enclosed code ++ rest) (emojiOf emojiShortCodeToEmoji code ++ result)

end Replace

theorem mem_lang_findShortCodesRegex {token : Units} :
    token ∈ Regex.lang findShortCodesRegex ↔ ∃ code, IsCode code ∧ token = enclosed code := by
  simp only [findShortCodesRegex, Regex.mem_lang_seq, Regex.mem_lang_text, Regex.mem_lang_plus_set]
  constructor
  · rintro ⟨_, rfl, _, ⟨code, ⟨hne, hunits⟩, _, rfl, rfl⟩, rfl⟩
    exact ⟨code, ⟨hne, hunits⟩, rfl⟩
  · rintro ⟨code, ⟨hne, hunits⟩, rfl⟩
    exact ⟨_, rfl, _, ⟨code, ⟨hne, hunits⟩, _, rfl, rfl⟩, rfl⟩

theorem isCodeUnit_colon : isCodeUnit 0x3A = false := by decide

/-- A code ends at the first colon behind it. -/
theorem takeWhile_enclosed {code : Units} (h : IsCode code) (rest : Units) :
    (code ++ 0x3A :: rest).takeWhile isCodeUnit = code := by
  rw [List.takeWhile_append_of_pos h.units, List.takeWhile_cons_of_neg (by simp [isCodeUnit_colon]),
    List.append_nil]

/-- At most one code starts a text. -/
theorem enclosed_inj {code code' rest rest' : Units} (h : IsCode code) (h' : IsCode code')
    (heq : enclosed code ++ rest = enclosed code' ++ rest') : code = code' ∧ rest = rest' := by
  rw [enclosed, enclosed, List.cons_append, List.cons_append, List.append_assoc, List.append_assoc] at heq
  have htail := (List.cons.inj heq).2
  have hcode : code = code' := by
    rw [← takeWhile_enclosed h rest, ← takeWhile_enclosed h' rest']
    exact congrArg _ htail
  subst hcode
  exact ⟨rfl, (List.cons.inj (List.append_cancel_left htail)).2⟩

section Table

variable {emojiShortCodeToEmoji : Units → Option Units} {text result result' : Units}

/-- There is only one such result. -/
theorem Substituted.unique (h : Substituted emojiShortCodeToEmoji text result)
    (h' : Substituted emojiShortCodeToEmoji text result') : result = result' := by
  induction h generalizing result' with
  | nil =>
    generalize htext : ([] : Units) = text at h'
    cases h' with
    | nil => rfl
    | unit => exact nomatch htext
    | code => exact nomatch htext
  | @unit unit rest result hnone hrest ih =>
    generalize htext : unit :: rest = text at h'
    cases h' with
    | nil => exact nomatch htext
    | unit hnone' hrest' =>
      obtain ⟨rfl, rfl⟩ := List.cons.inj htext
      rw [ih hrest']
    | code hcode' hrest' => exact absurd ⟨_, htext.symm⟩ (hnone _ hcode')
  | @code code rest result hcode hrest ih =>
    generalize htext : enclosed code ++ rest = text at h'
    cases h' with
    | nil => exact nomatch htext
    | unit hnone' hrest' => exact absurd ⟨_, htext⟩ (hnone' _ hcode)
    | code hcode' hrest' =>
      obtain ⟨rfl, rfl⟩ := enclosed_inj hcode hcode' htext
      rw [ih hrest']

/-! ## The loop -/

/-- The string that is looked up is the code in lower case. -/
theorem mid_enclosed (code : Units) :
    (enclosed code).toLower.mid 1 ((enclosed code).length - 2) = code.toLower := by
  have hlength : (enclosed code).length = code.length + 2 := by simp [enclosed]
  have hsplit : (enclosed code).toLower = 0x3A :: (code.toLower ++ [0x3A]) := by
    simp [enclosed, Units.toLower]
  have hmid := Units.mid_natCast (enclosed code).toLower (show 1 ≤ code.length + 1 by omega)
  have hcount : ((enclosed code).length : Int) - 2 = ((code.length + 1 : Nat) : Int) - (1 : Nat) := by
    omega
  have hlower : code.toLower.length = code.length := List.length_map _
  rw [hcount]
  refine hmid.trans ?_
  rw [hsplit, List.take_succ_cons, List.drop_succ_cons, List.drop_zero, ← hlower, List.take_left]

/-- A code behind what is done is replaced. -/
theorem replace_append (done rest value : Units) {token : Units} {position : Int}
    (h : position = done.length) :
    (done ++ (token ++ rest)).replace position token.length value = done ++ value ++ rest := by
  have hin : ¬ (position < 0 ∨ ((done ++ (token ++ rest)).length : Int) < position) := by
    rw [h, List.length_append]
    omega
  rw [Units.replace, if_neg hin, h, Int.toNat_natCast, List.take_left, ← List.drop_drop, List.drop_left,
    List.drop_left]

variable (emojiShortCodeToEmoji text) in
/-- What is done is as long as the index and the offset say, and what is left is the text. -/
theorem foldl_replaceMatch (done : Units) (start : Nat) (offset : Int)
    (h : offset + start = done.length) : ∃ result, Substituted emojiShortCodeToEmoji text result ∧
      ((Regex.globalMatch findShortCodesRegex start text).foldl (replaceMatch emojiShortCodeToEmoji)
        (done ++ text, offset)).1 = done ++ result := by
  induction hn : text.length using Nat.strongRecOn generalizing text done start offset with
  | ind n ih =>
    cases text with
    | nil => exact ⟨[], .nil, by rw [Regex.globalMatch_nil]; rfl⟩
    | cons unit text =>
      cases hmatch : Regex.matchAt findShortCodesRegex (unit :: text) with
      | none =>
        -- the unit is done
        have hlength : offset + ((start + 1 : Nat) : Int) = ((done ++ [unit]).length : Int) := by
          rw [List.length_append, List.length_singleton]
          omega
        obtain ⟨result, hresult, heq⟩ := ih text.length (by simp [← hn]) text (done ++ [unit]) (start + 1)
          offset hlength rfl
        refine ⟨unit :: result, .unit (fun code hcode => ?_) hresult, ?_⟩
        · exact Regex.matchAt_eq_none_iff.mp hmatch _ (mem_lang_findShortCodesRegex.mpr ⟨code, hcode, rfl⟩)
        · rw [List.append_assoc, List.singleton_append, List.append_assoc, List.singleton_append] at heq
          rw [Regex.globalMatch_skip hmatch, heq]
      | some rest =>
        obtain ⟨token, htoken, hsplit⟩ := Regex.exists_of_matchAt hmatch
        obtain ⟨code, hcode, rfl⟩ := mem_lang_findShortCodesRegex.mp htoken
        rw [hsplit] at hmatch hn ⊢
        have hlt : rest.length < n := by
          rw [← hn, List.length_append, enclosed, List.length_cons]
          omega
        rw [Regex.globalMatch_match hmatch (List.cons_ne_nil _ _), List.foldl_cons, replaceMatch]
        simp only [mid_enclosed]
        cases hvalue : emojiShortCodeToEmoji code.toLower with
        | none =>
          -- the code is kept
          have hlength : offset + ((start + (enclosed code).length : Nat) : Int)
              = ((done ++ enclosed code).length : Int) := by
            rw [List.length_append]
            omega
          obtain ⟨result, hresult, heq⟩ := ih _ hlt rest (done ++ enclosed code) _ offset hlength rfl
          refine ⟨_, .code hcode hresult, ?_⟩
          rw [List.append_assoc, List.append_assoc] at heq
          rw [emojiOf, hvalue, Option.getD_none]
          exact heq
        | some value =>
          have hlength : offset + ((value.length : Int) - (enclosed code).length)
              + ((start + (enclosed code).length : Nat) : Int) = ((done ++ value).length : Int) := by
            rw [List.length_append]
            omega
          obtain ⟨result, hresult, heq⟩ := ih _ hlt rest (done ++ value) _ _ hlength rfl
          refine ⟨_, .code hcode hresult, ?_⟩
          simp only [replace_append done rest value h]
          rw [emojiOf, hvalue, Option.getD_some, ← List.append_assoc]
          exact heq

end Table

/-- The result is the text with all known codes replaced at once. -/
theorem replaceShortCodes_eq_iff (emojiShortCodeToEmoji : Units → Option Units) (text result : Units) :
    replaceShortCodes emojiShortCodeToEmoji text = result ↔
      Substituted emojiShortCodeToEmoji text result := by
  obtain ⟨found, hfound, heq⟩ := foldl_replaceMatch emojiShortCodeToEmoji text [] 0 0 rfl
  have hcode : replaceShortCodes emojiShortCodeToEmoji text = found := heq
  rw [hcode]
  constructor
  · rintro rfl
    exact hfound
  · exact fun h => hfound.unique h

end Emojis

end Dankerino
