import Dankerino.Infra.Regex
import Mathlib.Computability.Language

/-!
# The language of a regular expression

What a backtracking matcher can take from the front of a text are the words of the language of its
expression (`mem_ends_iff`). The order in which it tries does not matter for that.
-/

namespace Infra.Regex

universe u

variable {α : Type u} {r r' : Regex α} {s t w : List α}

/-- The words of an expression. -/
def lang : Regex α → Language α
  | .empty => 1
  | .set p => {w | ∃ c, p c = true ∧ w = [c]}
  | .seq r r' => lang r * lang r'
  | .alt r r' => lang r + lang r'
  | .star r => KStar.kstar (lang r)

/-- The matches are the words that the text begins with. -/
def Sound (f : List α → List (List α)) (l : Language α) : Prop :=
  ∀ s t, t ∈ f s ↔ ∃ w ∈ l, s = w ++ t

theorem mem_starEnds_iff {f : List α → List (List α)} {l : Language α} (h : Sound f l) : ∀ (n : Nat)
    (s t : List α), s.length ≤ n →
      (t ∈ starEnds f n s ↔ ∃ words : List (List α), (∀ w ∈ words, w ∈ l ∧ w ≠ []) ∧
        s = words.flatten ++ t) := by
  intro n
  induction n with
  | zero =>
    intro s t hs
    obtain rfl := List.length_eq_zero_iff.mp (Nat.le_zero.mp hs)
    rw [starEnds, List.mem_singleton]
    constructor
    · rintro rfl
      exact ⟨[], ⟨List.forall_mem_nil _, rfl⟩⟩
    · rintro ⟨words, -, heq⟩
      exact (List.append_eq_nil_iff.mp heq.symm).2
  | succ n ih =>
    intro s t hs
    rw [starEnds, List.mem_append, List.mem_singleton]
    constructor
    · rintro (ht | rfl)
      · obtain ⟨m, hm, hrest⟩ := List.mem_flatMap.mp ht
        obtain ⟨hm, hlt⟩ := List.mem_filter.mp hm
        have hlt : m.length < s.length := of_decide_eq_true hlt
        obtain ⟨w, hw, rfl⟩ := (h s m).mp hm
        obtain ⟨words, hwords, rfl⟩ := (ih m t (by omega)).mp hrest
        refine ⟨w :: words, List.forall_mem_cons.mpr ⟨⟨hw, ?_⟩, hwords⟩, by simp⟩
        rintro rfl
        exact absurd hlt (Nat.lt_irrefl _)
      · exact ⟨[], ⟨List.forall_mem_nil _, rfl⟩⟩
    · rintro ⟨words, hwords, rfl⟩
      cases words with
      | nil => exact .inr rfl
      | cons w words =>
        obtain ⟨⟨hw, hne⟩, hwords⟩ := List.forall_mem_cons.mp hwords
        have hpos := List.length_pos_iff.mpr hne
        have hsplit : (w :: words).flatten ++ t = w ++ (words.flatten ++ t) := by simp
        rw [hsplit] at hs ⊢
        rw [List.length_append] at hs
        refine .inl (List.mem_flatMap.mpr ⟨words.flatten ++ t, List.mem_filter.mpr ⟨?_, ?_⟩, ?_⟩)
        · exact (h _ _).mpr ⟨w, hw, rfl⟩
        · have hlength : (w ++ (words.flatten ++ t)).length = w.length + (words.flatten ++ t).length :=
            List.length_append
          rw [decide_eq_true_eq, hlength]
          omega
        · exact (ih _ _ (by omega)).mpr ⟨words, hwords, rfl⟩

/-- **What can be taken** from the front of a text are the words of the expression. -/
theorem sound_ends (r : Regex α) : Sound (ends r) (lang r) := by
  induction r with
  | empty =>
    intro s t
    rw [ends, List.mem_singleton]
    constructor
    · rintro rfl
      exact ⟨[], Set.mem_singleton _, rfl⟩
    · rintro ⟨w, hw, rfl⟩
      rw [Set.mem_singleton_iff.mp hw]
      rfl
  | set p =>
    intro s t
    cases s with
    | nil =>
      refine iff_of_false (fun h => by cases h) ?_
      rintro ⟨w, ⟨c, -, rfl⟩, heq⟩
      cases heq
    | cons c s =>
      rw [ends]
      constructor
      · intro ht
        split at ht
        · next hc =>
          obtain rfl := List.mem_singleton.mp ht
          exact ⟨[c], ⟨c, hc, rfl⟩, rfl⟩
        · cases ht
      · rintro ⟨w, ⟨d, hd, rfl⟩, heq⟩
        obtain ⟨rfl, rfl⟩ := List.cons.inj heq
        rw [if_pos hd]
        exact List.mem_singleton_self _
  | seq r r' ih ih' =>
    intro s t
    rw [ends, List.mem_flatMap]
    constructor
    · rintro ⟨m, hm, ht⟩
      obtain ⟨w, hw, rfl⟩ := (ih s m).mp hm
      obtain ⟨w', hw', rfl⟩ := (ih' m t).mp ht
      exact ⟨w ++ w', Language.mem_mul.mpr ⟨w, hw, w', hw', rfl⟩, (List.append_assoc ..).symm⟩
    · rintro ⟨_, hmul, rfl⟩
      obtain ⟨w, hw, w', hw', rfl⟩ := Language.mem_mul.mp hmul
      exact ⟨w' ++ t, (ih _ _).mpr ⟨w, hw, List.append_assoc ..⟩, (ih' _ _).mpr ⟨w', hw', rfl⟩⟩
  | alt r r' ih ih' =>
    intro s t
    rw [ends, List.mem_append, ih s t, ih' s t]
    constructor
    · rintro (⟨w, hw, heq⟩ | ⟨w, hw, heq⟩)
      · exact ⟨w, .inl hw, heq⟩
      · exact ⟨w, .inr hw, heq⟩
    · rintro ⟨w, hw | hw, heq⟩
      · exact .inl ⟨w, hw, heq⟩
      · exact .inr ⟨w, hw, heq⟩
  | star r ih =>
    intro s t
    rw [ends, mem_starEnds_iff ih s.length s t (Nat.le_refl _)]
    constructor
    · rintro ⟨words, hwords, heq⟩
      exact ⟨words.flatten, Language.mem_kstar_iff_exists_nonempty.mpr ⟨words, rfl, hwords⟩, heq⟩
    · rintro ⟨w, hw, rfl⟩
      obtain ⟨words, rfl, hwords⟩ := Language.mem_kstar_iff_exists_nonempty.mp hw
      exact ⟨words, hwords, rfl⟩

theorem mem_ends_iff : t ∈ ends r s ↔ ∃ w ∈ lang r, s = w ++ t := sound_ends r s t

theorem mem_lang_set {p : α → Bool} : w ∈ lang (.set p) ↔ ∃ c, p c = true ∧ w = [c] := Iff.rfl

theorem mem_lang_seq : w ∈ lang (.seq r r') ↔ ∃ a ∈ lang r, ∃ b ∈ lang r', a ++ b = w := Iff.rfl

theorem mem_lang_opt : w ∈ lang (.opt r) ↔ w ∈ lang r ∨ w = [] := Iff.rfl

theorem mem_lang_text [DecidableEq α] {word : List α} : w ∈ lang (.text word) ↔ w = word := by
  induction word generalizing w with
  | nil => exact Set.mem_singleton_iff
  | cons c word ih =>
    rw [text, mem_lang_seq]
    constructor
    · rintro ⟨a, ⟨d, hd, rfl⟩, b, hb, rfl⟩
      rw [ih.mp hb, of_decide_eq_true hd]
      rfl
    · rintro rfl
      exact ⟨[c], ⟨c, decide_eq_true rfl, rfl⟩, word, ih.mpr rfl, rfl⟩

/-- The words of a repeated class are made of its characters. -/
theorem mem_lang_star_set {p : α → Bool} : w ∈ lang (.star (.set p)) ↔ ∀ c ∈ w, p c = true := by
  constructor
  · intro h
    obtain ⟨words, rfl, hwords⟩ := Language.mem_kstar.mp h
    intro c hc
    obtain ⟨word, hword, hc⟩ := List.mem_flatten.mp hc
    obtain ⟨d, hd, rfl⟩ := hwords word hword
    rwa [List.mem_singleton.mp hc]
  · intro h
    refine Language.mem_kstar.mpr ⟨w.map fun c => [c], (List.flatMap_singleton' w).symm, fun word hword => ?_⟩
    obtain ⟨c, hc, rfl⟩ := List.mem_map.mp hword
    exact ⟨c, h c hc, rfl⟩

theorem mem_lang_plus_set {p : α → Bool} :
    w ∈ lang (.plus (.set p)) ↔ w ≠ [] ∧ ∀ c ∈ w, p c = true := by
  rw [plus, mem_lang_seq]
  constructor
  · rintro ⟨a, ⟨c, hc, rfl⟩, b, hb, rfl⟩
    exact ⟨List.cons_ne_nil _ _, List.forall_mem_cons.mpr ⟨hc, mem_lang_star_set.mp hb⟩⟩
  · rintro ⟨hne, hall⟩
    obtain ⟨c, w, rfl⟩ := List.exists_cons_of_ne_nil hne
    obtain ⟨hc, hall⟩ := List.forall_mem_cons.mp hall
    exact ⟨[c], ⟨c, hc, rfl⟩, w, mem_lang_star_set.mpr hall, rfl⟩

/-- Where nothing matches, the text begins with no word. -/
theorem matchAt_eq_none_iff : matchAt r s = none ↔ ∀ w ∈ lang r, ¬ w <+: s := by
  rw [matchAt, List.head?_eq_none_iff, List.eq_nil_iff_forall_not_mem]
  constructor
  · rintro h w hw ⟨t, rfl⟩
    exact h t (mem_ends_iff.mpr ⟨w, hw, rfl⟩)
  · intro h t ht
    obtain ⟨w, hw, rfl⟩ := mem_ends_iff.mp ht
    exact h w hw (List.prefix_append w t)

theorem exists_of_matchAt (h : matchAt r s = some t) : ∃ w ∈ lang r, s = w ++ t :=
  mem_ends_iff.mp (List.mem_of_mem_head? h)

end Infra.Regex
