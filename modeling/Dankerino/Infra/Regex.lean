import Dankerino.Infra.Fuel

/-!
# Regular expressions with backtracking

The regular expressions of a backtracking matcher, over any alphabet: classes, sequences, ordered
choice and greedy repetition. `ends r s` lists what can be left of `s` behind a match of `r` at its
start, in the order in which the matcher tries. The match is the first of them.

Proofs work with `first r k s`: the first match of `r` that the continuation `k` accepts. It has an
equation for every operator, so what a given expression matches can be computed by rewriting.

`captures r s` are the matches in a text from left to right.
-/

namespace Infra

universe u v w x

inductive Regex (α : Type u)
  | empty
  | set (p : α → Bool)
  | seq (r r' : Regex α)
  | alt (r r' : Regex α)
  | star (r : Regex α)

namespace Regex

variable {α : Type u} {β : Type v}

def opt (r : Regex α) : Regex α := .alt r .empty

def plus (r : Regex α) : Regex α := .seq r (.star r)

/-- The given text. -/
def text [DecidableEq α] : List α → Regex α
  | [] => .empty
  | c :: s => .seq (.set fun x => x = c) (text s)

/-- A repetition of at most `n` rounds, each of which must take something. -/
def starEnds (f : List α → List (List α)) : Nat → List α → List (List α)
  | 0, s => [s]
  | n + 1, s => ((f s).filter fun t => t.length < s.length).flatMap (starEnds f n) ++ [s]

def ends : Regex α → List α → List (List α)
  | .empty, s => [s]
  | .set _, [] => []
  | .set p, c :: s => if p c then [s] else []
  | .seq r r', s => (ends r s).flatMap (ends r')
  | .alt r r', s => ends r s ++ ends r' s
  | .star r, s => starEnds (ends r) s.length s

/-- What is left behind the match at the start of the text. -/
def matchAt (r : Regex α) (s : List α) : Option (List α) := (ends r s).head?

/-! ## The first match -/

theorem findSome?_flatMap {γ : Type w} {δ : Type x} (l : List γ) (f : γ → List δ) (k : δ → Option β) :
    (l.flatMap f).findSome? k = l.findSome? fun x => (f x).findSome? k := by
  induction l with
  | nil => rfl
  | cons x l ih =>
    rw [List.flatMap_cons, List.findSome?_append, ih, List.findSome?_cons]
    cases (f x).findSome? k <;> rfl

/-- The first match that the continuation accepts. -/
def first (r : Regex α) (k : List α → Option β) (s : List α) : Option β := (ends r s).findSome? k

variable {k : List α → Option β} {r r' : Regex α} {s : List α}

theorem matchAt_eq (r : Regex α) (s : List α) : matchAt r s = first r some s := by
  rw [matchAt, first]
  cases ends r s <;> rfl

theorem first_empty : first .empty k s = k s := by
  rw [first, ends, List.findSome?_singleton]

theorem first_set_cons (p : α → Bool) (c : α) (s : List α) :
    first (.set p) k (c :: s) = if p c then k s else none := by
  rw [first, ends]
  split
  · rw [List.findSome?_singleton]
  · rfl

theorem first_seq : first (.seq r r') k s = first r (first r' k) s := by
  rw [first, ends, findSome?_flatMap]
  rfl

theorem first_alt : first (.alt r r') k s = (first r k s).or (first r' k s) := by
  rw [first, ends, List.findSome?_append]
  rfl

theorem first_opt : first (.opt r) k s = (first r k s).or (k s) := by
  rw [opt, first_alt, first_empty]

/-- A literal text is matched where it stands. -/
theorem first_text [DecidableEq α] (t : List α) : ∀ {s : List α} {k : List α → Option β},
    first (.text t) k s = if t.isPrefixOf s then k (s.drop t.length) else none := by
  induction t with
  | nil =>
    intro s k
    exact first_empty
  | cons c t ih =>
    intro s k
    rw [text, first_seq]
    cases s with
    | nil => rfl
    | cons x s =>
      rw [first_set_cons]
      by_cases hx : x = c
      · subst hx
        rw [ih]
        simp [List.isPrefixOf]
      · rw [if_neg (by simpa using hx)]
        simp [List.isPrefixOf, beq_eq_false_iff_ne.mpr fun h => hx h.symm]

theorem first_text_append [DecidableEq α] (t s : List α) (k : List α → Option β) :
    first (.text t) k (t ++ s) = k s := by
  rw [first_text, if_pos (List.isPrefixOf_iff_prefix.mpr (List.prefix_append t s)), List.drop_left]

theorem first_text_of_not_prefix [DecidableEq α] {t : List α} (h : ¬ t <+: s) :
    first (.text t) k s = none := by
  rw [first_text, if_neg fun hprefix => h (List.isPrefixOf_iff_prefix.mp hprefix)]

/-! ### Repetition -/

/-- Every match takes something. -/
def Advances (r : Regex α) : Prop := ∀ s, ∀ t ∈ ends r s, t.length < s.length

/-- Rounds that there is no room for make no difference. -/
theorem starEnds_enough (f : List α → List (List α)) : ∀ (n m : Nat) (s : List α),
    s.length ≤ n → s.length ≤ m → starEnds f n s = starEnds f m s := by
  intro n
  induction n with
  | zero =>
    intro m s hn _
    rw [List.length_eq_zero_iff.mp (Nat.le_zero.mp hn)]
    cases m with
    | zero => rfl
    | succ m => simp [starEnds]
  | succ n ih =>
    intro m s hn hm
    cases m with
    | zero =>
      rw [List.length_eq_zero_iff.mp (Nat.le_zero.mp hm)]
      simp [starEnds]
    | succ m =>
      rw [starEnds, starEnds]
      congr 1
      rw [List.flatMap_def, List.flatMap_def]
      congr 1
      refine List.map_congr_left fun t ht => ?_
      have hlt : t.length < s.length := by simpa using (List.mem_filter.mp ht).2
      exact ih m t (by omega) (by omega)

/-- A greedy repetition tries one more round first, and then to stop. -/
theorem first_star (hr : Advances r) :
    first (.star r) k s = (first r (first (.star r) k) s).or (k s) := by
  unfold first
  rw [ends]
  cases hs : s.length with
  | zero =>
    have hnil : ends r s = [] := by
      rw [List.eq_nil_iff_forall_not_mem]
      intro t ht
      have := hr s t ht
      omega
    rw [starEnds, hnil, List.findSome?_singleton]
    rfl
  | succ n =>
    have hall : ((ends r s).filter fun t => decide (t.length < n + 1)) = ends r s :=
      List.filter_eq_self.mpr fun t ht => by simpa [hs] using hr s t ht
    rw [starEnds, hs, hall, List.findSome?_append, findSome?_flatMap,
      List.findSome?_singleton]
    congr 1
    -- the rounds that remain are as many as are needed
    have hrounds : ∀ l : List (List α), (∀ t ∈ l, t.length ≤ n) →
        l.findSome? (fun t => (starEnds (ends r) n t).findSome? k)
          = l.findSome? fun t => (ends (.star r) t).findSome? k := by
      intro l
      induction l with
      | nil => exact fun _ => rfl
      | cons t l ih =>
        intro hl
        rw [List.findSome?_cons, List.findSome?_cons, ih fun t' ht' => hl t' (.tail _ ht'), ends,
          starEnds_enough (ends r) n t.length t (hl t (.head _)) (Nat.le_refl _)]
    exact hrounds _ fun t ht => Nat.le_of_lt_succ (Nat.lt_of_lt_of_eq (hr s t ht) hs)

theorem first_plus (hr : Advances r) :
    first (.plus r) k s = first r (fun t => (first (.plus r) k t).or (k t)) s := by
  rw [plus, first_seq]
  congr 1
  funext t
  rw [first_star hr, first_seq]

theorem advances_set (p : α → Bool) : Advances (.set p) := by
  intro s t ht
  cases s with
  | nil => exact nomatch ht
  | cons c s =>
    rw [ends] at ht
    split at ht
    · rw [List.mem_singleton.mp ht]
      exact Nat.lt_succ_self _
    · exact nomatch ht

theorem advances_alt (h : Advances r) (h' : Advances r') : Advances (.alt r r') := by
  intro s t ht
  rcases List.mem_append.mp ht with ht | ht
  · exact h s t ht
  · exact h' s t ht

/-- A maximal run of characters of a class, behind which the continuation accepts. -/
theorem first_plus_set_of {p : α → Bool} {w rest : List α} {b : β} (hne : w ≠ [])
    (hw : ∀ c ∈ w, p c = true) (hrest : ∀ c, rest.head? = some c → p c = false)
    (hk : k rest = some b) : first (.plus (.set p)) k (w ++ rest) = some b := by
  have hstop : first (.plus (.set p)) k rest = none := by
    rw [first_plus (advances_set p)]
    cases rest with
    | nil => rfl
    | cons c rest => rw [first_set_cons, hrest c rfl, if_neg (by decide)]
  induction w with
  | nil => exact absurd rfl hne
  | cons c w ih =>
    rw [first_plus (advances_set p), List.cons_append, first_set_cons, if_pos (hw c (.head _))]
    cases w with
    | nil =>
      rw [List.nil_append, hstop, hk]
      rfl
    | cons d w =>
      rw [ih (by simp) fun c hc => hw c (.tail _ hc)]
      rfl

theorem first_plus_set {p : α → Bool} {w rest : List α} (hne : w ≠ []) (hw : ∀ c ∈ w, p c = true)
    (hrest : ∀ c, rest.head? = some c → p c = false) :
    first (.plus (.set p)) some (w ++ rest) = some rest :=
  first_plus_set_of hne hw hrest rfl

/-- A class that the first character is not in. -/
theorem first_plus_set_head {p : α → Bool} (h : ∀ c, s.head? = some c → p c = false) :
    first (.plus (.set p)) k s = none := by
  rw [first_plus (advances_set p)]
  cases s with
  | nil => rfl
  | cons c s => rw [first_set_cons, h c rfl, if_neg (by decide)]

/-- A run of a class behind which the continuation never accepts. -/
theorem first_star_set_eq_none {p : α → Bool} : ∀ {s : List α}, (∀ t, t <:+ s → k t = none) →
    first (.star (.set p)) k s = none
  | [], h => by
    rw [first_star (advances_set p), h [] List.suffix_rfl]
    rfl
  | c :: s, h => by
    rw [first_star (advances_set p), first_set_cons, h _ List.suffix_rfl,
      first_star_set_eq_none fun t ht => h t (ht.trans (List.suffix_cons c s)), ite_self]
    rfl

/-- A greedy run of a class goes back to the last place where the continuation accepts. -/
theorem first_star_set_of {p : α → Bool} {w rest : List α} {b : β} (hw : ∀ c ∈ w, p c = true)
    (hk : k rest = some b) (hlast : ∀ t, t <:+ rest → t ≠ rest → k t = none) :
    first (.star (.set p)) k (w ++ rest) = some b := by
  induction w with
  | nil =>
    rw [List.nil_append, first_star (advances_set p), hk]
    cases rest with
    | nil => rfl
    | cons c rest =>
      have hnone : first (.star (.set p)) k rest = none := by
        refine first_star_set_eq_none fun t ht => hlast t (ht.trans (List.suffix_cons c rest)) ?_
        rintro rfl
        exact absurd ht.length_le (by simp)
      rw [first_set_cons, hnone, ite_self]
      rfl
  | cons c w ih =>
    rw [first_star (advances_set p), List.cons_append, first_set_cons, if_pos (hw c (.head _)),
      ih fun c hc => hw c (.tail _ hc)]
    rfl

/-- The first match of an expression that tries to take as little as it can. -/
def firstLazy (r : Regex α) (k : List α → Option β) (s : List α) : Option β :=
  (ends r s).reverse.findSome? k

/-- A lazy repetition of a class tries to stop first. -/
theorem firstLazy_star_set_cons (p : α → Bool) (c : α) (s : List α) :
    firstLazy (.star (.set p)) k (c :: s) =
      (k (c :: s)).or (if p c then firstLazy (.star (.set p)) k s else none) := by
  unfold firstLazy
  rw [ends, List.length_cons, starEnds, List.reverse_append, List.reverse_singleton, List.singleton_append,
    List.findSome?_cons]
  have hrest : (((ends (.set p) (c :: s)).filter fun t => decide (t.length < (c :: s).length)).flatMap
      (starEnds (ends (.set p)) s.length)).reverse.findSome? k =
        if p c then (ends (.star (.set p)) s).reverse.findSome? k else none := by
    rw [ends]
    by_cases hc : p c = true
    · rw [if_pos hc, if_pos hc, List.filter_cons_of_pos (by simp), List.filter_nil, List.flatMap_singleton, ends]
    · rw [if_neg hc, if_neg hc]
      rfl
  rw [hrest]
  cases k (c :: s) <;> rfl

theorem firstLazy_star_set_nil (p : α → Bool) : firstLazy (.star (.set p)) k [] = k [] := by
  show [[]].findSome? k = k []
  exact List.findSome?_singleton

theorem firstLazy_plus_set_cons (p : α → Bool) (c : α) (s : List α) :
    firstLazy (.plus (.set p)) k (c :: s) = if p c then firstLazy (.star (.set p)) k s else none := by
  unfold firstLazy
  rw [plus, ends, ends]
  split
  · rw [List.flatMap_singleton]
  · rfl

/-- A repetition that has to go on to the end, or can go on from there. -/
theorem first_star_dropWhile {p : α → Bool}
    (h : ∀ c t, p c = true → (k (t.dropWhile p)).or (k (c :: t)) = k (t.dropWhile p)) (s : List α) :
    first (.star (.set p)) k s = k (s.dropWhile p) := by
  induction s with
  | nil =>
    rw [first_star (advances_set p)]
    rfl
  | cons c s ih =>
    rw [first_star (advances_set p), first_set_cons]
    by_cases hc : p c = true
    · rw [if_pos hc, ih, List.dropWhile_cons_of_pos hc]
      exact h c s hc
    · rw [if_neg hc, List.dropWhile_cons_of_neg hc]
      rfl

theorem first_plus_dropWhile {p : α → Bool}
    (h : ∀ c t, p c = true → (k (t.dropWhile p)).or (k (c :: t)) = k (t.dropWhile p)) (s : List α) :
    first (.plus (.set p)) k s = if s.takeWhile p = [] then none else k (s.dropWhile p) := by
  rw [plus, first_seq]
  cases s with
  | nil => rfl
  | cons c s =>
    rw [first_set_cons]
    by_cases hc : p c = true
    · rw [if_pos hc, first_star_dropWhile h, List.dropWhile_cons_of_pos hc, List.takeWhile_cons_of_pos hc,
        if_neg (by simp)]
    · rw [if_neg hc, List.takeWhile_cons_of_neg hc, if_pos rfl]

/-- A lazy repetition that can stop only at the end. -/
theorem firstLazy_plus_dropWhile {p : α → Bool} (h : ∀ c t, p c = true → k (c :: t) = none)
    (s : List α) :
    firstLazy (.plus (.set p)) k s = if s.takeWhile p = [] then none else k (s.dropWhile p) := by
  have hstar (s : List α) : firstLazy (.star (.set p)) k s = k (s.dropWhile p) := by
    induction s with
    | nil => exact firstLazy_star_set_nil p
    | cons c s ih =>
      rw [firstLazy_star_set_cons]
      by_cases hc : p c = true
      · rw [if_pos hc, ih, h c s hc, List.dropWhile_cons_of_pos hc, Option.none_or]
      · rw [if_neg hc, List.dropWhile_cons_of_neg hc, Option.or_none]
  cases s with
  | nil => rfl
  | cons c s =>
    rw [firstLazy_plus_set_cons]
    by_cases hc : p c = true
    · rw [if_pos hc, hstar, List.dropWhile_cons_of_pos hc, List.takeWhile_cons_of_pos hc, if_neg (by simp)]
    · rw [if_neg hc, List.takeWhile_cons_of_neg hc, if_pos rfl]

/-- What is left is a suffix of the text. -/
theorem ends_suffix (r : Regex α) : ∀ s, ∀ t ∈ ends r s, t <:+ s := by
  induction r with
  | empty =>
    intro s t ht
    obtain rfl := List.mem_singleton.mp ht
    exact List.suffix_rfl
  | set p =>
    intro s t ht
    cases s with
    | nil => exact nomatch ht
    | cons c s =>
      rw [ends] at ht
      split at ht
      · rw [List.mem_singleton.mp ht]
        exact List.suffix_cons ..
      · exact nomatch ht
  | seq r r' ih ih' =>
    intro s t ht
    obtain ⟨m, hm, ht⟩ := List.mem_flatMap.mp ht
    exact (ih' m t ht).trans (ih s m hm)
  | alt r r' ih ih' =>
    intro s t ht
    rcases List.mem_append.mp ht with ht | ht
    · exact ih s t ht
    · exact ih' s t ht
  | star r ih =>
    suffices hstar : ∀ n s, ∀ t ∈ starEnds (ends r) n s, t <:+ s from fun s => hstar s.length s
    intro n
    induction n with
    | zero =>
      intro s t ht
      obtain rfl := List.mem_singleton.mp ht
      exact List.suffix_rfl
    | succ n ihn =>
      intro s t ht
      rcases List.mem_append.mp ht with ht | ht
      · obtain ⟨m, hm, ht⟩ := List.mem_flatMap.mp ht
        exact (ihn m t ht).trans (ih s m (List.mem_filter.mp hm).1)
      · obtain rfl := List.mem_singleton.mp ht
        exact List.suffix_rfl

/-- A sequence takes something if its first part does. -/
theorem advances_seq (h : Advances r) : Advances (.seq r r') := by
  intro s t ht
  obtain ⟨m, hm, ht⟩ := List.mem_flatMap.mp ht
  exact Nat.lt_of_le_of_lt (ends_suffix r' m t ht).length_le (h s m hm)

/-- A sequence takes something if its second part does. -/
theorem advances_seq_right (h : Advances r') : Advances (.seq r r') := by
  intro s t ht
  obtain ⟨m, hm, ht⟩ := List.mem_flatMap.mp ht
  exact Nat.lt_of_lt_of_le (h m t ht) (ends_suffix r s m hm).length_le

/-! ### Characters of a match -/

/-- Every class of the expression is within the property. -/
def Within (P : α → Prop) : Regex α → Prop
  | .empty => True
  | .set p => ∀ c, p c = true → P c
  | .seq r r' => Within P r ∧ Within P r'
  | .alt r r' => Within P r ∧ Within P r'
  | .star r => Within P r

theorem within_text [DecidableEq α] {P : α → Prop} (t : List α) :
    Within P (text t) ↔ ∀ c ∈ t, P c := by
  induction t with
  | nil => simp [text, Within]
  | cons c t ih => simp [text, Within, ih]

/-- What is taken has the property. -/
theorem ends_within {P : α → Prop} (r : Regex α) : Within P r → ∀ s, ∀ t ∈ ends r s,
    ∃ token, s = token ++ t ∧ ∀ c ∈ token, P c := by
  -- nothing is taken
  have hnothing : ∀ s : List α, ∃ token, s = token ++ s ∧ ∀ c ∈ token, P c :=
    fun s => ⟨[], rfl, fun c hc => nomatch hc⟩
  -- something is taken, and then more
  have happend : ∀ {s m t : List α}, (∃ token, s = token ++ m ∧ ∀ c ∈ token, P c) →
      (∃ token, m = token ++ t ∧ ∀ c ∈ token, P c) → ∃ token, s = token ++ t ∧ ∀ c ∈ token, P c := by
    rintro s m t ⟨token, rfl, h⟩ ⟨token', rfl, h'⟩
    refine ⟨token ++ token', (List.append_assoc ..).symm, fun c hc => ?_⟩
    rcases List.mem_append.mp hc with hc | hc
    · exact h c hc
    · exact h' c hc
  induction r with
  | empty =>
    intro _ s t ht
    obtain rfl := List.mem_singleton.mp ht
    exact hnothing t
  | set p =>
    intro hr s t ht
    cases s with
    | nil => exact nomatch ht
    | cons c s =>
      rw [ends] at ht
      split at ht
      · next hp =>
        obtain rfl := List.mem_singleton.mp ht
        refine ⟨[c], rfl, fun d hd => ?_⟩
        rw [List.mem_singleton.mp hd]
        exact hr c hp
      · exact nomatch ht
  | seq r r' ih ih' =>
    rintro ⟨hr, hr'⟩ s t ht
    obtain ⟨m, hm, ht⟩ := List.mem_flatMap.mp ht
    exact happend (ih hr s m hm) (ih' hr' m t ht)
  | alt r r' ih ih' =>
    rintro ⟨hr, hr'⟩ s t ht
    rcases List.mem_append.mp ht with ht | ht
    · exact ih hr s t ht
    · exact ih' hr' s t ht
  | star r ih =>
    intro hr
    suffices hstar : ∀ n s, ∀ t ∈ starEnds (ends r) n s, ∃ token, s = token ++ t ∧ ∀ c ∈ token, P c
      from fun s => hstar s.length s
    intro n
    induction n with
    | zero =>
      intro s t ht
      obtain rfl := List.mem_singleton.mp ht
      exact hnothing t
    | succ n ihn =>
      intro s t ht
      rcases List.mem_append.mp ht with ht | ht
      · obtain ⟨m, hm, ht⟩ := List.mem_flatMap.mp ht
        exact happend (ih hr s m (List.mem_filter.mp hm).1) (ihn m t ht)
      · obtain rfl := List.mem_singleton.mp ht
        exact hnothing t

/-- What the continuation accepts is one of the matches. -/
theorem exists_of_first {b : β} (h : first r k s = some b) : ∃ t ∈ ends r s, k t = some b :=
  List.exists_of_findSome?_eq_some h

theorem exists_of_firstLazy {b : β} (h : firstLazy r k s = some b) : ∃ t ∈ ends r s, k t = some b := by
  obtain ⟨t, ht, hk⟩ := List.exists_of_findSome?_eq_some h
  exact ⟨t, List.mem_reverse.mp ht, hk⟩

/-- The first match is one of the matches. -/
theorem mem_ends_of_first {t : List α} (h : first r some s = some t) : t ∈ ends r s := by
  rw [← matchAt_eq] at h
  exact List.mem_of_mem_head? h

theorem matchAt_suffix {t : List α} (h : matchAt r s = some t) : t <:+ s :=
  ends_suffix r s t (List.mem_of_mem_head? h)

/-! ## The matches in a text -/

/-- The matches from left to right, in at most `n` rounds. Matches that are empty are skipped. -/
def capturesLoop (r : Regex α) : Nat → List α → List (List α)
  | 0, _ => []
  | _ + 1, [] => []
  | n + 1, c :: s =>
    match matchAt r (c :: s) with
    | none => capturesLoop r n s
    | some t =>
      if t.length < s.length + 1 then
        (c :: s).take (s.length + 1 - t.length) :: capturesLoop r n t
      else capturesLoop r n s

def captures (r : Regex α) (s : List α) : List (List α) := capturesLoop r s.length s

theorem capturesLoop_enough (r : Regex α) : ∀ (n m : Nat) (s : List α),
    s.length ≤ n → s.length ≤ m → capturesLoop r n s = capturesLoop r m s := by
  refine fuel_enough (fun n m => ?_) fun n m c s ih => ?_
  · cases n <;> cases m <;> rfl
  · rw [capturesLoop, capturesLoop, ih s (Nat.le_refl _)]
    cases matchAt r (c :: s) with
    | none => rfl
    | some t =>
      by_cases ht : t.length < s.length + 1
      · simp only [if_pos ht]
        rw [ih t (Nat.le_of_lt_succ ht)]
      · simp only [if_neg ht]

theorem captures_nil (r : Regex α) : captures r [] = [] := rfl

/-- A character at which nothing matches is skipped. -/
theorem captures_skip {c : α} (h : matchAt r (c :: s) = none) :
    captures r (c :: s) = captures r s := by
  rw [captures, List.length_cons, capturesLoop, h]
  rfl

/-- What matches is captured, and the search goes on behind it. -/
theorem captures_match {token rest : List α} (h : matchAt r (token ++ rest) = some rest)
    (hne : token ≠ []) : captures r (token ++ rest) = token :: captures r rest := by
  obtain ⟨c, token, rfl⟩ := List.exists_cons_of_ne_nil hne
  rw [List.cons_append] at h
  rw [captures, List.cons_append, List.length_cons, capturesLoop, h]
  have hlen : (token ++ rest).length = token.length + rest.length := List.length_append
  simp only [hlen, if_pos (show rest.length < token.length + rest.length + 1 by omega)]
  rw [show token.length + rest.length + 1 - rest.length = (c :: token).length by
    rw [List.length_cons]; omega, ← List.cons_append, List.take_left,
    capturesLoop_enough r _ rest.length rest (by omega) (Nat.le_refl _)]
  rfl

/-- Captures of any text, by where the first one is. -/
theorem captures_cons (r : Regex α) (c : α) (s : List α) :
    captures r (c :: s) = captures r s ∨ ∃ token rest, c :: s = token ++ rest ∧ token ≠ [] ∧
      matchAt r (c :: s) = some rest ∧ captures r (c :: s) = token :: captures r rest := by
  cases h : matchAt r (c :: s) with
  | none => exact .inl (captures_skip h)
  | some rest =>
    obtain ⟨token, htoken⟩ := matchAt_suffix h
    by_cases hne : token = []
    · left
      obtain rfl : rest = c :: s := by rw [← htoken, hne]; rfl
      rw [captures, List.length_cons, capturesLoop, h]
      simp only [List.length_cons, Nat.lt_irrefl, if_false]
      rfl
    · right
      refine ⟨token, rest, htoken.symm, hne, rfl, ?_⟩
      rw [← htoken] at h ⊢
      exact captures_match h hne

/-- What is true of a text and its matches, from the end of the text. -/
theorem captures_induction (r : Regex α) {motive : List α → List (List α) → Prop}
    (nil : motive [] [])
    (skip : ∀ c s, motive s (captures r s) → motive (c :: s) (captures r s))
    (token : ∀ token rest, token ≠ [] → matchAt r (token ++ rest) = some rest →
      motive rest (captures r rest) → motive (token ++ rest) (token :: captures r rest))
    (s : List α) : motive s (captures r s) := by
  induction hn : s.length using Nat.strongRecOn generalizing s with
  | ind n ih =>
    cases s with
    | nil => exact nil
    | cons c s =>
      rcases captures_cons r c s with h | ⟨t, rest, hsplit, hne, hmatch, h⟩
      · rw [h]
        exact skip c s (ih s.length (by rw [← hn]; simp) s rfl)
      · have hlt : rest.length < n := by
          have := List.length_pos_iff.mpr hne
          rw [← hn, hsplit, List.length_append]
          omega
        rw [h]
        rw [hsplit] at hmatch ⊢
        exact token t rest hne hmatch (ih _ hlt rest rfl)

/-- The matches from left to right, each with the index at which it starts. -/
def globalMatch (r : Regex α) (start : Nat) : List α → List (Nat × List α)
  | [] => []
  | c :: s =>
    match matchAt r (c :: s) with
    | none => globalMatch r (start + 1) s
    | some rest =>
      if rest.length < s.length + 1 then
        let token := (c :: s).take (s.length + 1 - rest.length)
        (start, token) :: globalMatch r (start + token.length) rest
      else globalMatch r (start + 1) s
termination_by s => s.length

theorem globalMatch_nil (r : Regex α) (start : Nat) : globalMatch r start [] = [] := by
  rw [globalMatch]

theorem globalMatch_skip {c : α} (h : matchAt r (c :: s) = none) (start : Nat) :
    globalMatch r start (c :: s) = globalMatch r (start + 1) s := by
  rw [globalMatch, h]

theorem globalMatch_match {token rest : List α} (h : matchAt r (token ++ rest) = some rest)
    (hne : token ≠ []) (start : Nat) : globalMatch r start (token ++ rest)
      = (start, token) :: globalMatch r (start + token.length) rest := by
  obtain ⟨c, token, rfl⟩ := List.exists_cons_of_ne_nil hne
  rw [List.cons_append] at h
  have htake : (c :: (token ++ rest)).take ((token ++ rest).length + 1 - rest.length) = c :: token := by
    have hlength : (token ++ rest).length + 1 - rest.length = (c :: token).length := by
      rw [List.length_append, List.length_cons]
      omega
    rw [hlength, ← List.cons_append, List.take_left]
  have hlt : rest.length < (token ++ rest).length + 1 := by
    rw [List.length_append]
    omega
  rw [List.cons_append, globalMatch, h]
  simp only [if_pos hlt, htake]

end Regex

end Infra
