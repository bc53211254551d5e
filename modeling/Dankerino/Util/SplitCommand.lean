import Dankerino.Qt.QString

/-!
# Splitting a command line

`splitCommand`, with which the options for Streamlink are split into arguments. Quotes are read in
runs: three quotes are one character, and of the rest of a run only a single quote opens or closes.

* `splitCommand_eq_words`: the loop with its counter splits what the quotes make of the text at the
  blanks outside of quotes.
* `splitCommand_quoted`: arguments that are quoted and joined are read back.
-/

namespace Dankerino

namespace SplitCommand

structure State where
  args : List QString
  tmp : QString
  quoteCount : Nat
  inQuote : Bool

def initial : State where
  args := []
  tmp := []
  quoteCount := 0
  inQuote := false

def flush (s : State) : State :=
  if s.tmp ≠ [] then { s with args := s.args ++ [s.tmp], tmp := [] } else s

/-- What the quotes before a character leave behind. -/
def settle (s : State) : State :=
  { s with
    inQuote := if s.quoteCount = 1 then !s.inQuote else s.inQuote
    quoteCount := 0 }

/-- One character of the loop. -/
def step (s : State) (c : Char) : State :=
  if c = '"' then
    if s.quoteCount + 1 = 3 then { s with quoteCount := 0, tmp := s.tmp ++ [c] }
    else { s with quoteCount := s.quoteCount + 1 }
  else
    let s := settle s
    if !s.inQuote && QString.isSpace c then flush s else { s with tmp := s.tmp ++ [c] }

end SplitCommand

open SplitCommand in
def splitCommand (command : QString) : List QString := (flush (command.foldl step initial)).args

namespace SplitCommand

/-! ## What the quotes mean -/

/--
The characters of the arguments, and `none` for a blank between two. A run of quotes stands for one
quote for each three of them, and turns quoting on or off if one is left. The number is of the quotes
read of the run so far.
-/
def symbols : Nat → Bool → QString → List (Option Char)
  | quotes, _, [] => List.replicate (quotes / 3) (some '"')
  | quotes, inQuote, c :: command =>
    if c = '"' then symbols (quotes + 1) inQuote command
    else
      let inQuote := if quotes % 3 = 1 then !inQuote else inQuote
      List.replicate (quotes / 3) (some '"') ++
        (if !inQuote && QString.isSpace c then none else some c) :: symbols 0 inQuote command

/-- The arguments in a list of symbols. No argument is empty. -/
def words (syms : List (Option Char)) : List QString :=
  ((syms.splitOnP Option.isNone).map (List.filterMap id)).filter (· ≠ [])

theorem words_map_some (tmp : QString) : words (tmp.map some) = [tmp].filter (· ≠ []) := by
  have hnone : ∀ x ∈ tmp.map some, x.isNone = false := by simp
  rw [words, List.splitOnP_eq_singleton hnone]
  simp

theorem words_map_some_none (tmp : QString) (syms : List (Option Char)) :
    words (tmp.map some ++ none :: syms) = [tmp].filter (· ≠ []) ++ words syms := by
  have hnone : ∀ x ∈ tmp.map some, x.isNone = false := by simp
  rw [words, List.splitOnP_append_cons_of_forall_mem hnone none rfl, List.map_cons, List.filterMap_map,
    ← List.singleton_append, List.filter_append, words]
  simp

/-- The state that the loop is in after a run of quotes. -/
def State.afterRun (args : List QString) (tmp : QString) (quotes : Nat) (inQuote : Bool) : State where
  args
  tmp := tmp ++ List.replicate (quotes / 3) '"'
  quoteCount := quotes % 3
  inQuote

theorem step_quote (args : List QString) (tmp : QString) (quotes : Nat) (inQuote : Bool) :
    step (.afterRun args tmp quotes inQuote) '"' = .afterRun args tmp (quotes + 1) inQuote := by
  unfold step State.afterRun
  rw [if_pos rfl]
  by_cases h : quotes % 3 + 1 = 3
  · have hdiv : (quotes + 1) / 3 = quotes / 3 + 1 := by omega
    have hmod : (quotes + 1) % 3 = 0 := by omega
    rw [if_pos h, hdiv, hmod, List.replicate_succ', List.append_assoc]
  · have hdiv : (quotes + 1) / 3 = quotes / 3 := by omega
    have hmod : (quotes + 1) % 3 = quotes % 3 + 1 := by omega
    rw [if_neg h, hdiv, hmod]

/-- Any other character ends the run. -/
theorem step_other (args : List QString) (tmp : QString) (quotes : Nat) (inQuote : Bool) {c : Char}
    (hc : c ≠ '"') :
    step (.afterRun args tmp quotes inQuote) c =
      let inQuote := if quotes % 3 = 1 then !inQuote else inQuote
      if !inQuote && QString.isSpace c then flush ⟨args, tmp ++ List.replicate (quotes / 3) '"', 0, inQuote⟩
      else ⟨args, tmp ++ List.replicate (quotes / 3) '"' ++ [c], 0, inQuote⟩ := by
  unfold step State.afterRun
  rw [if_neg hc]
  rfl

theorem flush_eq (args : List QString) (tmp : QString) (quotes : Nat) (inQuote : Bool) :
    flush ⟨args, tmp, quotes, inQuote⟩ = ⟨args ++ [tmp].filter (· ≠ []), [], quotes, inQuote⟩ := by
  unfold flush
  by_cases h : tmp = [] <;> simp [h]

/-- The loop from the middle of a command on. -/
theorem foldl_step (command : QString) : ∀ (args : List QString) (tmp : QString) (quotes : Nat) (inQuote : Bool),
    (flush (command.foldl step (.afterRun args tmp quotes inQuote))).args
      = args ++ words (tmp.map some ++ symbols quotes inQuote command) := by
  induction command with
  | nil =>
    intro args tmp quotes inQuote
    have hsyms : tmp.map some ++ symbols quotes inQuote [] = (tmp ++ List.replicate (quotes / 3) '"').map some := by
      simp [symbols]
    rw [hsyms, words_map_some, List.foldl_nil, State.afterRun, flush_eq]
  | cons c command ih =>
    intro args tmp quotes inQuote
    rw [List.foldl_cons, symbols]
    by_cases hc : c = '"'
    · rw [if_pos hc, hc, step_quote, ih]
    · -- the run of quotes is over: the character is part of the argument, or a blank after it
      rw [if_neg hc, step_other args tmp quotes inQuote hc]
      dsimp only
      generalize (if quotes % 3 = 1 then !inQuote else inQuote) = inQuote
      have hrun : tmp.map some ++ List.replicate (quotes / 3) (some '"')
          = (tmp ++ List.replicate (quotes / 3) '"').map some := by simp
      rw [← List.append_assoc, hrun]
      split
      · have hnext := ih (args ++ [tmp ++ List.replicate (quotes / 3) '"'].filter (· ≠ [])) [] 0 inQuote
        rw [words_map_some_none, flush_eq args _ 0 inQuote, ← List.append_assoc]
        simpa [State.afterRun] using hnext
      · have hnext := ih args (tmp ++ List.replicate (quotes / 3) '"' ++ [c]) 0 inQuote
        simpa [State.afterRun] using hnext

/--
**What the quotes mean.** The loop over a command with its two flags gives the words of the symbols.
-/
theorem splitCommand_eq_words (command : QString) :
    splitCommand command = words (symbols 0 false command) := by
  have h := foldl_step command [] [] 0 false
  simpa [splitCommand, State.afterRun, initial] using h

/-! ## Quoted arguments are read back -/

/-- An argument between quotes, with each quote in it written three times. -/
def quoted (arg : QString) : QString :=
  '"' :: arg.flatMap (fun c => if c = '"' then ['"', '"', '"'] else [c]) ++ ['"']

/-- Inside of a quoted argument: behind the quote that opens it, or further on. -/
def Opened (s : State) : Prop :=
  (s.quoteCount = 1 ∧ s.inQuote = false) ∨ (s.quoteCount = 0 ∧ s.inQuote = true)

/-- Behind the quote that closes an argument. -/
def Closed (s : State) : Prop :=
  (s.quoteCount = 2 ∧ s.inQuote = false) ∨ (s.quoteCount = 1 ∧ s.inQuote = true)

/-- One character of an argument, as it is written between quotes. -/
theorem opened_char {s : State} (h : Opened s) (c : Char) :
    ∃ s', (if c = '"' then ['"', '"', '"'] else [c]).foldl step s = s' ∧ Opened s' ∧
      s'.args = s.args ∧ s'.tmp = s.tmp ++ [c] := by
  refine ⟨_, rfl, ?_⟩
  obtain ⟨args, tmp, quotes, inQuote⟩ := s
  by_cases hc : c = '"'
  · rcases h with ⟨rfl, rfl⟩ | ⟨rfl, rfl⟩ <;> simp [hc, step, Opened]
  · rcases h with ⟨rfl, rfl⟩ | ⟨rfl, rfl⟩ <;> simp [hc, step, settle, Opened]

theorem opened_chars (arg : QString) : ∀ {s : State}, Opened s →
    ∃ s', (arg.flatMap (fun c => if c = '"' then ['"', '"', '"'] else [c])).foldl step s = s' ∧ Opened s' ∧
      s'.args = s.args ∧ s'.tmp = s.tmp ++ arg := by
  induction arg with
  | nil => exact fun {s} h => ⟨s, rfl, h, rfl, by simp⟩
  | cons c arg ih =>
    intro s h
    obtain ⟨s₁, h1, hopened, hargs, htmp⟩ := opened_char h c
    obtain ⟨s₂, h2, hopened', hargs', htmp'⟩ := ih hopened
    refine ⟨s₂, ?_, hopened', hargs'.trans hargs, by simp [htmp', htmp]⟩
    rw [List.flatMap_cons, List.foldl_append, h1, h2]

/-- A quoted argument, read from between two arguments. -/
theorem foldl_quoted (args : List QString) (arg : QString) :
    ∃ s', (quoted arg).foldl step ⟨args, [], 0, false⟩ = s' ∧ Closed s' ∧ s'.args = args ∧ s'.tmp = arg := by
  have hopen : Opened (step ⟨args, [], 0, false⟩ '"') := .inl ⟨rfl, rfl⟩
  obtain ⟨s₁, h1, hopened, hargs, htmp⟩ := opened_chars arg hopen
  refine ⟨step s₁ '"', ?_, ?_⟩
  · rw [quoted, List.cons_append, List.foldl_cons, List.foldl_append, h1]
    rfl
  · obtain ⟨args₁, tmp₁, quotes, inQuote⟩ := s₁
    rcases hopened with ⟨rfl, rfl⟩ | ⟨rfl, rfl⟩ <;> simp_all [step, Closed]

/-- The blank behind a quoted argument ends it. -/
theorem step_closed {s : State} (h : Closed s) :
    step s ' ' = ⟨s.args ++ [s.tmp].filter (· ≠ []), [], 0, false⟩ := by
  obtain ⟨args, tmp, quotes, inQuote⟩ := s
  rcases h with ⟨rfl, rfl⟩ | ⟨rfl, rfl⟩
  · exact flush_eq args tmp 0 false
  · exact flush_eq args tmp 0 false

theorem foldl_quoted_all (arg : QString) (more : List QString) : ∀ args : List QString,
    (flush ((List.intercalate [' '] ((arg :: more).map quoted)).foldl step ⟨args, [], 0, false⟩)).args
      = args ++ (arg :: more).filter (· ≠ []) := by
  induction more generalizing arg with
  | nil =>
    intro args
    obtain ⟨s, hs, -, hargs, htmp⟩ := foldl_quoted args arg
    have hquoted : List.intercalate [' '] ([arg].map quoted) = quoted arg := by simp [List.intercalate]
    rw [hquoted, hs, ← hargs, ← htmp]
    exact congrArg State.args (flush_eq s.args s.tmp s.quoteCount s.inQuote)
  | cons arg' more ih =>
    intro args
    obtain ⟨s, hs, hclosed, hargs, htmp⟩ := foldl_quoted args arg
    have hjoin : List.intercalate [' '] ((arg :: arg' :: more).map quoted)
        = quoted arg ++ ' ' :: List.intercalate [' '] ((arg' :: more).map quoted) := by
      simp [List.intercalate]
    rw [hjoin, List.foldl_append, hs, List.foldl_cons, step_closed hclosed, ih, hargs, htmp,
      List.append_assoc, ← List.filter_append]
    rfl

/--
**Quoted arguments are read back.** Arguments with any characters, each between quotes and joined by
blanks, are the arguments of the command, without the empty ones.
-/
theorem splitCommand_quoted (args : List QString) :
    splitCommand (List.intercalate [' '] (args.map quoted)) = args.filter (· ≠ []) := by
  cases args with
  | nil => rfl
  | cons arg more =>
    have h := foldl_quoted_all arg more []
    rwa [List.nil_append] at h

end SplitCommand

end Dankerino
