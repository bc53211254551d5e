import Dankerino.Common.LinkParser
import Dankerino.Infra.RegexLanguage

/-!
# The grammar of links

A link is a host, maybe with a protocol before it, and with a port and a path behind it. Every link is
accepted. Other texts are accepted too: a port may be empty, may go on behind its fifth digit and may have
digits that are not ASCII, a host may have brackets, and behind an IPv4 address there may be a line feed
(`Lax`). There are no others (`hasMatch_iff_hasForm_iff`).
-/

namespace Dankerino.LinkParser

open Infra

/-! ## Links -/

/-- A label of a host: no separator and no bracket. -/
structure IsLabel (s : QString) : Prop where
  ne_nil : s ≠ []
  chars : ∀ c ∈ s, isSeparator c = false ∧ c ≠ ':' ∧ c ≠ '[' ∧ c ≠ ']'

/-- Labels with dots between them. -/
def Labels (host : QString) : Prop := ∀ label ∈ host.splitOn '.', IsLabel label

/-- Between one and three digits. -/
structure IsGroup (s : QString) : Prop where
  pos : 1 ≤ s.length
  le : s.length ≤ 3
  digits : ∀ c ∈ s, c.isDigit = true

/-- The shape of an IPv4 address. -/
def Ipv4 (host : QString) : Prop :=
  ∃ a b c d, IsGroup a ∧ IsGroup b ∧ IsGroup c ∧ IsGroup d ∧
    host = a ++ '.' :: (b ++ '.' :: (c ++ '.' :: d))

section Grammar

variable (tlds : List QString) (lower : Char → QString)

/-- Labels, the last of which is a known TLD. -/
structure Named (host : QString) : Prop where
  labels : Labels host
  known : ∃ front tld, host = front ++ '.' :: tld ∧ '.' ∉ tld ∧ tld.flatMap lower ∈ tlds

def IsHost (host : QString) : Prop := Named tlds lower host ∨ Ipv4 host

/-- `http://` or `https://` in any case, or nothing. -/
def IsProtocol (protocol : QString) : Prop :=
  protocol = [] ∨ protocol.map QChar.foldCase = "http://".toList ∨
    protocol.map QChar.foldCase = "https://".toList

/-- Between one and five digits. -/
structure IsPort (digits : QString) : Prop where
  pos : 1 ≤ digits.length
  le : digits.length ≤ 5
  digits : ∀ c ∈ digits, c.isDigit = true

/-- A separator with anything behind it, or nothing. -/
def IsPath (path : QString) : Prop := ∀ c ∈ path.head?, isSeparator c = true

/-- What is behind the host. -/
inductive IsTail : QString → Prop
  | path {path : QString} (hpath : IsPath path) : IsTail path
  | port {digits path : QString} (hport : IsPort digits) (hpath : IsPath path) :
      IsTail (':' :: (digits ++ path))

def HasForm (input : QString) : Prop :=
  ∃ protocol host tail, input = protocol ++ (host ++ tail) ∧ IsProtocol protocol ∧
    IsHost tlds lower host ∧ IsTail tail

/-! ## What is accepted besides -/

/-- The digits that a port starts with. -/
def portDigits (l : QString) : QString := l.takeWhile QChar.isDigit

def behindDigits (l : QString) : QString := l.dropWhile QChar.isDigit

/-- The ports that are accepted but are none. -/
inductive LaxPort (l : QString) : Prop
  | empty (hpath : IsPath l)
  | long (h : 5 < (portDigits l).length ∨ (portDigits l).length = 5 ∧ ¬ IsPath (behindDigits l))
  | foreign (hle : (portDigits l).length ≤ 5) (hpath : IsPath (behindDigits l))
      (hforeign : ∃ c ∈ portDigits l, c.isDigit = false)

/-- The hosts that are accepted but are none. -/
inductive LaxHost : QString → Prop
  | bracket {host : QString} (hname : isValidHostname tlds lower host = true)
      (hbracket : '[' ∈ host ∨ ']' ∈ host) : LaxHost host
  | lineFeed {host : QString} (hipv4 : Ipv4 host)
      (hname : isValidHostname tlds lower (host ++ ['\n']) = false) : LaxHost (host ++ ['\n'])

/-- The texts that are accepted but are no links. -/
def Lax (input : QString) : Prop :=
  ∃ protocol host tail, input = protocol ++ (host ++ tail) ∧ IsProtocol protocol ∧
    HostText host ∧ TailText host tail ∧ isValidHost tlds lower host = true ∧
    (LaxHost tlds lower host ∨ ∃ l, tail = ':' :: l ∧ LaxPort l)

end Grammar

/-! ## Labels -/

section Labels

variable {host front tld : QString}

theorem lastIsDot_append_cons (front back : QString) :
    lastIsDot (front ++ '.' :: back) = lastIsDot back := by
  rcases List.eq_nil_or_concat back with rfl | ⟨back, c, rfl⟩
  · exact lastIsDot_append '.'
  · have hsplit : front ++ '.' :: (back ++ [c]) = front ++ '.' :: back ++ [c] := by simp
    rw [List.concat_eq_append, hsplit, lastIsDot_append, lastIsDot_append]

theorem nil_mem_splitOn_of_lastIsDot (h : lastIsDot host = true) : [] ∈ host.splitOn '.' := by
  rcases Bool.or_eq_true_iff.mp h with hnil | hlast
  · rw [List.isEmpty_iff.mp hnil, List.splitOn_nil]
    exact List.mem_singleton_self _
  · obtain ⟨front, rfl⟩ := List.getLast?_eq_some_iff.mp (eq_of_beq hlast)
    rw [List.splitOn_append_cons_self]
    exact List.mem_append_right _ (List.mem_singleton_self _)

/-- An empty label is at the end, or before a dot. -/
theorem lastIsDot_of_nil_mem_splitOn : ∀ (n : Nat) (host : QString), host.length ≤ n →
    [] ∈ host.splitOn '.' →
    lastIsDot host = true ∨ ∃ front back, host = front ++ '.' :: back ∧ lastIsDot front = true := by
  intro n
  induction n with
  | zero =>
    intro host hlength _
    obtain rfl := List.length_eq_zero_iff.mp (Nat.le_zero.mp hlength)
    exact .inl rfl
  | succ n ih =>
    intro host hlength hmem
    by_cases hdot : '.' ∈ host
    · obtain ⟨front, back, rfl, hfront⟩ := List.eq_append_cons_of_mem hdot
      rw [List.splitOn_append_cons_self_of_not_mem hfront] at hmem
      rcases List.mem_cons.mp hmem with rfl | hback
      · exact .inr ⟨[], back, rfl, rfl⟩
      · rw [List.length_append, List.length_cons] at hlength
        rcases ih back (by omega) hback with hlast | ⟨front', back', rfl, hlast⟩
        · exact .inl (by rw [lastIsDot_append_cons, hlast])
        · exact .inr ⟨front ++ '.' :: front', back', by simp, by rw [lastIsDot_append_cons, hlast]⟩
    · rw [List.splitOn_eq_singleton hdot, List.mem_singleton] at hmem
      rw [← hmem]
      exact .inl rfl

theorem mem_of_mem_label {c : Char} : ∀ {labels : List QString} {label : QString},
    label ∈ labels → c ∈ label → c ∈ ['.'].intercalate labels
  | [], _, h, _ => nomatch h
  | [_], _, h, hc => by simpa [List.mem_singleton.mp h] using hc
  | a :: b :: labels, label, h, hc => by
    rw [List.intercalate_cons_cons]
    rcases List.mem_cons.mp h with rfl | h
    · exact List.mem_append_left _ (List.mem_append_left _ hc)
    · exact List.mem_append_right _ (mem_of_mem_label h hc)

theorem exists_label_of_mem {c : Char} (hdot : c ≠ '.') : ∀ {labels : List QString},
    c ∈ ['.'].intercalate labels → ∃ label ∈ labels, c ∈ label
  | [], h => nomatch h
  | [a], h => ⟨a, List.mem_singleton_self a, by simpa using h⟩
  | a :: b :: labels, h => by
    rw [List.intercalate_cons_cons] at h
    rcases List.mem_append.mp h with h | h
    · rcases List.mem_append.mp h with h | h
      · exact ⟨a, List.mem_cons_self, h⟩
      · exact absurd (List.mem_singleton.mp h) hdot
    · obtain ⟨label, hlabel, hc⟩ := exists_label_of_mem hdot h
      exact ⟨label, List.mem_cons_of_mem _ hlabel, hc⟩

/-- A text is made of labels if no bracket is in it, it may be a host and it does not end with a dot. -/
theorem labels_iff : Labels host ↔
    HostText host ∧ lastIsDot host = false ∧ '[' ∉ host ∧ ']' ∉ host := by
  constructor
  · intro h
    have hlast : lastIsDot host = false := by
      cases hlast : lastIsDot host with
      | false => rfl
      | true => exact absurd rfl (h [] (nil_mem_splitOn_of_lastIsDot hlast)).ne_nil
    have hjoin : ['.'].intercalate (host.splitOn '.') = host := List.intercalate_splitOn '.'
    have hchars : ∀ c ∈ host, c ≠ '.' → isSeparator c = false ∧ c ≠ ':' ∧ c ≠ '[' ∧ c ≠ ']' := by
      intro c hc hdot
      rw [← hjoin] at hc
      obtain ⟨label, hlabel, hc⟩ := exists_label_of_mem hdot hc
      exact (h label hlabel).chars c hc
    have htext : HostText host := by
      intro front c back heq
      have hmem : c ∈ host := heq ▸ List.mem_append_right _ List.mem_cons_self
      by_cases hdot : c = '.'
      · subst hdot
        refine ⟨rfl, fun _ => ?_, fun hc => absurd hc (by decide), fun hc => absurd hc (by decide)⟩
        -- an empty label would be before the dot
        refine lastIsDot_eq_false_iff.mp (Bool.eq_false_iff.mpr fun hfront => ?_)
        have hnil : [] ∈ host.splitOn '.' := by
          rw [heq, List.splitOn_append_cons_self]
          exact List.mem_append_left _ (nil_mem_splitOn_of_lastIsDot hfront)
        exact absurd rfl (h [] hnil).ne_nil
      · obtain ⟨hsep, hcolon, hopen, -⟩ := hchars c hmem hdot
        exact ⟨hsep, fun hc => absurd hc hdot, fun hc => absurd hc hcolon, fun hc => absurd hc hopen⟩
    refine ⟨htext, hlast, fun hc => ?_, fun hc => ?_⟩
    · exact (hchars _ hc (by decide)).2.2.1 rfl
    · exact (hchars _ hc (by decide)).2.2.2 rfl
  · rintro ⟨htext, hlast, hopen, hclose⟩ label hlabel
    constructor
    · rintro rfl
      rcases lastIsDot_of_nil_mem_splitOn host.length host (Nat.le_refl _) hlabel with h | ⟨front, back, heq, h⟩
      · rw [hlast] at h
        exact nomatch h
      · have hfollow := htext front '.' back heq
        rw [List.nil_append] at hfollow
        rw [lastIsDot_eq_false_iff.mpr (hfollow.dot rfl)] at h
        exact nomatch h
    · intro c hc
      have hmem : c ∈ host := by
        have hjoin : ['.'].intercalate (host.splitOn '.') = host := List.intercalate_splitOn '.'
        rw [← hjoin]
        exact mem_of_mem_label hlabel hc
      obtain ⟨front, back, heq⟩ := List.append_of_mem hmem
      have hfollow := htext front c back heq
      rw [List.nil_append] at hfollow
      refine ⟨hfollow.separator, ?_, ?_, ?_⟩
      · rintro rfl
        obtain ⟨hhead, -⟩ := hfollow.colon rfl
        refine hopen (heq ▸ List.mem_append_left _ ?_)
        exact List.mem_of_mem_head? hhead
      · rintro rfl
        exact hopen hmem
      · rintro rfl
        exact hclose hmem

end Labels

/-! ## Hosts -/

section Hosts

variable {tlds : List QString} {lower : Char → QString} {host : QString}

theorem topLevel_append (front : QString) {tld : QString} (h : '.' ∉ tld) :
    topLevel (front ++ '.' :: tld) = some tld := by
  have hall : ∀ c ∈ tld.reverse, decide (c ≠ '.') = true := by
    intro c hc
    refine decide_eq_true ?_
    rintro rfl
    exact h (List.mem_reverse.mp hc)
  rw [topLevel, if_pos (List.mem_append_right _ List.mem_cons_self), List.reverse_append,
    List.reverse_cons, List.append_assoc, List.takeWhile_append_of_pos hall]
  simp

theorem exists_last_dot (h : '.' ∈ host) : ∃ front tld, host = front ++ '.' :: tld ∧ '.' ∉ tld := by
  obtain ⟨tld, front, hreverse, htld⟩ := List.eq_append_cons_of_mem (List.mem_reverse.mpr h)
  refine ⟨front.reverse, tld.reverse, ?_, fun hmem => htld (List.mem_reverse.mp hmem)⟩
  rw [← List.reverse_reverse host, hreverse]
  simp

theorem isValidHostname_iff : isValidHostname tlds lower host = true ↔
    ∃ front tld, host = front ++ '.' :: tld ∧ '.' ∉ tld ∧ tld.flatMap lower ∈ tlds := by
  constructor
  · intro h
    by_cases hdot : '.' ∈ host
    · obtain ⟨front, tld, rfl, htld⟩ := exists_last_dot hdot
      rw [isValidHostname, topLevel_append front htld] at h
      exact ⟨front, tld, rfl, htld, of_decide_eq_true h⟩
    · rw [isValidHostname, topLevel, if_neg hdot] at h
      exact nomatch h
  · rintro ⟨front, tld, rfl, htld, hmem⟩
    rw [isValidHostname, topLevel_append front htld]
    exact decide_eq_true hmem

/-- The text of a valid host name does not end with a dot. -/
theorem lastIsDot_of_isValidHostname (hlines : [] ∉ tlds) (h : isValidHostname tlds lower host = true) :
    lastIsDot host = false := by
  obtain ⟨front, tld, rfl, htld, hmem⟩ := isValidHostname_iff.mp h
  rw [lastIsDot_append_cons, lastIsDot_eq_false_iff]
  constructor
  · rintro rfl
    exact hlines hmem
  · intro hlast
    exact htld (List.mem_of_getLast? hlast)

/-- A group is what the expression matches. -/
theorem isGroup_iff {s : QString} : s ∈ Regex.lang digits ↔ IsGroup s := by
  simp only [digits, Regex.mem_lang_seq, Regex.mem_lang_opt, Regex.mem_lang_set]
  constructor
  · rintro ⟨_, ⟨a, ha, rfl⟩, _, ⟨_, ⟨b, hb, rfl⟩, _, ⟨c, hc, rfl⟩ | rfl, rfl⟩ | rfl, rfl⟩
    · exact ⟨by simp, by simp, by simp [ha, hb, hc]⟩
    · exact ⟨by simp, by simp, by simp [ha, hb]⟩
    · exact ⟨by simp, by simp, by simp [ha]⟩
  · rintro ⟨hpos, hle, hdigits⟩
    match s, hpos, hle with
    | [a], _, _ => exact ⟨[a], ⟨a, hdigits a (by simp), rfl⟩, [], .inr rfl, rfl⟩
    | [a, b], _, _ =>
      exact ⟨[a], ⟨a, hdigits a (by simp), rfl⟩, [b],
        .inl ⟨[b], ⟨b, hdigits b (by simp), rfl⟩, [], .inr rfl, rfl⟩, rfl⟩
    | [a, b, c], _, _ =>
      exact ⟨[a], ⟨a, hdigits a (by simp), rfl⟩, [b, c],
        .inl ⟨[b], ⟨b, hdigits b (by simp), rfl⟩, [c], .inl ⟨c, hdigits c (by simp), rfl⟩, rfl⟩, rfl⟩

theorem mem_lang_dotDigits {s : QString} :
    s ∈ Regex.lang dotDigits ↔ ∃ d, IsGroup d ∧ s = '.' :: d := by
  simp only [dotDigits, Regex.mem_lang_seq, Regex.mem_lang_set, isGroup_iff]
  constructor
  · rintro ⟨_, ⟨c, hc, rfl⟩, d, hd, rfl⟩
    obtain rfl := of_decide_eq_true hc
    exact ⟨d, hd, rfl⟩
  · rintro ⟨d, hd, rfl⟩
    exact ⟨['.'], ⟨'.', rfl, rfl⟩, d, hd, rfl⟩

theorem mem_lang_ipv4 {s : QString} : s ∈ Regex.lang ipv4 ↔ Ipv4 s := by
  simp only [ipv4, Regex.mem_lang_seq, isGroup_iff, mem_lang_dotDigits]
  constructor
  · rintro ⟨a, ha, _, ⟨_, ⟨b, hb, rfl⟩, _, ⟨_, ⟨c, hc, rfl⟩, _, ⟨d, hd, rfl⟩, rfl⟩, rfl⟩, rfl⟩
    exact ⟨a, b, c, d, ha, hb, hc, hd, by simp⟩
  · rintro ⟨a, b, c, d, ha, hb, hc, hd, rfl⟩
    exact ⟨a, ha, _, ⟨_, ⟨b, hb, rfl⟩, _, ⟨_, ⟨c, hc, rfl⟩, _, ⟨d, hd, rfl⟩, rfl⟩, rfl⟩, by simp⟩

theorem isValidIpv4_iff :
    isValidIpv4 host = true ↔ Ipv4 host ∨ ∃ front, Ipv4 front ∧ host = front ++ ['\n'] := by
  rw [isValidIpv4, List.any_eq_true]
  constructor
  · rintro ⟨rest, hrest, hend⟩
    obtain ⟨front, hfront, rfl⟩ := Regex.mem_ends_iff.mp hrest
    rcases Bool.or_eq_true_iff.mp hend with h | h
    · rw [of_decide_eq_true h, List.append_nil]
      exact .inl (mem_lang_ipv4.mp hfront)
    · exact .inr ⟨front, mem_lang_ipv4.mp hfront, by rw [of_decide_eq_true h]⟩
  · rintro (h | ⟨front, h, rfl⟩)
    · exact ⟨[], Regex.mem_ends_iff.mpr ⟨host, mem_lang_ipv4.mpr h, (List.append_nil _).symm⟩, rfl⟩
    · exact ⟨['\n'], Regex.mem_ends_iff.mpr ⟨front, mem_lang_ipv4.mpr h, rfl⟩, rfl⟩

theorem IsGroup.isLabel {s : QString} (h : IsGroup s) : IsLabel s ∧ '.' ∉ s := by
  have hdigit : ∀ c ∈ s, 48 ≤ c.toNat ∧ c.toNat ≤ 57 := fun c hc =>
    Char.isDigit_iff_toNat.mp (h.digits c hc)
  refine ⟨⟨List.length_pos_iff.mp h.pos, fun c hc => ⟨?_, ?_, ?_, ?_⟩⟩, fun hc => ?_⟩
  · rw [isSeparator, Bool.or_eq_false_iff, Bool.or_eq_false_iff]
    refine ⟨⟨decide_eq_false ?_, decide_eq_false ?_⟩, decide_eq_false ?_⟩
    · rintro rfl
      exact absurd (hdigit _ hc) (by decide)
    · rintro rfl
      exact absurd (hdigit _ hc) (by decide)
    · rintro rfl
      exact absurd (hdigit _ hc) (by decide)
  · rintro rfl
    exact absurd (hdigit _ hc) (by decide)
  · rintro rfl
    exact absurd (hdigit _ hc) (by decide)
  · rintro rfl
    exact absurd (hdigit _ hc) (by decide)
  · exact absurd (hdigit _ hc) (by decide)

theorem Ipv4.labels (h : Ipv4 host) : Labels host := by
  obtain ⟨a, b, c, d, ha, hb, hc, hd, rfl⟩ := h
  intro label hlabel
  rw [List.splitOn_append_cons_self_of_not_mem ha.isLabel.2,
    List.splitOn_append_cons_self_of_not_mem hb.isLabel.2,
    List.splitOn_append_cons_self_of_not_mem hc.isLabel.2, List.splitOn_eq_singleton hd.isLabel.2] at hlabel
  simp only [List.mem_cons, List.not_mem_nil, or_false] at hlabel
  rcases hlabel with rfl | rfl | rfl | rfl
  · exact ha.isLabel.1
  · exact hb.isLabel.1
  · exact hc.isLabel.1
  · exact hd.isLabel.1

theorem IsHost.labels (h : IsHost tlds lower host) : Labels host :=
  h.elim Named.labels Ipv4.labels

theorem IsHost.isValidHost (h : IsHost tlds lower host) : isValidHost tlds lower host = true := by
  rw [LinkParser.isValidHost, Bool.or_eq_true]
  rcases h with h | h
  · exact .inl (isValidHostname_iff.mpr h.known)
  · exact .inr (isValidIpv4_iff.mpr (.inl h))

/-- A valid host is one of the grammar, or one of the others that are accepted. -/
theorem isHost_or_laxHost (hlines : [] ∉ tlds) (htext : HostText host)
    (hvalid : isValidHost tlds lower host = true) : IsHost tlds lower host ∨ LaxHost tlds lower host := by
  cases hname : isValidHostname tlds lower host with
  | true =>
    by_cases hbracket : '[' ∈ host ∨ ']' ∈ host
    · exact .inr (.bracket hname hbracket)
    · rw [not_or] at hbracket
      have hlast := lastIsDot_of_isValidHostname hlines hname
      exact .inl (.inl ⟨labels_iff.mpr ⟨htext, hlast, hbracket⟩, isValidHostname_iff.mp hname⟩)
  | false =>
    rw [LinkParser.isValidHost, hname, Bool.false_or] at hvalid
    rcases isValidIpv4_iff.mp hvalid with h | ⟨front, h, rfl⟩
    · exact .inl (.inr h)
    · exact .inr (.lineFeed h hname)

theorem LaxHost.not_isHost (h : LaxHost tlds lower host) : ¬ IsHost tlds lower host := by
  intro hhost
  obtain ⟨-, -, hopen, hclose⟩ := labels_iff.mp hhost.labels
  cases h with
  | bracket hname hbracket => exact hbracket.elim hopen hclose
  | @lineFeed front hipv4 hname =>
    rcases hhost with hnamed | hother
    · rw [isValidHostname_iff.mpr hnamed.known] at hname
      exact nomatch hname
    · -- the last group is digits
      obtain ⟨a, b, c, d, -, -, -, hd, heq⟩ := hother
      have hlast : d.getLast? = some '\n' := by
        have hlast : (front ++ ['\n']).getLast? = some '\n' := List.getLast?_concat ..
        rw [heq] at hlast
        have hne : d ≠ [] := hd.isLabel.1.ne_nil
        obtain ⟨x, d', rfl⟩ := List.exists_cons_of_ne_nil hne
        simpa [List.getLast?_append, List.getLast?_cons] using hlast
      exact absurd (hd.digits _ (List.mem_of_getLast? hlast)) (by decide)

end Hosts

/-! ## Ports -/

section Ports

variable {l host tail : QString}

theorem not_isDigit_of_isSeparator {c : Char} (h : isSeparator c = true) : QChar.isDigit c = false := by
  simp only [isSeparator, Bool.or_eq_true, decide_eq_true_eq] at h
  rcases h with (rfl | rfl) | rfl <;> decide

/-- The loop over the port, by the digits that the port starts with. -/
theorem portLoop_iff (l : QString) : ∀ n : Nat, portLoop n l = true ↔
    n ≤ (portDigits l).length ∨ IsPath (behindDigits l) := by
  induction l with
  | nil =>
    intro n
    refine iff_of_true ?_ (.inr fun c hc => nomatch hc)
    cases n <;> rfl
  | cons c l ih =>
    intro n
    cases n with
    | zero => exact iff_of_true rfl (.inl (Nat.zero_le _))
    | succ n =>
      rw [portLoop, portDigits, behindDigits, List.takeWhile_cons, List.dropWhile_cons]
      cases hdigit : QChar.isDigit c with
      | true =>
        have hsep : isSeparator c = false := by
          cases hsep : isSeparator c with
          | false => rfl
          | true =>
            rw [not_isDigit_of_isSeparator hsep] at hdigit
            exact nomatch hdigit
        rw [hsep]
        simp only [Bool.false_eq_true, if_false, Bool.not_true, if_true, List.length_cons,
          Nat.add_le_add_iff_right]
        exact ih n
      | false => simp [IsPath]

/-- What is behind the digits of a port. -/
theorem portDigits_append {digits path : QString} (hdigits : ∀ c ∈ digits, QChar.isDigit c = true)
    (hpath : IsPath path) :
    portDigits (digits ++ path) = digits ∧ behindDigits (digits ++ path) = path := by
  rw [portDigits, behindDigits, List.takeWhile_append_of_pos hdigits, List.dropWhile_append_of_pos hdigits]
  cases path with
  | nil => simp
  | cons c path =>
    have hc : QChar.isDigit c = false := not_isDigit_of_isSeparator (hpath c rfl)
    simp [hc]

theorem IsPort.digits' {digits : QString} (h : IsPort digits) : ∀ c ∈ digits, QChar.isDigit c = true :=
  fun c hc => QChar.isDigit_of_ascii (h.digits c hc)

/-- A port that the loop accepts is one of the grammar, or one of the others. -/
theorem isTail_or_laxPort (h : portLoop 5 l = true) : IsTail (':' :: l) ∨ LaxPort l := by
  have hsplit : l = portDigits l ++ behindDigits l := (List.takeWhile_append_dropWhile).symm
  rcases Nat.lt_or_ge 5 (portDigits l).length with hlong | hle
  · exact .inr (.long (.inl hlong))
  · by_cases hpath : IsPath (behindDigits l)
    · by_cases hascii : ∀ c ∈ portDigits l, c.isDigit = true
      · by_cases hnil : portDigits l = []
        · refine .inr (.empty ?_)
          rwa [hsplit, hnil, List.nil_append]
        · left
          rw [hsplit]
          exact .port ⟨List.length_pos_iff.mpr hnil, hle, hascii⟩ hpath
      · push Not at hascii
        obtain ⟨c, hc, hnot⟩ := hascii
        exact .inr (.foreign hle hpath ⟨c, hc, Bool.eq_false_iff.mpr hnot⟩)
    · have hfive : 5 ≤ (portDigits l).length := ((portLoop_iff l 5).mp h).resolve_right hpath
      exact .inr (.long (.inr ⟨Nat.le_antisymm hle hfive, hpath⟩))

theorem LaxPort.not_isTail (h : LaxPort l) : ¬ IsTail (':' :: l) := by
  intro htail
  cases htail with
  | path hpath => exact absurd (hpath ':' rfl) (by decide)
  | @port digits path hport hpath =>
    obtain ⟨hdigits, hbehind⟩ := portDigits_append hport.digits' hpath
    cases h with
    | empty hempty =>
      obtain ⟨c, digits, rfl⟩ := List.exists_cons_of_ne_nil (List.length_pos_iff.mp hport.pos)
      have hsep := not_isDigit_of_isSeparator (hempty c rfl)
      rw [hport.digits' c List.mem_cons_self] at hsep
      exact nomatch hsep
    | long hlong =>
      rw [hdigits, hbehind] at hlong
      rcases hlong with hlong | ⟨-, hnot⟩
      · exact absurd hport.le (Nat.not_le.mpr hlong)
      · exact hnot hpath
    | foreign _ _ hforeign =>
      rw [hdigits] at hforeign
      obtain ⟨c, hc, hnot⟩ := hforeign
      rw [hport.digits c hc] at hnot
      exact nomatch hnot

theorem IsTail.tailText (h : IsTail tail) (hopen : '[' ∉ host) (hlast : lastIsDot host = false) :
    TailText host tail := by
  cases h with
  | path hpath =>
    cases tail with
    | nil => exact .done hlast
    | cons c tail => exact .path (hpath c rfl) tail
  | @port digits path hport hpath =>
    refine .port (fun h => hopen (List.mem_of_mem_head? h.1)) ((portLoop_iff _ 5).mpr (.inr ?_))
    rwa [(portDigits_append hport.digits' hpath).2]

theorem TailText.isTail_or (h : TailText host tail) :
    IsTail tail ∨ ∃ l, tail = ':' :: l ∧ LaxPort l := by
  cases h with
  | done => exact .inl (.path fun c hc => nomatch hc)
  | path hc back =>
    refine .inl (.path fun d hd => ?_)
    rwa [← Option.some.inj hd]
  | @port l hopen hl => exact (isTail_or_laxPort hl).imp_right fun h => ⟨l, rfl, h⟩

end Ports

/-! ## Protocols -/

section Protocols

variable {protocol input host tail : QString}

theorem withoutProtocol_https (h : protocol.map QChar.foldCase = "https://".toList) (rest : QString) :
    withoutProtocol (protocol ++ rest) = rest := by
  have hlength : protocol.length = 8 := by simpa using congrArg List.length h
  rw [withoutProtocol, if_pos (QChar.startsWith_append rest (h.trans (by decide))), QString.mid, ← hlength,
    List.drop_left]

theorem withoutProtocol_http (h : protocol.map QChar.foldCase = "http://".toList) (rest : QString) :
    withoutProtocol (protocol ++ rest) = rest := by
  have hlength : protocol.length = 7 := by simpa using congrArg List.length h
  have hnot : ¬ QChar.startsWith (protocol ++ rest) "https://".toList = true := by
    intro hstart
    obtain ⟨front, back, hsplit, hfront, hmap⟩ := QChar.exists_of_startsWith hstart
    -- the character behind `http`
    have htake : (protocol ++ rest).take 7 = (front ++ back).take 7 := by rw [hsplit]
    rw [← hlength, List.take_left, List.take_append_of_le_length (by rw [hfront, hlength]; decide)] at htake
    rw [htake, List.map_take, hmap, hlength] at h
    exact absurd h (by decide)
  rw [withoutProtocol, if_neg hnot, if_pos (QChar.startsWith_append rest (h.trans (by decide))), QString.mid,
    ← hlength, List.drop_left]

/-- A character that is no letter is only folded to from itself. -/
theorem eq_of_foldCase {c d : Char} (h : QChar.foldCase c = d) (hd : ¬ (97 ≤ d.toNat ∧ d.toNat ≤ 122)) :
    c = d := by
  rcases QChar.foldCase_cases c with hc | hc
  · exact hc.symm.trans h
  · rw [h] at hc
    exact absurd hc hd

/-- Letters may follow each other in a host. -/
theorem hostText_of_letters (h : ∀ c ∈ host, ∃ d, QChar.foldCase c = d ∧ d ∈ "htps".toList) :
    HostText host ∧ '[' ∉ host ∧ '.' ∉ host := by
  have hplain : ∀ c ∈ host, c ∉ ['/', '?', '#', '.', ':', '['] := by
    intro c hc hmem
    obtain ⟨d, hfold, hd⟩ := h c hc
    rw [← hfold] at hd
    have hall : ∀ c ∈ ['/', '?', '#', '.', ':', '['], QChar.foldCase c ∉ "htps".toList :=
      QString.forall_of_all (by decide)
    exact hall c hmem hd
  refine ⟨fun front c back heq => ?_, fun hc => hplain _ hc (by decide), fun hc => hplain _ hc (by decide)⟩
  have hc := hplain c (heq ▸ List.mem_append_right _ List.mem_cons_self)
  simp only [List.mem_cons, List.not_mem_nil, or_false, not_or] at hc
  obtain ⟨hslash, hquery, hanchor, hdot, hcolon, hbracket⟩ := hc
  refine ⟨?_, fun h => absurd h hdot, fun h => absurd h hcolon, fun h => absurd h hbracket⟩
  simp [isSeparator, hslash, hquery, hanchor]

/-- A text with a protocol is a host without a dot, and an empty port. -/
theorem splits_of_startsWith {prefixText : QString}
    (hpre : prefixText = "http://".toList ∨ prefixText = "https://".toList)
    (h : QChar.startsWith input prefixText = true) :
    ∃ scheme tail, Splits input scheme tail ∧ '.' ∉ scheme := by
  obtain ⟨front, back, rfl, -, hmap⟩ := QChar.exists_of_startsWith h
  have hfolded : ∃ letters, prefixText.map QChar.foldCase = letters ++ [':', '/', '/'] ∧
      letters ⊆ "htps".toList := by
    rcases hpre with rfl | rfl
    · exact ⟨"http".toList, by decide, by simp⟩
    · exact ⟨"https".toList, by decide, by simp⟩
  obtain ⟨letters, hfolded, hall⟩ := hfolded
  rw [hfolded] at hmap
  obtain ⟨scheme, behind, rfl, hscheme, hbehind⟩ := List.map_eq_append_iff.mp hmap
  obtain ⟨colon, behind, rfl, hcolon, hbehind⟩ := List.map_eq_cons_iff.mp hbehind
  obtain ⟨slash, behind, rfl, hslash, hbehind⟩ := List.map_eq_cons_iff.mp hbehind
  obtain rfl := eq_of_foldCase hcolon (by decide)
  obtain rfl := eq_of_foldCase hslash (by decide)
  have hletters : ∀ c ∈ scheme, ∃ d, QChar.foldCase c = d ∧ d ∈ "htps".toList := by
    intro c hc
    have hmem : QChar.foldCase c ∈ letters := hscheme ▸ List.mem_map_of_mem hc
    exact ⟨_, rfl, hall hmem⟩
  obtain ⟨htext, hopen, hdot⟩ := hostText_of_letters hletters
  refine ⟨scheme, ':' :: '/' :: (behind ++ back), ⟨by simp, htext, ?_⟩, hdot⟩
  exact .port (fun h => hopen (List.mem_of_mem_head? h.1)) rfl

variable {tlds : List QString} {lower : Char → QString}

theorem mem_dot_of_isValidHost (h : isValidHost tlds lower host = true) : '.' ∈ host := by
  rcases Bool.or_eq_true_iff.mp h with h | h
  · obtain ⟨front, tld, rfl, -⟩ := isValidHostname_iff.mp h
    exact List.mem_append_right _ List.mem_cons_self
  · rcases isValidIpv4_iff.mp h with ⟨a, b, c, d, -, -, -, -, rfl⟩ | ⟨front, ⟨a, b, c, d, -, -, -, -, rfl⟩, rfl⟩
    · exact List.mem_append_right _ List.mem_cons_self
    · exact List.mem_append_left _ (List.mem_append_right _ List.mem_cons_self)

/-- The protocol is taken away, and nothing if there is none. -/
theorem withoutProtocol_eq (hprotocol : IsProtocol protocol) (hsplit : Splits (host ++ tail) host tail)
    (hvalid : isValidHost tlds lower host = true) :
    withoutProtocol (protocol ++ (host ++ tail)) = host ++ tail := by
  rcases hprotocol with rfl | h | h
  · have hnot : ∀ prefixText, prefixText = "http://".toList ∨ prefixText = "https://".toList →
        ¬ QChar.startsWith (host ++ tail) prefixText = true := by
      intro prefixText hpre hstart
      obtain ⟨scheme, tail', hsplit', hdot⟩ := splits_of_startsWith hpre hstart
      rw [← (hsplit.unique hsplit').1] at hdot
      exact hdot (mem_dot_of_isValidHost hvalid)
    rw [List.nil_append, withoutProtocol, if_neg (hnot _ (.inr rfl)), if_neg (hnot _ (.inl rfl))]
  · exact withoutProtocol_http h _
  · exact withoutProtocol_https h _

theorem exists_protocol (input : QString) :
    ∃ protocol, IsProtocol protocol ∧ input = protocol ++ withoutProtocol input := by
  unfold withoutProtocol
  split
  · next h =>
    obtain ⟨front, back, rfl, hlength, hmap⟩ := QChar.exists_of_startsWith h
    refine ⟨front, .inr (.inr (hmap.trans (by decide))), ?_⟩
    rw [QString.mid, List.drop_append_of_le_length (by rw [hlength]; decide), List.drop_of_length_le]
    · rfl
    · rw [hlength]
      decide
  · split
    · next h =>
      obtain ⟨front, back, rfl, hlength, hmap⟩ := QChar.exists_of_startsWith h
      refine ⟨front, .inr (.inl (hmap.trans (by decide))), ?_⟩
      rw [QString.mid, List.drop_append_of_le_length (by rw [hlength]; decide), List.drop_of_length_le]
      · rfl
      · rw [hlength]
        decide
    · exact ⟨[], .inl rfl, rfl⟩

end Protocols

/-! ## What is accepted -/

section Accepted

variable {tlds : List QString} {lower : Char → QString}

theorem hasForm_or_lax_iff (hlines : [] ∉ tlds) (input : QString) :
    (new tlds lower input).hasMatch = true ↔ HasForm tlds lower input ∨ Lax tlds lower input := by
  constructor
  · intro h
    obtain ⟨host, tail, hsplit, hvalid⟩ := (hasMatch_iff tlds lower).mp h
    obtain ⟨protocol, hprotocol, hinput⟩ := exists_protocol input
    rw [hsplit.eq] at hinput
    rcases isHost_or_laxHost hlines hsplit.hostText hvalid with hhost | hlax
    · rcases hsplit.tailText.isTail_or with htail | hlax
      · exact .inl ⟨protocol, host, tail, hinput, hprotocol, hhost, htail⟩
      · exact .inr ⟨protocol, host, tail, hinput, hprotocol, hsplit.hostText, hsplit.tailText, hvalid,
          .inr hlax⟩
    · exact .inr ⟨protocol, host, tail, hinput, hprotocol, hsplit.hostText, hsplit.tailText, hvalid,
        .inl hlax⟩
  · intro h
    refine (hasMatch_iff tlds lower).mpr ?_
    rcases h with ⟨protocol, host, tail, rfl, hprotocol, hhost, htail⟩ |
      ⟨protocol, host, tail, rfl, hprotocol, htext, htail, hvalid, -⟩
    · obtain ⟨htext, hlast, hopen, -⟩ := labels_iff.mp hhost.labels
      have hsplit : Splits (host ++ tail) host tail := ⟨rfl, htext, htail.tailText hopen hlast⟩
      exact ⟨host, tail, (withoutProtocol_eq hprotocol hsplit hhost.isValidHost).symm ▸ hsplit,
        hhost.isValidHost⟩
    · have hsplit : Splits (host ++ tail) host tail := ⟨rfl, htext, htail⟩
      exact ⟨host, tail, (withoutProtocol_eq hprotocol hsplit hvalid).symm ▸ hsplit, hvalid⟩

theorem Lax.not_hasForm {input : QString} (h : Lax tlds lower input) : ¬ HasForm tlds lower input := by
  rintro ⟨protocol, host, tail, hinput, hprotocol, hhost, htail⟩
  obtain ⟨protocol', host', tail', hinput', hprotocol', htext', htail', hvalid', hlax⟩ := h
  obtain ⟨htext, hlast, hopen, -⟩ := labels_iff.mp hhost.labels
  have hsplit : Splits (host ++ tail) host tail := ⟨rfl, htext, htail.tailText hopen hlast⟩
  have hsplit' : Splits (host' ++ tail') host' tail' := ⟨rfl, htext', htail'⟩
  -- both are what is behind the protocol
  have heq : host ++ tail = host' ++ tail' := by
    rw [← withoutProtocol_eq hprotocol hsplit hhost.isValidHost, ← hinput, hinput',
      withoutProtocol_eq hprotocol' hsplit' hvalid']
  rw [heq] at hsplit
  obtain ⟨rfl, rfl⟩ := hsplit.unique hsplit'
  rcases hlax with hlax | ⟨l, rfl, hlax⟩
  · exact hlax.not_isHost hhost
  · exact hlax.not_isTail htail

/--
**When the parser accepts exactly the links.** What it captures is the text. A text on which it is wrong
is one that it accepts, with an empty port, a port that goes on behind five digits or has other digits
than those of ASCII, with a bracket in the host, or with a line feed behind an IPv4 address.
-/
theorem hasMatch_iff_hasForm_iff (hlines : [] ∉ tlds) (input : QString) :
    (((new tlds lower input).hasMatch = true ↔ HasForm tlds lower input) ↔ ¬ Lax tlds lower input) ∧
      (new tlds lower input).match_ = input := by
  refine ⟨?_, rfl⟩
  rw [hasForm_or_lax_iff hlines]
  constructor
  · intro h hlax
    exact hlax.not_hasForm (h.mp (.inr hlax))
  · exact fun h => or_iff_left h

end Accepted

/-- One TLD, and ASCII. -/
def com : List QString := ["com".toList]

def asciiLower (c : Char) : QString := [c.toLower]

theorem hasMatch_iff_hasForm_port :
    (((new com asciiLower "HTTPS://a.Com:80/x".toList).hasMatch = true ↔
        HasForm com asciiLower "HTTPS://a.Com:80/x".toList) ↔
      ¬ Lax com asciiLower "HTTPS://a.Com:80/x".toList) ∧
      (new com asciiLower "HTTPS://a.Com:80/x".toList).match_ = "HTTPS://a.Com:80/x".toList :=
  hasMatch_iff_hasForm_iff (by decide) _

/-- Behind the fifth digit of a port everything is accepted. -/
theorem port_goes_on :
    (new com asciiLower "a.com:12345abc".toList).hasMatch = true ∧
      ¬ HasForm com asciiLower "a.com:12345abc".toList := by
  have hmatch : (new com asciiLower "a.com:12345abc".toList).hasMatch = true := by decide
  have hlabels : Labels "a.com".toList := by
    intro label hlabel
    have hsplit : ("a.com".toList : QString).splitOn '.' = ["a".toList, "com".toList] := by decide
    rw [hsplit] at hlabel
    rcases List.mem_pair.mp hlabel with rfl | rfl
    · exact ⟨by decide, by simp [isSeparator]⟩
    · exact ⟨by decide, by simp [isSeparator]⟩
  refine ⟨hmatch, Lax.not_hasForm ⟨[], "a.com".toList, ":12345abc".toList, rfl, .inl rfl,
    (labels_iff.mp hlabels).1, .port (by decide) rfl, by decide, .inr ⟨"12345abc".toList, rfl, ?_⟩⟩⟩
  exact .long (.inr ⟨by decide, fun hpath => absurd (hpath 'a' rfl) (by decide)⟩)

end Dankerino.LinkParser
