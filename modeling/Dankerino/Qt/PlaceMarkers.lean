import Dankerino.Qt.QString

/-!
# Place markers in pieces of a text

What `QString::arg` does to a text that is put together from parts. A marker never reaches into a
part that begins with a character which no marker goes on with, so the pieces of the whole are those
of the parts.
-/

namespace Dankerino

namespace QString

/-! ## Pieces -/

/-- What `placeMarker` reads behind `%` and `L`. -/
def markerDigits (start : Nat) : QString → Option (Nat × Nat)
  | [] => none
  | d :: s =>
    match digitValue d with
    | none => none
    | some n =>
      match s.head?.bind digitValue with
      | some n' => some (10 * n + n', start + 2)
      | none => some (n, start + 1)

theorem placeMarker_percent_L (s : QString) : placeMarker ('%' :: 'L' :: s) = markerDigits 2 s := by
  cases s <;> rfl

theorem placeMarker_percent {s : QString} (h : s.head? ≠ some 'L') :
    placeMarker ('%' :: s) = markerDigits 1 s := by
  cases s with
  | nil => rfl
  | cons d s =>
    have hd : d ≠ 'L' := fun hd => h (by rw [hd]; rfl)
    unfold placeMarker
    split
    · next heq =>
      obtain rfl := (List.cons.inj heq).2
      split
      · next start s' hstart =>
        split at hstart
        · next heq' => exact absurd (List.cons.inj heq').1 hd
        · obtain ⟨rfl, rfl⟩ := Prod.mk.inj hstart
          rfl
    · next hne => exact absurd rfl (hne _)

theorem placeMarker_of_ne {c : Char} (h : c ≠ '%') (s : QString) : placeMarker (c :: s) = none := by
  unfold placeMarker
  split
  · next heq => exact absurd (List.cons.inj heq).1 h
  · rfl

theorem markerDigits_size {start number size : Nat} {s : QString}
    (h : markerDigits start s = some (number, size)) : start < size ∧ size ≤ start + s.length := by
  cases s with
  | nil => exact nomatch h
  | cons d s =>
    unfold markerDigits at h
    simp only at h
    split at h
    · exact nomatch h
    · split at h
      · next heq =>
        obtain ⟨-, rfl⟩ := Prod.mk.inj (Option.some.inj h)
        cases s with
        | nil => exact nomatch heq
        | cons d' s =>
          simp only [List.length_cons]
          omega
      · obtain ⟨-, rfl⟩ := Prod.mk.inj (Option.some.inj h)
        simp only [List.length_cons]
        omega

/-- A marker is a part of the text. -/
theorem placeMarker_size {number size : Nat} {s : QString}
    (h : placeMarker s = some (number, size)) : 0 < size ∧ size ≤ s.length := by
  cases s with
  | nil => exact nomatch h
  | cons c s =>
    by_cases hc : c = '%'
    · subst hc
      by_cases hL : s.head? = some 'L'
      · obtain ⟨s', rfl⟩ : ∃ s', s = 'L' :: s' := by
          cases s with
          | nil => exact nomatch hL
          | cons d s' => exact ⟨s', by rw [Option.some.inj hL]⟩
        rw [placeMarker_percent_L] at h
        have := markerDigits_size h
        simp only [List.length_cons]
        omega
      · rw [placeMarker_percent hL] at h
        have := markerDigits_size h
        simp only [List.length_cons]
        omega
    · rw [placeMarker_of_ne hc] at h
      exact nomatch h

theorem piecesLoop_enough : ∀ (n m : Nat) (s : QString), s.length ≤ n → s.length ≤ m →
    piecesLoop n s = piecesLoop m s := by
  refine Infra.fuel_enough (fun n m => ?_) fun n m c s ih => ?_
  · cases n <;> cases m <;> rfl
  · rw [piecesLoop, piecesLoop]
    cases hmarker : placeMarker (c :: s) with
    | none => simp only [ih s (Nat.le_refl _)]
    | some r =>
      obtain ⟨number, size⟩ := r
      have hsize := (placeMarker_size hmarker).1
      have hdrop : ((c :: s).drop size).length ≤ s.length := by
        rw [List.length_drop, List.length_cons]
        omega
      simp only [ih _ hdrop]

theorem pieces_char {c : Char} {s : QString} (h : placeMarker (c :: s) = none) :
    pieces (c :: s) = .char c :: pieces s := by
  rw [pieces, List.length_cons, piecesLoop, h]
  rfl

theorem pieces_marker {s : QString} {number size : Nat} (h : placeMarker s = some (number, size)) :
    pieces s = .marker number (s.take size) :: pieces (s.drop size) := by
  obtain ⟨hpos, hle⟩ := placeMarker_size h
  cases s with
  | nil => exact nomatch h
  | cons c s =>
    rw [pieces, List.length_cons, piecesLoop, h]
    simp only [pieces]
    rw [piecesLoop_enough s.length _ _ _ (Nat.le_refl _)]
    rw [List.length_drop, List.length_cons]
    omega

/-- A character that no marker starts with. -/
@[simp]
theorem pieces_cons {c : Char} (h : c ≠ '%') (s : QString) : pieces (c :: s) = .char c :: pieces s :=
  pieces_char (placeMarker_of_ne h s)

/-- The characters of a piece. -/
def Piece.text : Piece → QString
  | .char c => [c]
  | .marker _ text => text

/-- The pieces of a text make up the text. -/
theorem flatMap_pieces (s : QString) : (pieces s).flatMap Piece.text = s := by
  induction hn : s.length using Nat.strongRecOn generalizing s with
  | ind n ih =>
    cases s with
    | nil => rfl
    | cons c s =>
      cases hmarker : placeMarker (c :: s) with
      | none =>
        rw [pieces_char hmarker, List.flatMap_cons, ih s.length (by rw [← hn]; simp) s rfl]
        rfl
      | some r =>
        obtain ⟨number, size⟩ := r
        obtain ⟨hpos, hle⟩ := placeMarker_size hmarker
        have hlt : ((c :: s).drop size).length < n := by
          rw [← hn, List.length_drop]
          omega
        rw [pieces_marker hmarker, List.flatMap_cons, ih _ hlt _ rfl]
        exact List.take_append_drop _ _

/-! ## Parts of a text -/

/-- No marker reaches into the text. -/
def Stops (s : QString) : Prop := ∀ c, s.head? = some c → c.isDigit = false ∧ c ≠ 'L'

theorem stops_cons {c : Char} (hdigit : c.isDigit = false) (hL : c ≠ 'L') (s : QString) :
    Stops (c :: s) := by
  rintro d hd
  obtain rfl := Option.some.inj hd
  exact ⟨hdigit, hL⟩

theorem digitValue_of_stops {s : QString} (h : Stops s) : s.head?.bind digitValue = none := by
  cases s with
  | nil => rfl
  | cons c s => simp [digitValue, (h c rfl).1]

theorem markerDigits_append {u v : QString} (hv : Stops v) (start : Nat) :
    markerDigits start (u ++ v) = markerDigits start u := by
  cases u with
  | nil =>
    cases v with
    | nil => rfl
    | cons c v => simp [markerDigits, digitValue, (hv c rfl).1]
  | cons d u =>
    cases u with
    | nil => simp [markerDigits, digitValue_of_stops hv]
    | cons d' u => rfl

theorem placeMarker_append {u v : QString} (hu : u ≠ []) (hv : Stops v) :
    placeMarker (u ++ v) = placeMarker u := by
  obtain ⟨c, u, rfl⟩ := List.exists_cons_of_ne_nil hu
  by_cases hc : c = '%'
  · subst hc
    cases u with
    | nil =>
      have hL : v.head? ≠ some 'L' := fun h => (hv _ h).2 rfl
      show placeMarker ('%' :: v) = _
      rw [placeMarker_percent hL]
      exact markerDigits_append (u := []) hv 1
    | cons d u =>
      by_cases hd : d = 'L'
      · subst hd
        rw [List.cons_append, List.cons_append, placeMarker_percent_L, placeMarker_percent_L,
          markerDigits_append hv]
      · rw [List.cons_append, placeMarker_percent (by simpa using hd),
          placeMarker_percent (by simpa using hd), markerDigits_append hv]
  · rw [List.cons_append, placeMarker_of_ne hc, placeMarker_of_ne hc]

theorem pieces_append {v : QString} (hv : Stops v) (u : QString) :
    pieces (u ++ v) = pieces u ++ pieces v := by
  induction hn : u.length using Nat.strongRecOn generalizing u with
  | ind n ih =>
    cases u with
    | nil => rfl
    | cons c u =>
      have happend := placeMarker_append (List.cons_ne_nil c u) hv
      cases hmarker : placeMarker (c :: u) with
      | none =>
        rw [hmarker] at happend
        have hchar : pieces (c :: u ++ v) = .char c :: pieces (u ++ v) := pieces_char happend
        rw [hchar, pieces_char hmarker, ih u.length (by rw [← hn]; simp) u rfl]
        rfl
      | some r =>
        obtain ⟨number, size⟩ := r
        rw [hmarker] at happend
        obtain ⟨hpos, hle⟩ := placeMarker_size hmarker
        have hlt : ((c :: u).drop size).length < n := by
          rw [← hn, List.length_drop]
          omega
        rw [pieces_marker happend, pieces_marker hmarker, List.take_append_of_le_length hle,
          List.drop_append_of_le_length hle, ih _ hlt _ rfl]
        rfl

/-! ## Markers and substitution -/

theorem markers_append {v : QString} (hv : Stops v) (u : QString) :
    markers (u ++ v) = markers u ++ markers v := by
  unfold markers
  rw [pieces_append hv, List.filterMap_append]

theorem markers_cons {c : Char} (h : c ≠ '%') (s : QString) : markers (c :: s) = markers s := by
  unfold markers
  rw [pieces_cons h]
  rfl

theorem substitute_append {v : QString} (hv : Stops v) (number : Nat) (a u : QString) :
    substitute number a (u ++ v) = substitute number a u ++ substitute number a v := by
  unfold substitute
  rw [pieces_append hv, List.flatMap_append]

theorem substitute_cons {c : Char} (h : c ≠ '%') (number : Nat) (a s : QString) :
    substitute number a (c :: s) = c :: substitute number a s := by
  unfold substitute
  rw [pieces_cons h]
  rfl

/-- A part in front that has no `%` stays as it is. -/
theorem markers_plain_append {u : QString} (hu : '%' ∉ u) (v : QString) :
    markers (u ++ v) = markers v := by
  induction u with
  | nil => rfl
  | cons c u ih =>
    rw [List.mem_cons, not_or] at hu
    rw [List.cons_append, markers_cons (Ne.symm hu.1), ih hu.2]

theorem substitute_plain_append {u : QString} (hu : '%' ∉ u) (number : Nat) (a v : QString) :
    substitute number a (u ++ v) = u ++ substitute number a v := by
  induction u with
  | nil => rfl
  | cons c u ih =>
    rw [List.mem_cons, not_or] at hu
    rw [List.cons_append, substitute_cons (Ne.symm hu.1), ih hu.2, List.cons_append]

/-- A text without the marker stays as it is. -/
theorem substitute_of_notMem {number : Nat} {s : QString} (h : number ∉ markers s) (a : QString) :
    substitute number a s = s := by
  refine Eq.trans ?_ (flatMap_pieces s)
  unfold substitute
  rw [List.flatMap_def, List.flatMap_def]
  congr 1
  refine List.map_congr_left fun piece hpiece => ?_
  cases piece with
  | char c => rfl
  | marker number' text =>
    have hne : number' ≠ number := by
      rintro rfl
      exact h (List.mem_filterMap.mpr ⟨_, hpiece, rfl⟩)
    exact if_neg hne

/-! ## Counting characters -/

/-- A `%`, maybe an `L`, and digits. -/
def IsMarkerText (text : QString) : Prop := ∃ t, text = '%' :: t ∧ t ≠ [] ∧ ∀ c ∈ t, c.isDigit = true ∨ c = 'L'

theorem markerDigits_prefix {start number size : Nat} {s : QString} (h : markerDigits start s = some (number, size)) :
    ∃ digits, digits <+: s ∧ digits ≠ [] ∧ (∀ c ∈ digits, c.isDigit = true) ∧ size = start + digits.length := by
  have hvalue {c : Char} {n : Nat} (h : digitValue c = some n) : c.isDigit = true := by
    unfold digitValue at h
    split at h
    · assumption
    · cases h
  cases s with
  | nil => cases h
  | cons d s =>
    unfold markerDigits at h
    simp only at h
    split at h
    · cases h
    · next n hd =>
      split at h
      · next n' hd' =>
        obtain ⟨-, rfl⟩ := Prod.mk.inj (Option.some.inj h)
        cases s with
        | nil => cases hd'
        | cons d' s =>
          refine ⟨[d, d'], ⟨s, rfl⟩, List.cons_ne_nil _ _, ?_, rfl⟩
          rintro c (_ | ⟨_, _ | ⟨_, hc⟩⟩)
          · exact hvalue hd
          · exact hvalue hd'
          · cases hc
      · obtain ⟨-, rfl⟩ := Prod.mk.inj (Option.some.inj h)
        refine ⟨[d], ⟨s, rfl⟩, List.cons_ne_nil _ _, ?_, rfl⟩
        rintro c (_ | ⟨_, hc⟩)
        · exact hvalue hd
        · cases hc

theorem isMarkerText_take {s : QString} {number size : Nat} (h : placeMarker s = some (number, size)) :
    IsMarkerText (s.take size) := by
  cases s with
  | nil => cases h
  | cons c s =>
    by_cases hc : c = '%'
    · subst hc
      by_cases hL : s.head? = some 'L'
      · cases s with
        | nil => cases hL
        | cons d s =>
          obtain rfl := Option.some.inj hL
          rw [placeMarker_percent_L] at h
          obtain ⟨digits, hprefix, hne, hdigits, rfl⟩ := markerDigits_prefix h
          refine ⟨'L' :: digits, ?_, List.cons_ne_nil _ _, ?_⟩
          · rw [Nat.add_comm, List.take_succ_cons, List.take_succ_cons, ← List.prefix_iff_eq_take.mp hprefix]
          · rintro c (_ | ⟨_, hc⟩)
            · exact .inr rfl
            · exact .inl (hdigits c hc)
      · rw [placeMarker_percent hL] at h
        obtain ⟨digits, hprefix, hne, hdigits, rfl⟩ := markerDigits_prefix h
        refine ⟨digits, ?_, hne, fun c hc => .inl (hdigits c hc)⟩
        rw [Nat.add_comm, List.take_succ_cons, ← List.prefix_iff_eq_take.mp hprefix]
    · rw [placeMarker_of_ne hc] at h
      cases h

theorem isMarkerText_of_mem {number : Nat} {text s : QString} (h : Piece.marker number text ∈ pieces s) :
    IsMarkerText text := by
  induction hn : s.length using Nat.strongRecOn generalizing s with
  | ind n ih =>
    cases s with
    | nil => cases h
    | cons c s =>
      cases hmarker : placeMarker (c :: s) with
      | none =>
        rw [pieces_char hmarker] at h
        rcases List.mem_cons.mp h with h | h
        · cases h
        · exact ih s.length (by rw [← hn]; simp) h rfl
      | some r =>
        obtain ⟨number', size⟩ := r
        obtain ⟨hpos, hle⟩ := placeMarker_size hmarker
        rw [pieces_marker hmarker] at h
        rcases List.mem_cons.mp h with h | h
        · obtain ⟨-, rfl⟩ := Piece.marker.inj h
          exact isMarkerText_take hmarker
        · refine ih _ ?_ h rfl
          rw [← hn, List.length_drop]
          omega

/-- What a piece becomes. -/
def Piece.filled (number : Nat) (a : QString) : Piece → QString
  | .char c => [c]
  | .marker number' text => if number' = number then a else text

theorem substitute_eq (number : Nat) (a s : QString) :
    substitute number a s = (pieces s).flatMap (Piece.filled number a) := by
  unfold substitute
  rfl

theorem mem_markers {number : Nat} {s : QString} :
    number ∈ markers s ↔ ∃ text, Piece.marker number text ∈ pieces s := by
  unfold markers
  rw [List.mem_filterMap]
  constructor
  · rintro ⟨piece, hpiece, hnumber⟩
    cases piece with
    | char c => cases hnumber
    | marker number' text =>
      obtain rfl := Option.some.inj hnumber
      exact ⟨text, hpiece⟩
  · rintro ⟨text, htext⟩
    exact ⟨_, htext, rfl⟩

section Count

variable (p : Char → Bool)

theorem countP_flatMap_le {α : Type} {f g : α → QString} {l : List α}
    (h : ∀ x ∈ l, (f x).countP p ≤ (g x).countP p) : (l.flatMap f).countP p ≤ (l.flatMap g).countP p := by
  induction l with
  | nil => exact Nat.le_refl _
  | cons x l ih =>
    rw [List.flatMap_cons, List.flatMap_cons, List.countP_append, List.countP_append]
    exact Nat.add_le_add (h x (.head _)) (ih fun y hy => h y (.tail _ hy))

/-- One of the parts has `k` more of the characters. -/
theorem countP_flatMap_add_le {α : Type} {f g : α → QString} {l : List α} {x : α} {k : Nat}
    (h : ∀ x ∈ l, (f x).countP p ≤ (g x).countP p) (hx : x ∈ l) (hk : (f x).countP p + k ≤ (g x).countP p) :
    (l.flatMap f).countP p + k ≤ (l.flatMap g).countP p := by
  obtain ⟨front, back, rfl⟩ := List.append_of_mem hx
  have hfront := countP_flatMap_le p fun y hy => h y (List.mem_append_left _ hy)
  have hback := countP_flatMap_le p fun y hy => h y (List.mem_append_right front (.tail _ hy))
  simp only [List.flatMap_append, List.flatMap_cons, List.countP_append]
  omega

variable {number : Nat} {a s : QString}

/-- What a marker has more of than the text that is put in for it. -/
theorem countP_filled (number : Nat) (ha : ∀ text, IsMarkerText text → a.countP p ≤ text.countP p) :
    ∀ piece ∈ pieces s, (piece.filled number a).countP p ≤ piece.text.countP p := by
  intro piece hpiece
  cases piece with
  | char c => exact Nat.le_refl _
  | marker number' text =>
    rw [Piece.filled, Piece.text]
    split
    · exact ha text (isMarkerText_of_mem hpiece)
    · exact Nat.le_refl _

theorem countP_substitute_le (ha : ∀ text, IsMarkerText text → a.countP p ≤ text.countP p) :
    (substitute number a s).countP p ≤ s.countP p := by
  have h := countP_flatMap_le p (countP_filled p number ha (s := s))
  rwa [flatMap_pieces, ← substitute_eq] at h

theorem countP_substitute_lt (hmem : number ∈ markers s)
    (ha : ∀ text, IsMarkerText text → a.countP p < text.countP p) :
    (substitute number a s).countP p < s.countP p := by
  obtain ⟨text, htext⟩ := mem_markers.mp hmem
  have hfilled : (Piece.marker number text).filled number a = a := if_pos rfl
  have hlt : ((Piece.marker number text).filled number a).countP p + 1 ≤ (Piece.text (.marker number text)).countP p := by
    rw [hfilled]
    exact ha text (isMarkerText_of_mem htext)
  have h := countP_flatMap_add_le p (countP_filled p number fun text h => Nat.le_of_lt (ha text h)) htext hlt
  rwa [flatMap_pieces, ← substitute_eq] at h

/-- Characters that are in no marker stay in the text. -/
theorem countP_text (number : Nat) (a : QString) (ha : ∀ text, IsMarkerText text → text.countP p = 0) :
    ∀ piece ∈ pieces s, piece.text.countP p ≤ (piece.filled number a).countP p := by
  intro piece hpiece
  cases piece with
  | char c => exact Nat.le_refl _
  | marker number' text =>
    rw [Piece.text, ha text (isMarkerText_of_mem hpiece)]
    exact Nat.zero_le _

theorem le_countP_substitute (ha : ∀ text, IsMarkerText text → text.countP p = 0) :
    s.countP p ≤ (substitute number a s).countP p := by
  have h := countP_flatMap_le p (countP_text p number a ha (s := s))
  rwa [flatMap_pieces, ← substitute_eq] at h

theorem add_le_countP_substitute (hmem : number ∈ markers s)
    (ha : ∀ text, IsMarkerText text → text.countP p = 0) :
    s.countP p + a.countP p ≤ (substitute number a s).countP p := by
  obtain ⟨text, htext⟩ := mem_markers.mp hmem
  have hfilled : (Piece.marker number text).filled number a = a := if_pos rfl
  have hk : (Piece.text (.marker number text)).countP p + a.countP p
      ≤ ((Piece.marker number text).filled number a).countP p := by
    refine Nat.le_of_eq ?_
    rw [hfilled, Piece.text, ha text (isMarkerText_of_mem htext), Nat.zero_add]
  have h := countP_flatMap_add_le p (countP_text p number a ha) htext hk
  rwa [flatMap_pieces, ← substitute_eq] at h

end Count

end QString

end Dankerino
