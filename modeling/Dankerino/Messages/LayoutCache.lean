import Dankerino.Infra.PastTime
import Dankerino.Messages.MessageElement

/-!
# The cache of a message on screen

`MessageLayout` keeps the layout of its message in a container, and a picture of it in a buffer. `layout` does
nothing if its arguments are the ones of the last time and nothing was changed since, which the program says
by a higher generation or by a flag. `paint` draws the buffer, which it makes and fills only if it has to.

Not every change is said: a message is disabled without it.

* `paint_layout`: whatever was laid out, painted, changed and thrown away before, `layout` followed by `paint`
  shows what a layout from scratch would show, if since the last change that was not said a layout was forced.
* `paint_change`: such a change is not seen before.
-/

namespace Dankerino

open Infra

namespace MessageElementFlag

def moderatorTools : MessageElementFlags := bit 22

end MessageElementFlag

namespace LayoutCache

variable {ω ε σ ρ δ : Type}

/-- What a layout depends on beside its arguments. -/
structure World (ω ε : Type) where
  hideModerated : Bool
  hideModerationActions : Bool
  hideSimilar : Bool
  settings : LayoutSettings
  /-- The flags of the message. -/
  flags : MessageFlags
  elements : List ε
  /-- Fonts and colors. -/
  other : ω

/--
How elements are put into a container, and how a container is drawn. A scale is a `σ`, and a `ρ` the ratio of
pixels of a device.
-/
structure Renderer (ω ε σ ρ δ : Type) where
  metrics : World ω ε → σ → LayoutMetrics
  xFromIndex : World ω ε → σ → Int → Int
  isRepliedMessage : ε → Bool
  addToContainer : World ω ε → ε → MessageElementFlags → MessageLayoutContainer → MessageLayoutContainer
  /-- A pixmap of such a size is null. -/
  isNull : ρ → Int → Int → Bool
  /-- `updateBuffer`, for a layout with an alternate background and one that ignores highlights. -/
  draw : World ω ε → Bool → Bool → MessageLayoutContainer → δ

/-- A pixmap with the ratio, the width and the height that were asked for. -/
structure Pixmap (ρ δ : Type) where
  devicePixelRatio : ρ
  width : Int
  height : Int
  picture : Option δ

structure MessageLayout (σ ρ δ : Type) where
  container : MessageLayoutContainer
  buffer : Option (Pixmap ρ δ)
  bufferValid : Bool
  renderReplies : Bool
  height : Int
  currentLayoutWidth : Int
  layoutState : Int
  /-- `none` for the `-1` that no scale is. -/
  scale : Option σ
  currentWordFlags : MessageElementFlags
  -- the flags of the layout
  requiresBufferUpdate : Bool
  requiresLayout : Bool
  alternateBackground : Bool
  collapsed : Bool
  expanded : Bool
  ignoreHighlights : Bool

variable (renderer : Renderer ω ε σ ρ δ)

/-! ## Operations -/

def deleteBuffer (s : MessageLayout σ ρ δ) : MessageLayout σ ρ δ := { s with buffer := none }

def invalidateBuffer (s : MessageLayout σ ρ δ) : MessageLayout σ ρ δ := { s with bufferValid := false }

/-- The flags of the message that the container gets. -/
def messageFlags (world : World ω ε) (expanded : Bool) (flags : MessageElementFlags) : MessageFlags :=
  if expanded || (flags.has MessageElementFlag.moderatorTools && !world.flags.has .disabled) then
    world.flags.filter (· ≠ .collapsed)
  else world.flags

/-- Whether the loop over the elements passes an element over. -/
def skips (world : World ω ε) (renderReplies : Bool) (element : ε) : Bool :=
  (world.hideModerated && world.flags.has .disabled) ||
    (world.hideModerationActions && (world.flags.has .timeout || world.flags.has .untimeout)) ||
    (world.hideSimilar && world.flags.has .similar) ||
    (!renderReplies && renderer.isRepliedMessage element)

/-- The container as the loop leaves it. -/
def addElements (world : World ω ε) (renderReplies : Bool) (flags : MessageElementFlags)
    (container : MessageLayoutContainer) : MessageLayoutContainer :=
  world.elements.foldl (fun container element =>
    if skips renderer world renderReplies element then container
    else renderer.addToContainer world element flags container) container

def actuallyLayout (world : World ω ε) (scale : σ) (width : Int) (flags : MessageElementFlags)
    (s : MessageLayout σ ρ δ) : MessageLayout σ ρ δ :=
  let container := s.container.begin width (renderer.metrics world scale) (messageFlags world s.expanded flags)
  let container := addElements renderer world s.renderReplies flags container
  let s := if s.height ≠ container.height then deleteBuffer s else s
  let container := container.finish world.settings (renderer.xFromIndex world scale)
  { s with container, height := container.height, collapsed := container.isCollapsed }

variable [DecidableEq σ]

/-- `layout`, with what it returns. -/
def layout (world : World ω ε) (generation : Int) (width : Int) (scale : σ) (flags : MessageElementFlags)
    (s : MessageLayout σ ρ δ) : MessageLayout σ ρ δ × Bool :=
  let widthChanged := width != s.currentLayoutWidth
  let stateChanged := s.layoutState != generation
  let layoutRequired := widthChanged || stateChanged || s.currentWordFlags != flags || s.requiresLayout ||
    s.scale != some scale
  let s :=
    { s with
      currentLayoutWidth := width
      requiresBufferUpdate := s.requiresBufferUpdate || stateChanged
      layoutState := generation
      currentWordFlags := flags
      requiresLayout := false
      scale := some scale }
  if !layoutRequired then (s, false)
  else
    let oldHeight := s.container.height
    let s := actuallyLayout renderer world scale width flags s
    let s := if widthChanged || s.container.height != oldHeight then deleteBuffer s else s
    (invalidateBuffer s, true)

def setRenderReplies (render : Bool) (s : MessageLayout σ ρ δ) : MessageLayout σ ρ δ :=
  { s with renderReplies := render }

/-- `updateBuffer`. -/
def updateBuffer (world : World ω ε) (s : MessageLayout σ ρ δ) (pixmap : Pixmap ρ δ) : Pixmap ρ δ :=
  if renderer.isNull pixmap.devicePixelRatio pixmap.width pixmap.height then pixmap
  else
    { pixmap with
      picture := some (renderer.draw world s.alternateBackground s.ignoreHighlights s.container) }

/-- `paint`, with the pixmap that it draws. -/
def paint (world : World ω ε) (devicePixelRatio : ρ) (width : Int) (selectionIsEmpty : Bool)
    (s : MessageLayout σ ρ δ) : MessageLayout σ ρ δ × Pixmap ρ δ :=
  let (pixmap, valid) : Pixmap ρ δ × Bool :=
    match s.buffer with
    | some pixmap => (pixmap, s.bufferValid)
    | none => (⟨devicePixelRatio, width, s.container.height, none⟩, false)
  let pixmap := if !valid || !selectionIsEmpty then updateBuffer renderer world s pixmap else pixmap
  ({ s with buffer := some pixmap, bufferValid := true }, pixmap)

/-- A container that nothing was put into. -/
def emptyContainer (metrics : LayoutMetrics) : MessageLayoutContainer where
  width := 0
  metrics := metrics
  flags := []
  line := 0
  height := 0
  currentX := 0
  currentY := 0
  charIndex := 0
  lineStart := 0
  lineHeight := 0
  canAddMessages := true
  isCollapsed := false
  elements := []
  lines := []

/-- The constructor, and the flags that the view sets. -/
def new (metrics : LayoutMetrics) (alternateBackground ignoreHighlights : Bool) : MessageLayout σ ρ δ where
  container := emptyContainer metrics
  buffer := none
  bufferValid := false
  renderReplies := true
  height := 0
  currentLayoutWidth := -1
  layoutState := -1
  scale := none
  currentWordFlags := 0
  requiresBufferUpdate := false
  requiresLayout := false
  alternateBackground := alternateBackground
  collapsed := false
  expanded := false
  ignoreHighlights := ignoreHighlights

/-! ## Runs -/

/-- A layout in its surroundings. -/
structure View (ω ε σ ρ δ : Type) where
  layout : MessageLayout σ ρ δ
  world : World ω ε
  generation : Nat

inductive Event (ω ε σ ρ : Type)
  /-- Something that layouts depend on changes, and the layout of all views is forced. -/
  | forceLayout (world : World ω ε)
  /-- It changes, and that is all. A message is disabled so. -/
  | change (world : World ω ε)
  | setRenderReplies (render : Bool)
  /-- The user expands the message. -/
  | expand
  | layout (width : Int) (scale : σ) (flags : MessageElementFlags)
  | paint (devicePixelRatio : ρ) (width : Int) (selectionIsEmpty : Bool)
  | deleteBuffer
  | invalidateBuffer

def step (v : View ω ε σ ρ δ) : Event ω ε σ ρ → View ω ε σ ρ δ
  | .forceLayout world => { v with world, generation := v.generation + 1 }
  | .change world => { v with world }
  | .setRenderReplies render => { v with layout := setRenderReplies render v.layout }
  | .expand => { v with layout := { v.layout with expanded := true, requiresLayout := true } }
  | .layout width scale flags =>
    { v with layout := (layout renderer v.world v.generation width scale flags v.layout).1 }
  | .paint devicePixelRatio width selectionIsEmpty =>
    { v with layout := (paint renderer v.world devicePixelRatio width selectionIsEmpty v.layout).1 }
  | .deleteBuffer => { v with layout := deleteBuffer v.layout }
  | .invalidateBuffer => { v with layout := invalidateBuffer v.layout }

/-- A new layout after the events. -/
def after (metrics : LayoutMetrics) (alternateBackground ignoreHighlights : Bool) (world : World ω ε)
    (es : List (Event ω ε σ ρ)) : View ω ε σ ρ δ :=
  es.foldl (step renderer) ⟨new metrics alternateBackground ignoreHighlights, world, 0⟩

namespace Event

/-- The changes that no layout is forced for. -/
def changes : Event ω ε σ ρ → Bool
  | .change _ => true
  | .setRenderReplies _ => true
  | _ => false

def forces : Event ω ε σ ρ → Bool
  | .forceLayout _ => true
  | .expand => true
  | _ => false

/-- There was a change that no layout has been forced for since. -/
def Pending (es : List (Event ω ε σ ρ)) : Prop := Since (fun e => e.changes) (fun e => e.forces) es

/-- On such a surface was painted, and since then the buffer was not thrown away. -/
def PaintedOn (devicePixelRatio : ρ) (width layoutWidth : Int) (es : List (Event ω ε σ ρ)) : Prop :=
  Since (fun e => ∃ selectionIsEmpty, e = .paint devicePixelRatio width selectionIsEmpty)
    (fun e => e = .deleteBuffer ∨ ∃ w scale flags, e = .layout w scale flags ∧ w ≠ layoutWidth) es

end Event

/-! ## A layout from scratch -/

def plainLayout (world : World ω ε) (expanded renderReplies : Bool) (width : Int) (scale : σ)
    (flags : MessageElementFlags) : MessageLayoutContainer :=
  let metrics := renderer.metrics world scale
  (addElements renderer world renderReplies flags
    ((emptyContainer metrics).begin width metrics (messageFlags world expanded flags))).finish
      world.settings (renderer.xFromIndex world scale)

/-- What is drawn of a container on a surface. -/
def plainPixmap (world : World ω ε) (alternateBackground ignoreHighlights : Bool) (devicePixelRatio : ρ)
    (width : Int) (container : MessageLayoutContainer) : Pixmap ρ δ where
  devicePixelRatio := devicePixelRatio
  width := width
  height := container.height
  picture :=
    if renderer.isNull devicePixelRatio width container.height then none
    else some (renderer.draw world alternateBackground ignoreHighlights container)

/-! ## One layout -/

section

variable {renderer}

/-- Nothing is left in a container of what was laid out before. -/
theorem begin_eq (c c' : MessageLayoutContainer) (width : Int) (metrics : LayoutMetrics) (flags : MessageFlags) :
    c.begin width metrics flags = c'.begin width metrics flags := rfl

omit [DecidableEq σ] in
theorem actuallyLayout_eq (world : World ω ε) (scale : σ) (width : Int) (flags : MessageElementFlags)
    (s : MessageLayout σ ρ δ) : ∃ buffer, (buffer = none ∨ buffer = s.buffer) ∧
    actuallyLayout renderer world scale width flags s = { s with
      container := plainLayout renderer world s.expanded s.renderReplies width scale flags
      height := (plainLayout renderer world s.expanded s.renderReplies width scale flags).height
      collapsed := (plainLayout renderer world s.expanded s.renderReplies width scale flags).isCollapsed
      buffer := buffer } := by
  unfold actuallyLayout plainLayout
  rw [begin_eq s.container (emptyContainer (renderer.metrics world scale))]
  dsimp only
  split
  · exact ⟨none, .inl rfl, rfl⟩
  · exact ⟨s.buffer, .inr rfl, rfl⟩

/-- A layout that is made keeps the buffer only if the width and the height are the ones before. -/
theorem layout_made {world : World ω ε} {generation width : Int} {scale : σ} {flags : MessageElementFlags}
    {s s' : MessageLayout σ ρ δ} (h : layout renderer world generation width scale flags s = (s', true)) :
    s' = { s with
      container := plainLayout renderer world s.expanded s.renderReplies width scale flags
      height := (plainLayout renderer world s.expanded s.renderReplies width scale flags).height
      collapsed := (plainLayout renderer world s.expanded s.renderReplies width scale flags).isCollapsed
      buffer := s'.buffer
      bufferValid := false
      currentLayoutWidth := width
      requiresBufferUpdate := s.requiresBufferUpdate || s.layoutState != generation
      layoutState := generation
      currentWordFlags := flags
      requiresLayout := false
      scale := some scale } ∧
    (s'.buffer = none ∨ s'.buffer = s.buffer ∧ width = s.currentLayoutWidth ∧
      s'.container.height = s.container.height) := by
  unfold layout at h
  dsimp only at h
  split at h
  · simp at h
  · obtain ⟨buffer, hbuffer, heq⟩ := @actuallyLayout_eq _ _ _ _ _ renderer world scale width flags { s with
      currentLayoutWidth := width
      requiresBufferUpdate := s.requiresBufferUpdate || s.layoutState != generation
      layoutState := generation
      currentWordFlags := flags
      requiresLayout := false
      scale := some scale }
    rw [heq] at h
    obtain ⟨rfl, -⟩ := Prod.mk.injEq .. ▸ h
    split
    · exact ⟨rfl, .inl rfl⟩
    · next hsame =>
      rw [Bool.or_eq_true, not_or] at hsame
      obtain ⟨hwidth, hheight⟩ := hsame
      refine ⟨rfl, ?_⟩
      rcases hbuffer with rfl | rfl
      · exact .inl rfl
      · exact .inr ⟨rfl, by simpa using hwidth, by simpa [invalidateBuffer] using hheight⟩

/-- A layout that is not made finds its arguments in the state, and changes nothing. -/
theorem layout_spared {world : World ω ε} {generation width : Int} {scale : σ} {flags : MessageElementFlags}
    {s s' : MessageLayout σ ρ δ} (h : layout renderer world generation width scale flags s = (s', false)) :
    s' = s ∧ s.currentLayoutWidth = width ∧ s.layoutState = generation ∧ s.currentWordFlags = flags ∧
      s.requiresLayout = false ∧ s.scale = some scale := by
  unfold layout at h
  dsimp only at h
  split at h
  · next hspared =>
    simp only [Bool.not_eq_true', Bool.or_eq_false_iff, bne_eq_false_iff_eq] at hspared
    obtain ⟨⟨⟨⟨hwidth, hstate⟩, hflags⟩, hrequires⟩, hscale⟩ := hspared
    obtain ⟨rfl, -⟩ := Prod.mk.injEq .. ▸ h
    refine ⟨?_, hwidth.symm, hstate, hflags, hrequires, hscale⟩
    obtain ⟨⟩ := s
    simp_all
  · simp at h

/-- After a layout in either way the next one with its arguments is not made. -/
theorem layout_settled (world : World ω ε) (generation width : Int) (scale : σ) (flags : MessageElementFlags)
    (s : MessageLayout σ ρ δ) :
    let s' := (layout renderer world generation width scale flags s).1
    s'.currentLayoutWidth = width ∧ s'.layoutState = generation ∧ s'.currentWordFlags = flags ∧
      s'.requiresLayout = false ∧ s'.scale = some scale := by
  obtain ⟨⟨s', made⟩, h⟩ : ∃ r, layout renderer world generation width scale flags s = r := ⟨_, rfl⟩
  rw [h]
  cases made with
  | true =>
    rw [(layout_made h).1]
    exact ⟨rfl, rfl, rfl, rfl, rfl⟩
  | false =>
    obtain ⟨rfl, hsettled⟩ := layout_spared h
    exact hsettled

theorem layout_of_settled {world : World ω ε} {generation width : Int} {scale : σ} {flags : MessageElementFlags}
    {s : MessageLayout σ ρ δ} (hwidth : s.currentLayoutWidth = width) (hstate : s.layoutState = generation)
    (hflags : s.currentWordFlags = flags) (hrequires : s.requiresLayout = false) (hscale : s.scale = some scale) :
    (layout renderer world generation width scale flags s).1 = s := by
  obtain ⟨⟩ := s
  subst hwidth hstate hflags hrequires hscale
  simp [layout]

/-! ## What every event keeps -/

/-- What the caches have to do with what they are for. -/
structure Good (renderer : Renderer ω ε σ ρ δ) (es : List (Event ω ε σ ρ)) (v : View ω ε σ ρ δ) : Prop where
  generation : v.layout.layoutState ≤ v.generation
  /-- Where no layout is due, the container is the layout for the arguments of the last time. -/
  fresh : ¬ Event.Pending es → v.layout.layoutState = v.generation → v.layout.requiresLayout = false →
    ∃ scale, v.layout.scale = some scale ∧ v.layout.container = plainLayout renderer v.world v.layout.expanded
      v.layout.renderReplies v.layout.currentLayoutWidth scale v.layout.currentWordFlags
  sized : ∀ p, v.layout.buffer = some p →
    Event.PaintedOn p.devicePixelRatio p.width v.layout.currentLayoutWidth es ∧
    p.height = v.layout.container.height ∧
    (renderer.isNull p.devicePixelRatio p.width p.height = true → p.picture = none)
  /-- There, a valid buffer shows the container. -/
  drawn : ¬ Event.Pending es → v.layout.layoutState = v.generation → v.layout.requiresLayout = false →
    v.layout.bufferValid = true → ∀ p, v.layout.buffer = some p →
      p = plainPixmap renderer v.world v.layout.alternateBackground v.layout.ignoreHighlights
        p.devicePixelRatio p.width v.layout.container

variable {es : List (Event ω ε σ ρ)} {v : View ω ε σ ρ δ}

omit [DecidableEq σ] in
theorem pending_snoc {e : Event ω ε σ ρ} (hchanges : e.changes = false) (hforces : e.forces = false) :
    Event.Pending (es ++ [e]) ↔ Event.Pending es := by
  rw [Event.Pending, since_snoc]
  simp [hchanges, hforces, Event.Pending]

omit [DecidableEq σ] in
theorem pending_of_changes {e : Event ω ε σ ρ} (h : e.changes = true) : Event.Pending (es ++ [e]) :=
  since_snoc.mpr (.inl h)

omit [DecidableEq σ] in
theorem not_pending_of_forces {e : Event ω ε σ ρ} (h : e.forces = true) : ¬ Event.Pending (es ++ [e]) := by
  rw [Event.Pending, since_snoc]
  cases e <;> simp_all [Event.forces, Event.changes]

omit [DecidableEq σ] in
theorem paintedOn_snoc {devicePixelRatio : ρ} {width layoutWidth : Int} {e : Event ω ε σ ρ}
    (h : Event.PaintedOn devicePixelRatio width layoutWidth es) (hdelete : e ≠ .deleteBuffer)
    (hlayout : ∀ w scale flags, e = .layout w scale flags → w = layoutWidth) :
    Event.PaintedOn devicePixelRatio width layoutWidth (es ++ [e]) := by
  refine since_snoc.mpr (.inr ⟨h, ?_⟩)
  rintro (rfl | ⟨w, scale, flags, rfl, hne⟩)
  · exact hdelete rfl
  · exact hne (hlayout w scale flags rfl)

/-- The layout after a call of `layout`, whether or not it was made. -/
theorem layout_container (hv : Good renderer es v) (hpending : ¬ Event.Pending es) (width : Int) (scale : σ)
    (flags : MessageElementFlags) :
    (layout renderer v.world v.generation width scale flags v.layout).1.container
      = plainLayout renderer v.world v.layout.expanded v.layout.renderReplies width scale flags := by
  obtain ⟨⟨s', made⟩, h⟩ : ∃ r, layout renderer v.world v.generation width scale flags v.layout = r := ⟨_, rfl⟩
  rw [h]
  cases made with
  | true => rw [(layout_made h).1]
  | false =>
    obtain ⟨rfl, hwidth, hstate, hflags, hrequires, hscale⟩ := layout_spared h
    obtain ⟨scale', hscale', hcontainer⟩ := hv.fresh hpending hstate hrequires
    obtain rfl := Option.some.inj (hscale.symm.trans hscale')
    rw [hcontainer, hwidth, hflags]

theorem good_layout (hv : Good renderer es v) (width : Int) (scale : σ) (flags : MessageElementFlags) :
    Good renderer (es ++ [.layout width scale flags]) (step renderer v (.layout width scale flags)) := by
  have hpending : Event.Pending (es ++ [.layout width scale flags]) ↔ Event.Pending es := pending_snoc rfl rfl
  obtain ⟨⟨s', made⟩, h⟩ : ∃ r, layout renderer v.world v.generation width scale flags v.layout = r := ⟨_, rfl⟩
  cases made with
  | true =>
    obtain ⟨heq, hbuffer⟩ := layout_made h
    rw [step, h]
    refine ⟨?_, fun _ _ _ => ⟨scale, ?_, ?_⟩, fun p hp => ?_, fun _ _ _ hvalid => ?_⟩
    · rw [heq]
    · rw [heq]
    · rw [heq]
    · rcases hbuffer with hnone | ⟨hsame, hwidth, hheight⟩
      · simp [hnone] at hp
      · obtain ⟨hpainted, hsized⟩ := hv.sized p (hsame ▸ hp)
        have hwidth' : s'.currentLayoutWidth = v.layout.currentLayoutWidth := by rw [heq]; exact hwidth
        show Event.PaintedOn _ _ s'.currentLayoutWidth _ ∧ p.height = s'.container.height ∧ _
        rw [hwidth', hheight]
        refine ⟨paintedOn_snoc hpainted nofun ?_, hsized⟩
        rintro w _ _ ⟨⟩
        exact hwidth
    · rw [heq] at hvalid
      simp at hvalid
  | false =>
    obtain ⟨rfl, hwidth, -⟩ := layout_spared h
    rw [step, h]
    refine ⟨hv.generation, by rw [hpending]; exact hv.fresh, fun p hp => ?_, by rw [hpending]; exact hv.drawn⟩
    obtain ⟨hpainted, hsized⟩ := hv.sized p hp
    refine ⟨paintedOn_snoc hpainted nofun ?_, hsized⟩
    rintro w _ _ ⟨⟩
    exact hwidth.symm

omit [DecidableEq σ] in
/-- A pixmap of the size of the container is filled with what is drawn from scratch. -/
theorem updateBuffer_eq {world : World ω ε} {s : MessageLayout σ ρ δ} {p : Pixmap ρ δ}
    (hheight : p.height = s.container.height)
    (hnull : renderer.isNull p.devicePixelRatio p.width p.height = true → p.picture = none) :
    updateBuffer renderer world s p
      = plainPixmap renderer world s.alternateBackground s.ignoreHighlights p.devicePixelRatio p.width
          s.container := by
  obtain ⟨devicePixelRatio, width, height, picture⟩ := p
  subst hheight
  rw [updateBuffer, plainPixmap]
  split
  · next h =>
    have hpicture : picture = none := hnull h
    rw [hpicture]
  · rfl

omit [DecidableEq σ] in
/-- What `paint` leaves in the buffer. -/
theorem paint_buffer (hv : Good renderer es v) (devicePixelRatio : ρ) (width : Int) (selectionIsEmpty : Bool) :
    ∃ p, paint renderer v.world devicePixelRatio width selectionIsEmpty v.layout
        = ({ v.layout with buffer := some p, bufferValid := true }, p) ∧
      Event.PaintedOn p.devicePixelRatio p.width v.layout.currentLayoutWidth
        (es ++ [.paint devicePixelRatio width selectionIsEmpty]) ∧
      p.height = v.layout.container.height ∧
      (renderer.isNull p.devicePixelRatio p.width p.height = true → p.picture = none) ∧
      (¬ Event.Pending es → v.layout.layoutState = v.generation → v.layout.requiresLayout = false →
        p = plainPixmap renderer v.world v.layout.alternateBackground v.layout.ignoreHighlights
          p.devicePixelRatio p.width v.layout.container) := by
  have hplain (devicePixelRatio : ρ) (width : Int) :
      (renderer.isNull devicePixelRatio width v.layout.container.height = true →
        (plainPixmap renderer v.world v.layout.alternateBackground v.layout.ignoreHighlights devicePixelRatio
          width v.layout.container).picture = none) := fun hnull => by simp [plainPixmap, hnull]
  cases hbuffer : v.layout.buffer with
  | none =>
    refine ⟨plainPixmap renderer v.world v.layout.alternateBackground v.layout.ignoreHighlights devicePixelRatio
      width v.layout.container, ?_, since_snoc.mpr (.inl ⟨_, rfl⟩), rfl, hplain _ _, fun _ _ _ => rfl⟩
    rw [paint, hbuffer]
    dsimp only
    rw [if_pos (by simp), updateBuffer_eq rfl fun _ => rfl]
  | some p =>
    obtain ⟨hpainted, hheight, hnull⟩ := hv.sized p hbuffer
    have hpainted' : Event.PaintedOn p.devicePixelRatio p.width v.layout.currentLayoutWidth
        (es ++ [.paint devicePixelRatio width selectionIsEmpty]) := paintedOn_snoc hpainted nofun nofun
    by_cases hredraw : (!v.layout.bufferValid || !selectionIsEmpty) = true
    · refine ⟨plainPixmap renderer v.world v.layout.alternateBackground v.layout.ignoreHighlights
        p.devicePixelRatio p.width v.layout.container, ?_, hpainted', rfl, hplain _ _, fun _ _ _ => rfl⟩
      rw [paint, hbuffer]
      dsimp only
      rw [if_pos hredraw, updateBuffer_eq hheight hnull]
    · have hvalid : v.layout.bufferValid = true := by
        rw [Bool.or_eq_true, not_or] at hredraw
        simpa using hredraw.1
      refine ⟨p, ?_, hpainted', hheight, hnull,
        fun hpending hstate hrequires => hv.drawn hpending hstate hrequires hvalid p hbuffer⟩
      rw [paint, hbuffer]
      dsimp only
      rw [if_neg hredraw]

omit [DecidableEq σ] in
/-- A buffer stays through an event that neither throws it away nor lays out. -/
theorem sized_snoc (hv : Good renderer es v) {e : Event ω ε σ ρ} (hdelete : e ≠ .deleteBuffer)
    (hlayout : ∀ w scale flags, e ≠ .layout w scale flags) : ∀ p, v.layout.buffer = some p →
      Event.PaintedOn p.devicePixelRatio p.width v.layout.currentLayoutWidth (es ++ [e]) ∧
      p.height = v.layout.container.height ∧
      (renderer.isNull p.devicePixelRatio p.width p.height = true → p.picture = none) := by
  intro p hp
  obtain ⟨hpainted, hsized⟩ := hv.sized p hp
  exact ⟨paintedOn_snoc hpainted hdelete fun w scale flags h => absurd h (hlayout w scale flags), hsized⟩

/-- **Every event keeps the caches good.** -/
theorem good_step (hv : Good renderer es v) (e : Event ω ε σ ρ) :
    Good renderer (es ++ [e]) (step renderer v e) := by
  cases e with
  | forceLayout world =>
    have hgeneration := hv.generation
    refine ⟨?_, fun _ h => ?_, sized_snoc hv nofun nofun, fun _ h => ?_⟩
    · show v.layout.layoutState ≤ ((v.generation + 1 : Nat) : Int)
      omega
    · change v.layout.layoutState = ((v.generation + 1 : Nat) : Int) at h
      omega
    · change v.layout.layoutState = ((v.generation + 1 : Nat) : Int) at h
      omega
  | change world =>
    have hpending : Event.Pending (es ++ [.change world]) := pending_of_changes rfl
    exact ⟨hv.generation, fun h => absurd hpending h, sized_snoc hv nofun nofun, fun h => absurd hpending h⟩
  | setRenderReplies render =>
    have hpending : Event.Pending (es ++ [.setRenderReplies render]) := pending_of_changes rfl
    exact ⟨hv.generation, fun h => absurd hpending h, sized_snoc hv nofun nofun, fun h => absurd hpending h⟩
  | expand =>
    refine ⟨hv.generation, fun _ _ h => ?_, sized_snoc hv nofun nofun, fun _ _ h => ?_⟩
    · cases h
    · cases h
  | layout width scale flags => exact good_layout hv width scale flags
  | paint devicePixelRatio width selectionIsEmpty =>
    have hpending : Event.Pending (es ++ [.paint devicePixelRatio width selectionIsEmpty]) ↔ Event.Pending es :=
      pending_snoc rfl rfl
    obtain ⟨p, hpaint, hpainted, hheight, hnull, hdrawn⟩ :=
      paint_buffer hv devicePixelRatio width selectionIsEmpty
    rw [step, hpaint]
    refine ⟨hv.generation, by rw [hpending]; exact hv.fresh, fun q hq => ?_,
      fun hnone hstate hrequires _ q hq => ?_⟩
    · obtain rfl := Option.some.inj hq
      exact ⟨hpainted, hheight, hnull⟩
    · obtain rfl := Option.some.inj hq
      exact hdrawn (mt hpending.mpr hnone) hstate hrequires
  | deleteBuffer =>
    have hpending : Event.Pending (es ++ [.deleteBuffer]) ↔ Event.Pending es := pending_snoc rfl rfl
    refine ⟨hv.generation, by rw [hpending]; exact hv.fresh, fun p hp => ?_, fun _ _ _ _ p hp => ?_⟩
    · cases hp
    · cases hp
  | invalidateBuffer =>
    have hpending : Event.Pending (es ++ [.invalidateBuffer]) ↔ Event.Pending es := pending_snoc rfl rfl
    refine ⟨hv.generation, by rw [hpending]; exact hv.fresh, sized_snoc hv nofun nofun, fun _ _ _ h => ?_⟩
    cases h

omit [DecidableEq σ] in
theorem good_new (metrics : LayoutMetrics) (alternateBackground ignoreHighlights : Bool) (world : World ω ε) :
    Good renderer [] ⟨new metrics alternateBackground ignoreHighlights, world, 0⟩ := by
  refine ⟨by simp [new], fun _ h => ?_, fun p hp => ?_, fun _ h => ?_⟩
  · simp [new] at h
  · simp [new] at hp
  · simp [new] at h

/-- What no event changes. -/
theorem step_unchanged (v : View ω ε σ ρ δ) (e : Event ω ε σ ρ) :
    (step renderer v e).layout.alternateBackground = v.layout.alternateBackground ∧
      (step renderer v e).layout.ignoreHighlights = v.layout.ignoreHighlights := by
  cases e with
  | layout width scale flags =>
    obtain ⟨⟨s', made⟩, h⟩ : ∃ r, layout renderer v.world v.generation width scale flags v.layout = r := ⟨_, rfl⟩
    rw [step, h]
    cases made with
    | true =>
      obtain ⟨heq, -⟩ := layout_made h
      rw [heq]
      exact ⟨rfl, rfl⟩
    | false =>
      rw [(layout_spared h).1]
      exact ⟨rfl, rfl⟩
  | _ => exact ⟨rfl, rfl⟩

/-- The same for any number of events. -/
theorem good_after (metrics : LayoutMetrics) (alternateBackground ignoreHighlights : Bool) (world : World ω ε)
    (es : List (Event ω ε σ ρ)) :
    Good renderer es (after renderer metrics alternateBackground ignoreHighlights world es) ∧
      (after renderer metrics alternateBackground ignoreHighlights world es).layout.alternateBackground
        = alternateBackground ∧
      (after renderer metrics alternateBackground ignoreHighlights world es).layout.ignoreHighlights
        = ignoreHighlights := by
  induction es using List.reverseRecOn with
  | nil => exact ⟨good_new metrics alternateBackground ignoreHighlights world, rfl, rfl⟩
  | append_singleton es e ih =>
    obtain ⟨hgood, halternate, hignore⟩ := ih
    have hafter : after renderer metrics alternateBackground ignoreHighlights world (es ++ [e])
        = step renderer (after renderer metrics alternateBackground ignoreHighlights world es) e := by
      rw [after, List.foldl_append]
      rfl
    rw [hafter]
    obtain ⟨halternate', hignore'⟩ :=
      step_unchanged (after renderer metrics alternateBackground ignoreHighlights world es) e
    exact ⟨good_step hgood e, halternate'.trans halternate, hignore'.trans hignore⟩

end

/--
**The caches are not seen.** After any events, unless there was a change that no layout was forced for since,
`layout` and then `paint` show the picture of a layout from scratch: of the message and the settings as they are,
for the arguments of `layout`. It is made for the surface that is painted on, or for one that was painted on before,
if since then the buffer was not thrown away, by itself or by a layout in another width.
-/
theorem paint_layout (metrics : LayoutMetrics) (alternateBackground ignoreHighlights : Bool) (world : World ω ε)
    (es : List (Event ω ε σ ρ)) (hpending : ¬ Event.Pending es) (width : Int) (scale : σ)
    (flags : MessageElementFlags) (devicePixelRatio : ρ) (viewWidth : Int) (selectionIsEmpty : Bool) :
    let v := after renderer metrics alternateBackground ignoreHighlights world es
    let s := (layout renderer v.world v.generation width scale flags v.layout).1
    ∃ ratio w, (paint renderer v.world devicePixelRatio viewWidth selectionIsEmpty s).2
        = plainPixmap renderer v.world alternateBackground ignoreHighlights ratio w
          (plainLayout renderer v.world v.layout.expanded v.layout.renderReplies width scale flags) ∧
      Event.PaintedOn ratio w width
        (es ++ [.layout width scale flags] ++ [.paint devicePixelRatio viewWidth selectionIsEmpty]) := by
  intro v s
  obtain ⟨hgood, halternate, hignore⟩ : Good renderer es v ∧
      v.layout.alternateBackground = alternateBackground ∧ v.layout.ignoreHighlights = ignoreHighlights :=
    good_after metrics alternateBackground ignoreHighlights world es
  obtain ⟨hwidth, hstate, -, hrequires, -⟩ : s.currentLayoutWidth = width ∧ s.layoutState = v.generation ∧
      s.currentWordFlags = flags ∧ s.requiresLayout = false ∧ s.scale = some scale := layout_settled ..
  obtain ⟨halternate', hignore'⟩ : s.alternateBackground = v.layout.alternateBackground ∧
      s.ignoreHighlights = v.layout.ignoreHighlights := step_unchanged v (.layout width scale flags)
  have hcontainer : s.container = plainLayout renderer v.world v.layout.expanded v.layout.renderReplies width
      scale flags := layout_container hgood hpending width scale flags
  have hpending' : ¬ Event.Pending (es ++ [.layout width scale flags]) := (pending_snoc rfl rfl).not.mpr hpending
  obtain ⟨p, hpaint, hpainted, -, -, hdrawn⟩ :=
    paint_buffer (good_layout hgood width scale flags) devicePixelRatio viewWidth selectionIsEmpty
  have hpixmap : (paint renderer v.world devicePixelRatio viewWidth selectionIsEmpty s).2 = p :=
    congrArg Prod.snd hpaint
  have hplain : p = plainPixmap renderer v.world s.alternateBackground s.ignoreHighlights p.devicePixelRatio
      p.width s.container := hdrawn hpending' hstate hrequires
  refine ⟨p.devicePixelRatio, p.width, ?_, ?_⟩
  · rw [hpixmap, ← halternate, ← hignore, ← halternate', ← hignore', ← hcontainer]
    exact hplain
  · have hsurface : Event.PaintedOn p.devicePixelRatio p.width s.currentLayoutWidth
        (es ++ [.layout width scale flags] ++ [.paint devicePixelRatio viewWidth selectionIsEmpty]) := hpainted
    rwa [hwidth] at hsurface

/-- A layout is the number of its elements, which are hidden when the message is disabled. -/
def countingRenderer : Renderer Unit Unit Unit Unit Int where
  metrics _ _ := ⟨0, 0, 0, 0, id, 0, 0, 0, 0⟩
  xFromIndex _ _ i := i
  isRepliedMessage _ := false
  addToContainer _ _ _ container := { container with charIndex := container.charIndex + 1 }
  isNull _ _ _ := false
  draw _ _ _ container := container.charIndex

def countingWorld (flags : MessageFlags) : World Unit Unit where
  hideModerated := true
  hideModerationActions := false
  hideSimilar := false
  settings := ⟨false, false, 0⟩
  flags := flags
  elements := [(), ()]
  other := ()

/-- A message that is disabled, after which a layout is forced. -/
theorem paint_layout_disabled :
    let es := [.layout 100 () 0, .paint () 100 true, .change (countingWorld [.disabled]),
      .forceLayout (countingWorld [.disabled])]
    let v := after countingRenderer (countingRenderer.metrics (countingWorld []) ()) false false (countingWorld []) es
    (paint countingRenderer v.world () 100 true
      (layout countingRenderer v.world v.generation 100 () 0 v.layout).1).2.picture = some 0 := by
  intro es v
  have hpending : ¬ Event.Pending ([.layout 100 () 0, .paint () 100 true, .change (countingWorld [.disabled])] ++
      [Event.forceLayout (countingWorld [.disabled])]) := not_pending_of_forces rfl
  obtain ⟨ratio, w, hpicture, -⟩ := paint_layout countingRenderer (countingRenderer.metrics (countingWorld []) ())
    false false (countingWorld []) es hpending 100 () 0 () 100 true
  rw [hpicture]
  rfl

/--
What changes without a layout is not seen: a message that was painted is painted as it was, by the next `layout`
and `paint` with the same arguments and no selection.
-/
theorem paint_change (world world' : World ω ε) (generation width : Int) (scale : σ) (flags : MessageElementFlags)
    (devicePixelRatio : ρ) (viewWidth : Int) (selectionIsEmpty : Bool) (s : MessageLayout σ ρ δ) :
    let painted := paint renderer world devicePixelRatio viewWidth selectionIsEmpty
      (layout renderer world generation width scale flags s).1
    (paint renderer world' devicePixelRatio viewWidth true
      (layout renderer world' generation width scale flags painted.1).1).2 = painted.2 := by
  intro painted
  obtain ⟨hwidth, hstate, hflags, hrequires, hscale⟩ :=
    @layout_settled _ _ _ _ _ renderer _ world generation width scale flags s
  have hspared : (layout renderer world' generation width scale flags painted.1).1 = painted.1 :=
    layout_of_settled hwidth hstate hflags hrequires hscale
  rw [hspared]
  rfl

end LayoutCache

end Dankerino
