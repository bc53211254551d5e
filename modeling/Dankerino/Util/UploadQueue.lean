import Dankerino.Util.NuulsUploader

/-!
# The queue of uploads

* `Orderly` is what the uploader should be like: each call's images are uploaded in order and for the
  call, nothing of a call that has reported a failure is uploaded any more, and the mutex is locked
  exactly while something is under way.
* `Regular` is the condition of a step: the mutex is given back only with an empty queue, and a list of
  files is not empty.
* `orderly_of_regular`: runs of regular steps stay orderly, and a step that is not regular leads out.
-/

namespace Dankerino

open Infra

namespace NuulsUploader

/-- The images of a call. -/
def ofCall (n : Nat) (l : List Image) : List Image := l.filter (·.call.number = n)

/-- What was uploaded, in this order. -/
def uploads (s : NuulsUploader) : List Image := s.started.map Request.image

def failedCalls (s : NuulsUploader) : List Nat := s.failures.map Prod.fst

structure Orderly (s : NuulsUploader) : Prop where
  /-- An image is uploaded for the channel and the text edit of its call. -/
  own : ∀ u ∈ s.started, u.call = u.image.call
  /-- The uploads of a call are its first images, in order and once each. -/
  inOrder : ∀ n, ofCall n s.uploads <+: ofCall n s.images
  /-- What is left of a call that has not failed is waiting. -/
  complete : ∀ n, n ∉ s.failedCalls → ofCall n s.uploads ++ ofCall n s.uploadQueue = ofCall n s.images
  /-- When the mutex is free, nothing is left. -/
  finished : s.uploadMutex = false → ∀ n, n ∉ s.failedCalls → ofCall n s.uploads = ofCall n s.images
  /-- After a failure nothing of the call is uploaded. -/
  stopped : ∀ f ∈ s.failures, ∀ u ∈ s.started.drop f.2, u.image.call.number ≠ f.1
  front : s.frontOfEmpty = false
  mutex : s.uploadMutex ↔ s.requests ≠ [] ∨ s.timers ≠ []

def LocalFile.Loads (path : LocalFile) : Prop := ∃ data, path.load = .ok data

/-- The steps that leave no image behind when they give the mutex back, and that give it back. -/
def Regular (s : NuulsUploader) : Event → Prop
  | .upload source _ _ =>
    s.uploadMutex = false → ∀ urls, source.urls = some urls →
      urls ≠ [] ∧ ((∀ path ∈ urls, path.Loads) ∨ ∀ path, urls.head? = some path → ¬ path.Loads)
  | .failed _ _ => s.uploadQueue = []
  | _ => True

/-! ## The history -/

/-- The recorded history with the queue. -/
structure History (started : List Request) (queue images : List Image) (failures : List (Nat × Nat))
    (nextCall : Nat) : Prop where
  own : ∀ u ∈ started, u.call = u.image.call
  inOrder : ∀ n, ofCall n (started.map Request.image) <+: ofCall n images
  complete : ∀ n, n ∉ failures.map Prod.fst →
    ofCall n (started.map Request.image) ++ ofCall n queue = ofCall n images
  stopped : ∀ f ∈ failures, ∀ u ∈ started.drop f.2, u.image.call.number ≠ f.1
  failures_lt : ∀ f ∈ failures, f.1 < nextCall

section History

variable {started : List Request} {queue images : List Image} {failures : List (Nat × Nat)}
  {nextCall : Nat}

theorem ofCall_append (n : Nat) (l l' : List Image) : ofCall n (l ++ l') = ofCall n l ++ ofCall n l' :=
  List.filter_append ..

theorem History.succ (h : History started queue images failures nextCall) :
    History started queue images failures (nextCall + 1) :=
  { h with failures_lt := fun f hf => Nat.lt_succ_of_lt (h.failures_lt f hf) }

/-- A call queues images. -/
theorem History.push (h : History started queue images failures nextCall) (new : List Image) :
    History started (queue ++ new) (images ++ new) failures nextCall where
  own := h.own
  inOrder n := by
    rw [ofCall_append]
    exact (h.inOrder n).trans (List.prefix_append _ _)
  complete n hn := by
    rw [ofCall_append, ofCall_append, ← List.append_assoc, h.complete n hn]
  stopped := h.stopped
  failures_lt := h.failures_lt

/-- The first image of the queue is uploaded. Its call must not have failed. -/
theorem History.start {image : Image} (h : History started (image :: queue) images failures nextCall)
    (hfailed : image.call.number ∉ failures.map Prod.fst) :
    History (started ++ [⟨image, image.call⟩]) queue images failures nextCall where
  own u hu := by
    rcases List.mem_append.mp hu with hu | hu
    · exact h.own u hu
    · obtain rfl := List.mem_singleton.mp hu
      rfl
  inOrder n := by
    rw [List.map_append, ofCall_append]
    by_cases hn : image.call.number = n
    · subst hn
      rw [← h.complete _ hfailed]
      refine ⟨ofCall image.call.number queue, ?_⟩
      simp [ofCall]
    · simpa [ofCall, hn] using h.inOrder n
  complete n hn := by
    rw [List.map_append, ofCall_append, List.append_assoc, ← h.complete n hn, ← ofCall_append]
    rfl
  stopped f hf u hu := by
    rw [List.drop_append] at hu
    rcases List.mem_append.mp hu with hu | hu
    · exact h.stopped f hf u hu
    · obtain rfl := List.mem_singleton.mp (List.mem_of_mem_drop hu)
      exact fun heq => hfailed (heq ▸ List.mem_map_of_mem hf)
  failures_lt := h.failures_lt

/-- A call reports a failure. Its images that wait do not count any more. -/
theorem History.fail (h : History started queue images failures nextCall) {n : Nat} (hn : n < nextCall) :
    History started queue images (failures ++ [(n, started.length)]) nextCall where
  own := h.own
  inOrder := h.inOrder
  complete k hk := h.complete k fun hmem => hk (by simp [hmem])
  stopped f hf u hu := by
    rcases List.mem_append.mp hf with hf | hf
    · exact h.stopped f hf u hu
    · obtain rfl := List.mem_singleton.mp hf
      simp at hu
  failures_lt f hf := by
    rcases List.mem_append.mp hf with hf | hf
    · exact h.failures_lt f hf
    · obtain rfl := List.mem_singleton.mp hf
      exact hn

end History

/-! ## The phases of an upload -/

def Recorded (s : NuulsUploader) : Prop :=
  History s.started s.uploadQueue s.images s.failures s.nextCall ∧ s.frontOfEmpty = false

/-- The call whose images are in the queue. -/
structure Current (s : NuulsUploader) (call : Call) : Prop where
  own : ∀ image ∈ s.uploadQueue, image.call = call
  open_ : call.number ∉ s.failedCalls
  lt : call.number < s.nextCall

/-- What is under way. -/
inductive Phase (s : NuulsUploader) : Prop
  | idle : s.uploadMutex = false → s.requests = [] → s.timers = [] → s.uploadQueue = [] → Phase s
  | sending (request : Request) : s.uploadMutex = true → s.requests = [request] → s.timers = [] →
    Current s request.call → Phase s
  | waiting (call : Call) : s.uploadMutex = true → s.requests = [] → s.timers = [call] →
    s.uploadQueue ≠ [] → Current s call → Phase s

structure Consistent (s : NuulsUploader) : Prop where
  recorded : Recorded s
  phase : Phase s

theorem consistent_new : Consistent {} := by
  refine ⟨⟨⟨?_, ?_, ?_, ?_, ?_⟩, rfl⟩, .idle rfl rfl rfl rfl⟩ <;> simp [ofCall]

theorem Consistent.orderly {s : NuulsUploader} (h : Consistent s) : Orderly s where
  own := h.recorded.1.own
  inOrder := h.recorded.1.inOrder
  complete := h.recorded.1.complete
  finished := by
    intro hmutex n hn
    cases h.phase with
    | idle _ _ _ hqueue =>
      have hcomplete := h.recorded.1.complete n hn
      rw [hqueue] at hcomplete
      simpa [ofCall, uploads] using hcomplete
    | sending _ hlocked => simp [hmutex] at hlocked
    | waiting _ hlocked => simp [hmutex] at hlocked
  stopped := h.recorded.1.stopped
  front := h.recorded.2
  mutex := by
    cases h.phase with
    | idle hmutex hrequests htimers => simp [hmutex, hrequests, htimers]
    | sending request hmutex hrequests => simp [hmutex, hrequests]
    | waiting call hmutex _ htimers => simp [hmutex, htimers]

/-- The next image of the queue is sent. -/
theorem consistent_uploadFront {s : NuulsUploader} {call : Call} (hrecorded : Recorded s)
    (hmutex : s.uploadMutex = true) (hrequests : s.requests = []) (htimers : s.timers = [])
    (hqueue : s.uploadQueue ≠ []) (hcurrent : Current s call) : Consistent (s.uploadFront call) := by
  obtain ⟨hhistory, hfront⟩ := hrecorded
  obtain ⟨hown, hopen, hlt⟩ := hcurrent
  unfold uploadFront
  split
  · next hnil => exact absurd hnil hqueue
  · next image queue hcons =>
    rw [hcons] at hhistory hown
    have hcall : image.call = call := hown image List.mem_cons_self
    subst hcall
    refine ⟨⟨hhistory.start hopen, hfront⟩, .sending ⟨image, image.call⟩ hmutex ?_ htimers ?_⟩
    · simp [uploadImageToNuuls, hrequests]
    · exact ⟨fun other hother => hown other (List.mem_cons_of_mem _ hother), hopen, hlt⟩

/-! ## The loop over the files -/

theorem announce_eq (call : Call) (path : LocalFile) (s : NuulsUploader) :
    ∃ messages, s.announce call path = { s with messages } := by
  unfold announce
  cases path.announcement with
  | some text => exact ⟨_, rfl⟩
  | none => exact ⟨_, rfl⟩

theorem queueUrls_of_loads (call : Call) {urls : List LocalFile} (hloads : ∀ path ∈ urls, path.Loads)
    (s : NuulsUploader) :
    ∃ messages new, (∀ image ∈ new, image.call = call) ∧ new.length = urls.length ∧
      queueUrls call urls s
        = ({ s with messages, uploadQueue := s.uploadQueue ++ new, images := s.images ++ new }, true) := by
  induction urls generalizing s with
  | nil => exact ⟨s.messages, [], by simp, rfl, by simp [queueUrls]⟩
  | cons path urls ih =>
    obtain ⟨data, hload⟩ := hloads path List.mem_cons_self
    obtain ⟨messages, hannounced⟩ := announce_eq call path s
    unfold queueUrls
    simp only [hannounced, hload]
    obtain ⟨messages', new, hcall, hlength, heq⟩ :=
      ih (fun other hother => hloads other (List.mem_cons_of_mem _ hother))
        { s with messages, uploadQueue := s.uploadQueue ++ [⟨data, call⟩],
                 images := s.images ++ [⟨data, call⟩] }
    refine ⟨messages', ⟨data, call⟩ :: new, ?_, by simp [hlength], ?_⟩
    · simpa using hcall
    · simpa using heq

/-- The images in front of a file that does not load stay in the queue. -/
theorem queueUrls_of_not (call : Call) {urls : List LocalFile} (hnot : ¬ ∀ path ∈ urls, path.Loads)
    (s : NuulsUploader) :
    ∃ messages new, (∀ image ∈ new, image.call = call) ∧
      (new = [] ↔ ∀ path, urls.head? = some path → ¬ path.Loads) ∧
      queueUrls call urls s
        = ({ s with messages, uploadQueue := s.uploadQueue ++ new, images := s.images ++ new,
                    failures := s.failures ++ [(call.number, s.started.length)],
                    uploadMutex := false }, false) := by
  induction urls generalizing s with
  | nil => exact absurd (fun _ h => nomatch h) hnot
  | cons path urls ih =>
    obtain ⟨messages, hannounced⟩ := announce_eq call path s
    unfold queueUrls
    simp only [hannounced]
    cases hload : path.load with
    | error text =>
      refine ⟨messages ++ [(call.channel, text)], [], by simp, by simp [LocalFile.Loads, hload], ?_⟩
      simp [report, addMessage]
    | ok data =>
      have hrest : ¬ ∀ path ∈ urls, path.Loads := fun hall =>
        hnot (List.forall_mem_cons.mpr ⟨⟨data, hload⟩, hall⟩)
      obtain ⟨messages', new, hcall, -, heq⟩ :=
        ih hrest { s with messages, uploadQueue := s.uploadQueue ++ [⟨data, call⟩],
                          images := s.images ++ [⟨data, call⟩] }
      refine ⟨messages', ⟨data, call⟩ :: new, ?_, by simp [LocalFile.Loads, hload], ?_⟩
      · simpa using hcall
      · simpa using heq

/-! ## The steps -/

/-- What a call that has the mutex starts from. -/
structure Entered (s : NuulsUploader) (call : Call) : Prop where
  recorded : Recorded s
  mutex : s.uploadMutex = true
  requests : s.requests = []
  timers : s.timers = []
  queue : s.uploadQueue = []
  open_ : call.number ∉ s.failedCalls
  lt : call.number < s.nextCall

theorem consistent_uploadRaw {s : NuulsUploader} {call : Call} (h : Entered s call) (data : RawImageData) :
    Consistent (s.uploadRaw call data) := by
  have hstart : History (s.started ++ [⟨⟨data, call⟩, call⟩]) s.uploadQueue (s.images ++ [⟨data, call⟩])
      s.failures s.nextCall := by
    have hpush := h.recorded.1.push [⟨data, call⟩]
    rw [h.queue] at hpush ⊢
    exact hpush.start h.open_
  refine ⟨⟨hstart, h.recorded.2⟩, .sending ⟨⟨data, call⟩, call⟩ h.mutex ?_ h.timers ?_⟩
  · simp [uploadRaw, uploadImageToNuuls, h.requests]
  · refine ⟨?_, h.open_, h.lt⟩
    simp [uploadRaw, uploadImageToNuuls, h.queue]

/-- A call gives the mutex back with the queue as it was. -/
theorem consistent_report {s : NuulsUploader} {call : Call} (h : Entered s call) (text : QString) :
    Consistent { s.report call text with uploadMutex := false } :=
  ⟨⟨h.recorded.1.fail h.lt, h.recorded.2⟩, .idle rfl h.requests h.timers h.queue⟩

theorem consistent_uploadLocked {s : NuulsUploader} {call : Call} (h : Entered s call)
    {source : QMimeData} (hurls : ∀ urls, source.urls = some urls →
      urls ≠ [] ∧ ((∀ path ∈ urls, path.Loads) ∨ ∀ path, urls.head? = some path → ¬ path.Loads)) :
    Consistent (s.uploadLocked source call) := by
  unfold uploadLocked
  cases hsource : source.urls with
  | some urls =>
    obtain ⟨hne, hfiles⟩ := hurls urls hsource
    by_cases hall : ∀ path ∈ urls, path.Loads
    · obtain ⟨messages, new, hcall, hlength, heq⟩ := queueUrls_of_loads call hall s
      have hnew : s.uploadQueue ++ new ≠ [] := by
        rw [h.queue, List.nil_append]
        exact fun hnil => hne (List.length_eq_zero_iff.mp (by rw [← hlength, hnil]; rfl))
      simp only [heq]
      rw [if_pos hnew]
      apply consistent_uploadFront
      · exact ⟨h.recorded.1.push new, h.recorded.2⟩
      · exact h.mutex
      · exact h.requests
      · exact h.timers
      · exact hnew
      · refine ⟨?_, h.open_, h.lt⟩
        simpa [h.queue] using hcall
    · obtain ⟨messages, new, hcall, hempty, heq⟩ := queueUrls_of_not call hall s
      -- the first file does not load, so nothing is queued
      obtain rfl := hempty.mpr (hfiles.resolve_left hall)
      simp only [heq, List.append_nil]
      exact ⟨⟨h.recorded.1.fail h.lt, h.recorded.2⟩, .idle rfl h.requests h.timers h.queue⟩
  | none =>
    dsimp only
    split
    · exact consistent_uploadRaw h _
    · exact consistent_uploadRaw h _
    · exact consistent_uploadRaw h _
    · exact consistent_uploadRaw h _
    · exact consistent_report h _

/-- The mutex is free, and the call has the next number. -/
theorem entered_upload {s : NuulsUploader} (hs : Consistent s) (hmutex : s.uploadMutex = false)
    (channel textEdit : Nat) :
    Entered (addMessage ⟨s.nextCall, channel, textEdit⟩ "Started upload...".toList
      { s with nextCall := s.nextCall + 1, uploadMutex := true }) ⟨s.nextCall, channel, textEdit⟩ := by
  obtain ⟨⟨hhistory, hfront⟩, hphase⟩ := hs
  cases hphase with
  | idle _ hrequests htimers hqueue =>
    refine ⟨⟨hhistory.succ, hfront⟩, rfl, hrequests, htimers, hqueue, ?_, Nat.lt_succ_self _⟩
    intro hmem
    obtain ⟨f, hf, heq⟩ := List.mem_map.mp hmem
    exact absurd heq (Nat.ne_of_lt (hhistory.failures_lt f hf))
  | sending _ hlocked => simp [hmutex] at hlocked
  | waiting _ hlocked => simp [hmutex] at hlocked

theorem consistent_upload {s : NuulsUploader} (hs : Consistent s) {source : QMimeData}
    {channel textEdit : Nat} (hregular : Regular s (.upload source channel textEdit)) :
    Consistent (s.upload source channel textEdit) := by
  unfold upload
  cases hmutex : s.uploadMutex with
  | true =>
    obtain ⟨⟨hhistory, hfront⟩, hphase⟩ := hs
    have hfail := hhistory.succ.fail (Nat.lt_succ_self _)
    have hcurrent {call : Call} (hcall : Current s call) :
        call.number ∉ (s.failures ++ [(s.nextCall, s.started.length)]).map Prod.fst := by
      intro hmem
      rcases List.mem_append.mp (List.map_append ▸ hmem) with hmem | hmem
      · exact hcall.open_ hmem
      · exact Nat.ne_of_lt hcall.lt (List.mem_singleton.mp hmem)
    refine ⟨⟨hfail, hfront⟩, ?_⟩
    cases hphase with
    | idle hfree => simp [hmutex] at hfree
    | sending request _ hrequests htimers hcall =>
      exact .sending request rfl hrequests htimers
        ⟨hcall.own, hcurrent hcall, Nat.lt_succ_of_lt hcall.lt⟩
    | waiting call _ hrequests htimers hqueue hcall =>
      exact .waiting call rfl hrequests htimers hqueue
        ⟨hcall.own, hcurrent hcall, Nat.lt_succ_of_lt hcall.lt⟩
  | false =>
    exact consistent_uploadLocked (entered_upload hs hmutex channel textEdit) (hregular hmutex)

/-- A request that is under way is the only one. -/
theorem Phase.of_request {s : NuulsUploader} (h : Phase s) {i : Nat} {request : Request}
    (hrequest : s.requests[i]? = some request) :
    s.uploadMutex = true ∧ s.requests.eraseIdx i = [] ∧ s.timers = [] ∧ Current s request.call := by
  cases h with
  | idle _ hrequests => simp [hrequests] at hrequest
  | sending other hmutex hrequests htimers hcurrent =>
    rw [hrequests] at hrequest ⊢
    obtain ⟨rfl, rfl⟩ : i = 0 ∧ other = request := by
      simpa [List.getElem?_singleton] using hrequest
    exact ⟨hmutex, rfl, htimers, hcurrent⟩
  | waiting _ _ hrequests => simp [hrequests] at hrequest

theorem consistent_of_step {s s' : NuulsUploader} {e : Event} (hs : Consistent s) (hstep : Step s e s')
    (hregular : Regular s e) : Consistent s' := by
  cases hstep with
  | upload source channel textEdit => exact consistent_upload hs hregular
  | succeeded link deletionLink hrequest =>
    obtain ⟨hmutex, herase, htimers, hcurrent⟩ := hs.phase.of_request hrequest
    unfold onSuccess
    dsimp only
    by_cases hqueue : s.uploadQueue = []
    · rw [if_pos hqueue]
      exact ⟨hs.recorded, .idle rfl herase htimers hqueue⟩
    · rw [if_neg hqueue]
      refine ⟨hs.recorded, .waiting _ hmutex herase ?_ hqueue ⟨hcurrent.own, hcurrent.open_, hcurrent.lt⟩⟩
      simp [htimers]
  | failed status hrequest =>
    obtain ⟨hmutex, herase, htimers, hcurrent⟩ := hs.phase.of_request hrequest
    exact ⟨⟨hs.recorded.1.fail hcurrent.lt, hs.recorded.2⟩, .idle rfl herase htimers hregular⟩
  | @timeout i call hcall =>
    cases hs.phase with
    | idle _ _ htimers => simp [htimers] at hcall
    | sending _ _ _ htimers => simp [htimers] at hcall
    | waiting other hmutex hrequests htimers hqueue hcurrent =>
      rw [htimers] at hcall ⊢
      obtain ⟨rfl, rfl⟩ : i = 0 ∧ other = call := by
        simpa [List.getElem?_singleton] using hcall
      exact consistent_uploadFront hs.recorded hmutex hrequests rfl hqueue
        ⟨hcurrent.own, hcurrent.open_, hcurrent.lt⟩

/-! ## What the other steps lead to -/

/-- The next call uploads what a failed one has left behind. -/
theorem not_orderly_of_left {s : NuulsUploader} {image : Image} {k : Nat} {queue : List Image}
    (hmutex : s.uploadMutex = false) (hqueue : s.uploadQueue = image :: queue)
    (hfailure : (image.call.number, k) ∈ s.failures) (hk : k ≤ s.started.length) :
    ¬ Orderly (s.upload { urls := some [] } 0 0) := by
  have hstarted : (s.upload { urls := some [] } 0 0).started
      = s.started ++ [⟨image, ⟨s.nextCall, 0, 0⟩⟩] := by
    simp [upload, uploadLocked, queueUrls, uploadFront, uploadImageToNuuls, addMessage, hmutex, hqueue]
  have hfailures : (s.upload { urls := some [] } 0 0).failures = s.failures := by
    simp [upload, uploadLocked, queueUrls, uploadFront, uploadImageToNuuls, addMessage, hmutex, hqueue]
  intro h
  refine h.stopped (image.call.number, k) (hfailures ▸ hfailure) ⟨image, ⟨s.nextCall, 0, 0⟩⟩ ?_ rfl
  rw [hstarted, List.drop_append_of_le_length hk]
  exact List.mem_append_right _ (List.mem_singleton_self _)

theorem not_orderly_of_not_regular {s s' : NuulsUploader} {e : Event} (hs : Consistent s)
    (hstep : Step s e s') (hregular : ¬ Regular s e) :
    ∃ events s'', Run Step s' events s'' ∧ ¬ Orderly s'' := by
  cases hstep with
  | upload source channel textEdit =>
    simp only [Regular, not_forall] at hregular
    obtain ⟨hmutex, urls, hurls, hnot⟩ := hregular
    have h := entered_upload hs hmutex channel textEdit
    have heq : s.upload source channel textEdit
        = uploadLocked source ⟨s.nextCall, channel, textEdit⟩
            (addMessage ⟨s.nextCall, channel, textEdit⟩ "Started upload...".toList
              { s with nextCall := s.nextCall + 1, uploadMutex := true }) := by
      simp [upload, hmutex]
    rw [heq]
    generalize addMessage _ _ _ = entered at h
    by_cases hnil : urls = []
    · -- nothing is under way, and the mutex stays locked
      subst hnil
      refine ⟨[], _, .nil _, fun horderly => ?_⟩
      have hmutex := horderly.mutex
      simp [uploadLocked, hurls, queueUrls, h.queue, h.mutex, h.requests, h.timers] at hmutex
    · simp only [hnil, ne_eq, not_false_eq_true, true_and, not_or] at hnot
      obtain ⟨messages, new, hcall, hempty, hqueued⟩ :=
        queueUrls_of_not ⟨s.nextCall, channel, textEdit⟩ hnot.1 entered
      refine ⟨[.upload { urls := some [] } 0 0], _, .single (.upload _ _ 0 0), ?_⟩
      cases new with
      | nil => exact absurd (hempty.mp rfl) hnot.2
      | cons image rest =>
        have hcall := hcall image List.mem_cons_self
        simp only [uploadLocked, hurls, hqueued, h.queue, List.nil_append]
        apply not_orderly_of_left (k := entered.started.length) rfl rfl
        · simp [hcall]
        · exact Nat.le_refl _
  | @failed i request status hrequest =>
    obtain ⟨hmutex, herase, htimers, hcurrent⟩ := hs.phase.of_request hrequest
    refine ⟨[.upload { urls := some [] } 0 0], _, .single (.upload _ _ 0 0), ?_⟩
    obtain ⟨image, rest, hqueue⟩ := List.exists_cons_of_ne_nil hregular
    have hcall := hcurrent.own image (by rw [hqueue]; exact List.mem_cons_self)
    apply @not_orderly_of_left _ image s.started.length rest
    · rfl
    · exact hqueue
    · simp [onError, report, addMessage, hcall]
    · exact Nat.le_refl _
  | succeeded => exact absurd trivial hregular
  | timeout => exact absurd trivial hregular

/--
**The upload queue.** A run is orderly while every step is regular: a list of files is not empty, only
its first file may be one that does not load, and an upload fails only when nothing is queued behind
it. A step from there that is not regular leads to a state that is not orderly, at once or in a step
more.
-/
theorem orderly_of_regular {events : List Event} {s : NuulsUploader}
    (hrun : Run (fun s e s' => Step s e s' ∧ Regular s e) {} events s) :
    Orderly s ∧ ∀ e s', Step s e s' → ¬ Regular s e →
      ∃ events' s'', Run Step s' events' s'' ∧ ¬ Orderly s'' := by
  have hs : Consistent s := by
    refine Run.invariant (fun _ _ _ hs hstep => ?_) consistent_new hrun
    exact consistent_of_step hs hstep.1 hstep.2
  exact ⟨hs.orderly, fun e s' hstep hregular => not_orderly_of_not_regular hs hstep hregular⟩

/-- A call with two files, both of which are uploaded. -/
theorem orderly_of_regular_two :
    let file : LocalFile := ⟨"a.png".toList, "image/png".toList, false, some ⟨some [1]⟩, none⟩
    let gif : LocalFile := ⟨"b.gif".toList, "image/gif".toList, true, none, some [2]⟩
    ∃ s, Run (fun s e s' => Step s e s' ∧ Regular s e) {}
        [.upload { urls := some [file, gif] } 7 8, .succeeded 0 "u/1".toList [], .timeout 0,
          .succeeded 0 "u/2".toList []] s ∧
      s.started.length = 2 ∧ s.uploadMutex = false ∧ Orderly s := by
  intro file gif
  have hrun : ∃ s, Run (fun s e s' => Step s e s' ∧ Regular s e) {}
        [.upload { urls := some [file, gif] } 7 8, .succeeded 0 "u/1".toList [], .timeout 0,
          .succeeded 0 "u/2".toList []] s ∧
      s.started.length = 2 ∧ s.uploadMutex = false := by
    refine ⟨_, .cons ⟨.upload _ _ 7 8, ?_⟩ (.cons ⟨.succeeded _ _ _ rfl, trivial⟩
      (.cons ⟨.timeout _ rfl, trivial⟩ (.single ⟨.succeeded _ _ _ rfl, trivial⟩))), rfl, rfl⟩
    rintro - urls ⟨⟩
    refine ⟨List.cons_ne_nil _ _, .inl ?_⟩
    simp only [List.forall_mem_cons]
    exact ⟨⟨_, rfl⟩, ⟨_, rfl⟩, by simp⟩
  obtain ⟨s, hrun, hstarted, hmutex⟩ := hrun
  exact ⟨s, hrun, hstarted, hmutex, (orderly_of_regular hrun).1⟩

/--
A call with an image and a text file fails, and the next call uploads the image. A call with no files
locks the mutex for good.
-/
theorem not_orderly :
    let file : LocalFile := ⟨"a.png".toList, "image/png".toList, false, some ⟨some [1]⟩, none⟩
    let text : LocalFile := ⟨"b.txt".toList, "text/plain".toList, false, none, some [2]⟩
    (∃ s, Run Step {} [.upload { urls := some [file, text] } 1 1, .upload { urls := some [file] } 2 2] s ∧
      ¬ Orderly s) ∧
    ∃ s, Run Step {} [.upload { urls := some [] } 1 1] s ∧ ¬ Orderly s := by
  intro file text
  refine ⟨⟨_, .cons (.upload _ _ _ _) (.single (.upload _ _ _ _)), fun h => ?_⟩,
    _, .single (.upload _ _ _ _), fun h => ?_⟩
  · exact h.stopped (0, 0) (by decide +kernel)
      ⟨⟨⟨[1], "png".toList, "a.png".toList⟩, ⟨0, 1, 1⟩⟩, ⟨1, 2, 2⟩⟩ (by decide +kernel) rfl
  · rcases h.mutex.mp rfl with hrequests | htimers
    · exact hrequests rfl
    · exact htimers rfl

end NuulsUploader

end Dankerino
