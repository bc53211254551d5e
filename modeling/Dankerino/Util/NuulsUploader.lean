import Dankerino.Infra.Run
import Dankerino.Qt.QString

/-!
# The image uploader

`upload` and `uploadImageToNuuls` of `util/NuulsUploader.cpp`. The queue and the mutex are shared by
all calls of `upload`. A call gets a number, and an image remembers the call that it came with. What
was queued, what the server was asked to store and which calls reported a failure is recorded. The
links in a response are what the settings make of it.
-/

namespace Dankerino

open Infra

namespace NuulsUploader

abbrev QByteArray := List UInt8

/-- An image, with what `save` makes of it as PNG. -/
structure QImage where
  png : Option QByteArray

def convertToPng (image : QImage) : Option QByteArray := image.png

structure RawImageData where
  data : QByteArray
  format : QString
  filePath : QString
deriving DecidableEq

/-- An entry of `urls()`, with the file that it leads to. -/
structure LocalFile where
  localPath : QString
  mimeName : QString
  /-- `mime.inherits("image/gif")`. -/
  isGif : Bool
  /-- What `QImage` loads. `none` is the null image. -/
  image : Option QImage
  /-- The bytes, if the file can be opened. -/
  contents : Option QByteArray

/-- The clipboard. -/
structure QMimeData where
  /-- The list, if `hasUrls()`. -/
  urls : Option (List LocalFile) := none
  png : Option QByteArray := none
  jpeg : Option QByteArray := none
  gif : Option QByteArray := none
  imageData : QImage := ⟨none⟩

/-- A call of `upload`, with its arguments. -/
structure Call where
  number : Nat
  channel : Nat
  textEdit : Nat
deriving DecidableEq

/-- An image with the call that it came with. -/
structure Image where
  data : RawImageData
  call : Call
deriving DecidableEq

/-- A request, with the channel and the text edit of the call for which it was made. -/
structure Request where
  image : Image
  call : Call
deriving DecidableEq

end NuulsUploader

open NuulsUploader

structure NuulsUploader where
  uploadMutex : Bool := false
  uploadQueue : List Image := []
  /-- The requests that are not finished. -/
  requests : List Request := []
  /-- The delay timers, for the calls whose next image they upload. -/
  timers : List Call := []
  /-- The messages to the channels. -/
  messages : List (Nat × QString) := []
  /-- What was inserted into the text edits. -/
  inserted : List (Nat × QString) := []
  nextCall : Nat := 0
  /-- All images that the calls came with. -/
  images : List Image := []
  /-- All requests. -/
  started : List Request := []
  /-- The calls that reported a failure, with the number of requests up to then. -/
  failures : List (Nat × Nat) := []
  /-- The first element of the queue was asked for when there was none. -/
  frontOfEmpty : Bool := false

namespace NuulsUploader

/-- `UPLOAD_DELAY`. -/
def uploadDelay : Nat := 2000

/-! ## Files -/

def LocalFile.isImage (path : LocalFile) : Bool :=
  QString.startsWith path.mimeName "image".toList && !path.isGif

/-- What is said before a file is loaded. -/
def LocalFile.announcement (path : LocalFile) : Option QString :=
  if path.isImage then some (QString.arg "Uploading image: %1".toList path.localPath)
  else if path.isGif then some (QString.arg "Uploading GIF: %1".toList path.localPath)
  else none

/-- The image of a file, or what is reported. -/
def LocalFile.load (path : LocalFile) : Except QString RawImageData :=
  if path.isImage then
    match path.image with
    | none => .error "Couldn't load image :(".toList
    | some img =>
      match convertToPng img with
      | some imageData => .ok ⟨imageData, "png".toList, path.localPath⟩
      | none =>
        .error (QString.arg "Cannot upload file: %1. Couldn't convert image to png.".toList path.localPath)
  else if path.isGif then
    match path.contents with
    | none => .error "Failed to open file. :(".toList
    | some data => .ok ⟨data, "gif".toList, path.localPath⟩
  else .error (QString.arg "Cannot upload file: %1. Not an image.".toList path.localPath)

/-! ## uploadImageToNuuls -/

def addMessage (call : Call) (text : QString) (s : NuulsUploader) : NuulsUploader :=
  { s with messages := s.messages ++ [(call.channel, text)] }

/-- A call reports a failure. -/
def report (call : Call) (text : QString) (s : NuulsUploader) : NuulsUploader :=
  { s.addMessage call text with failures := s.failures ++ [(call.number, s.started.length)] }

def uploadImageToNuuls (image : Image) (call : Call) (s : NuulsUploader) : NuulsUploader :=
  { s with
    requests := s.requests ++ [⟨image, call⟩]
    started := s.started ++ [⟨image, call⟩] }

/-- `uploadImageToNuuls(uploadQueue.front(), …)` and `uploadQueue.pop()`. -/
def uploadFront (call : Call) (s : NuulsUploader) : NuulsUploader :=
  match s.uploadQueue with
  | [] => { s with frontOfEmpty := true }
  | image :: uploadQueue => { s.uploadImageToNuuls image call with uploadQueue }

/-- What is said of a deletion link. -/
def deletionText (deletionLink : QString) : QString :=
  if deletionLink = [] then [] else QString.arg "(Deletion link: %1 )".toList deletionLink

def onSuccess (call : Call) (link deletionLink : QString) (s : NuulsUploader) : NuulsUploader :=
  let s := { s with inserted := s.inserted ++ [(call.textEdit, link ++ [' '])] }
  if s.uploadQueue = [] then
    let text :=
      QString.arg (QString.arg "Your image has been uploaded to %1 %2.".toList link)
        (deletionText deletionLink)
    { s.addMessage call text with uploadMutex := false }
  else
    let text :=
      QString.arg (QString.arg (QString.arg (QString.arg
        ("Your image has been uploaded to %1 %2. %3 left. " ++
          "Please wait until all of them are uploaded. About %4 seconds left.").toList link)
        (deletionText deletionLink)) (QString.number s.uploadQueue.length))
        (QString.number (s.uploadQueue.length * (uploadDelay / 1000 + 1) : Nat))
    { s.addMessage call text with timers := s.timers ++ [call] }

def onError (call : Call) (status : Int) (s : NuulsUploader) : NuulsUploader :=
  { s.report call (QString.arg "An error happened while uploading your image: %1".toList
      (QString.number status)) with uploadMutex := false }

/-! ## upload -/

def announce (call : Call) (path : LocalFile) (s : NuulsUploader) : NuulsUploader :=
  match path.announcement with
  | some text => s.addMessage call text
  | none => s

/-- The loop over the files. Whether it comes to its end is returned, too. -/
def queueUrls (call : Call) : List LocalFile → NuulsUploader → NuulsUploader × Bool
  | [], s => (s, true)
  | path :: urls, s =>
    let s := s.announce call path
    match path.load with
    | .ok data =>
      queueUrls call urls
        { s with uploadQueue := s.uploadQueue ++ [⟨data, call⟩], images := s.images ++ [⟨data, call⟩] }
    | .error text => ({ s.report call text with uploadMutex := false }, false)

/-- An image that is not queued. -/
def uploadRaw (call : Call) (data : RawImageData) (s : NuulsUploader) : NuulsUploader :=
  uploadImageToNuuls ⟨data, call⟩ call { s with images := s.images ++ [⟨data, call⟩] }

/-- `upload` when the mutex is locked by it. -/
def uploadLocked (source : QMimeData) (call : Call) (s : NuulsUploader) : NuulsUploader :=
  match source.urls with
  | some urls =>
    match queueUrls call urls s with
    | (s, false) => s
    | (s, true) => if s.uploadQueue ≠ [] then s.uploadFront call else s
  | none =>
    match source.png, source.jpeg, source.gif, convertToPng source.imageData with
    | some data, _, _, _ => s.uploadRaw call ⟨data, "png".toList, []⟩
    | none, some data, _, _ => s.uploadRaw call ⟨data, "jpeg".toList, []⟩
    | none, none, some data, _ => s.uploadRaw call ⟨data, "gif".toList, []⟩
    | none, none, none, some data => s.uploadRaw call ⟨data, "png".toList, []⟩
    | none, none, none, none =>
      { s.report call "Cannot upload file, failed to convert to png.".toList with uploadMutex := false }

def upload (source : QMimeData) (channel textEdit : Nat) (s : NuulsUploader) : NuulsUploader :=
  let call : Call := ⟨s.nextCall, channel, textEdit⟩
  let s := { s with nextCall := s.nextCall + 1 }
  if s.uploadMutex then s.report call "Please wait until the upload finishes.".toList
  else
    let s := { s with uploadMutex := true }
    uploadLocked source call (s.addMessage call "Started upload...".toList)

/-! ## Runs -/

inductive Event where
  | upload (source : QMimeData) (channel textEdit : Nat)
  | succeeded (i : Nat) (link deletionLink : QString)
  | failed (i : Nat) (status : Int)
  | timeout (i : Nat)

inductive Step : NuulsUploader → Event → NuulsUploader → Prop
  | upload (s : NuulsUploader) (source : QMimeData) (channel textEdit : Nat) :
    Step s (.upload source channel textEdit) (s.upload source channel textEdit)
  | succeeded (s : NuulsUploader) {i : Nat} {request : Request} (link deletionLink : QString)
    (hrequest : s.requests[i]? = some request) :
    Step s (.succeeded i link deletionLink)
      ({ s with requests := s.requests.eraseIdx i }.onSuccess request.call link deletionLink)
  | failed (s : NuulsUploader) {i : Nat} {request : Request} (status : Int)
    (hrequest : s.requests[i]? = some request) :
    Step s (.failed i status)
      ({ s with requests := s.requests.eraseIdx i }.onError request.call status)
  | timeout (s : NuulsUploader) {i : Nat} {call : Call} (hcall : s.timers[i]? = some call) :
    Step s (.timeout i) ({ s with timers := s.timers.eraseIdx i }.uploadFront call)

end NuulsUploader

end Dankerino
