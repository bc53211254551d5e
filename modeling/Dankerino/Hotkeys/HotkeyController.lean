import Dankerino.Hotkeys.HotkeyRun
import Dankerino.Util.SettingManager
import Mathlib.Data.List.Sort

/-!
# The hotkey controller

`HotkeyController` of `controllers/hotkeys`, which keeps the hotkeys in the settings under
`/hotkeys`, with the names of the default hotkeys that were added once. Hotkeys are made by
`EditHotkeyDialog`.
-/

namespace Dankerino

open Infra HotkeyModel

/-! ## Key sequences -/

/--
`QKeySequence`. A key sequence is its text: `ofText` gives the text of the key sequence that the
constructor makes of a text.
-/
structure KeySequences where
  ofText : QString → QString
  zoomIn : QString
  zoomOut : QString
  /-- The first key has no modifier, and is none of those that need none. -/
  isSingleKey : QString → Bool

/-! ## Defaults -/

section Defaults

variable (keys : KeySequences)

/-- One call of `tryAddDefault`. -/
def defaultHotkey (category : HotkeyCategory) (keySequence : QString) (action : String)
    (arguments : List String) (name : String) : Hotkey where
  category := category
  keySequence := keySequence
  action := action.toList
  arguments := arguments.map String.toList
  name := name.toList

/-- The eight calls of a loop over the tabs. -/
def openTabDefaults (category : HotkeyCategory) (namePrefix : String) : List Hotkey :=
  (List.range 8).map fun i =>
    { category := category
      keySequence := keys.ofText ("Ctrl+".toList ++ QString.number (i + 1))
      action := "openTab".toList
      arguments := [QString.number i]
      name := namePrefix.toList ++ QString.number (i + 1) }

def popupWindowDefaults : List Hotkey :=
  let add (keySequence : String) := defaultHotkey .popupWindow (keys.ofText keySequence.toList)
  [add "Escape" "delete" [] "close popup window"] ++
    openTabDefaults keys .popupWindow "popup select tab #" ++
    [add "Ctrl+9" "openTab" ["last"] "popup select last tab",
      add "Ctrl+Tab" "openTab" ["next"] "popup select next tab",
      add "Ctrl+Shift+Tab" "openTab" ["previous"] "popup select previous tab",
      add "PgUp" "scrollPage" ["up"] "popup scroll up",
      add "PgDown" "scrollPage" ["down"] "popup scroll down",
      add "Return" "accept" [] "popup accept",
      add "Escape" "reject" [] "popup reject",
      add "Ctrl+F" "search" [] "popup focus search box"]

def splitDefaults : List Hotkey :=
  let add (keySequence : String) := defaultHotkey .split (keys.ofText keySequence.toList)
  [add "Ctrl+W" "delete" [] "delete",
    add "Ctrl+R" "changeChannel" [] "change channel",
    add "Ctrl+F" "showSearch" [] "show search",
    add "Ctrl+Shift+F" "showGlobalSearch" [] "show global search",
    add "Ctrl+F5" "reconnect" [] "reconnect",
    add "F5" "reloadEmotes" [] "reload emotes",
    add "Alt+x" "createClip" [] "create clip",
    add "Alt+left" "focus" ["left"] "focus left",
    add "Alt+down" "focus" ["down"] "focus down",
    add "Alt+up" "focus" ["up"] "focus up",
    add "Alt+right" "focus" ["right"] "focus right",
    add "PgUp" "scrollPage" ["up"] "scroll page up",
    add "PgDown" "scrollPage" ["down"] "scroll page down",
    add "Ctrl+End" "scrollToBottom" [] "scroll to bottom",
    add "Ctrl+Home" "scrollToTop" [] "scroll to top",
    add "F10" "debug" [] "open debug popup"]

def splitInputDefaults : List Hotkey :=
  let add (keySequence : String) := defaultHotkey .splitInput (keys.ofText keySequence.toList)
  [add "Ctrl+E" "openEmotesPopup" [] "emote picker",
    add "Return" "sendMessage" [] "send message",
    add "Ctrl+Return" "sendMessage" ["keepInput"] "send message and keep text",
    add "Shift+Return" "sendMessage" [] "send message",
    add "Ctrl+Shift+Return" "sendMessage" ["keepInput"] "send message and keep text",
    add "Home" "cursorToStart" ["withoutSelection"] "go to start of input",
    add "End" "cursorToEnd" ["withoutSelection"] "go to end of input",
    add "Shift+Home" "cursorToStart" ["withSelection"] "go to start of input with selection",
    add "Shift+End" "cursorToEnd" ["withSelection"] "go to end of input with selection",
    add "Up" "previousMessage" [] "previous message",
    add "Down" "nextMessage" [] "next message"]

def windowDefaults : List Hotkey :=
  let add (keySequence : String) := defaultHotkey .window (keys.ofText keySequence.toList)
  [add "Ctrl+P" "openSettings" [] "open settings",
    add "Ctrl+T" "newSplit" [] "new split"] ++
    openTabDefaults keys .window "select tab #" ++
    [add "Ctrl+9" "openTab" ["last"] "select last tab",
      add "Ctrl+Tab" "openTab" ["next"] "select next tab",
      add "Ctrl+Shift+Tab" "openTab" ["previous"] "select previous tab",
      add "Ctrl+N" "popup" ["split"] "new popup window",
      add "Ctrl+Shift+N" "popup" ["window"] "new popup window from tab",
      defaultHotkey .window keys.zoomIn "zoom" ["in"] "zoom in",
      defaultHotkey .window keys.zoomOut "zoom" ["out"] "zoom out",
      add "CTRL+0" "zoom" ["reset"] "zoom reset",
      add "Ctrl+Shift+T" "newTab" [] "new tab",
      add "Ctrl+Shift+W" "removeTab" [] "remove tab",
      add "Ctrl+G" "reopenSplit" [] "reopen split",
      add "Ctrl+H" "toggleLocalR9K" [] "toggle local r9k",
      add "Ctrl+K" "openQuickSwitcher" [] "open quick switcher",
      add "Ctrl+U" "setTabVisibility" ["toggle"] "toggle tab visibility"]

/-- The calls of `addDefaults`, in their order. -/
def defaults : List Hotkey :=
  popupWindowDefaults keys ++ splitDefaults keys ++ splitInputDefaults keys ++ windowDefaults keys

end Defaults

/-! ## The controller -/

structure HotkeyController (store : SettingStore) where
  hotkeys : SignalVector Hotkey
  /-- The document of the settings. -/
  settings : store.Document

/-- `hotkeyCategoryFromName`. -/
def hotkeyCategoryFromName (categoryName : QString) : Option HotkeyCategory :=
  [HotkeyCategory.popupWindow, .split, .splitInput, .window].find? fun category =>
    (hotkeyCategories category).name = categoryName

/-- `std::set::insert`. -/
def setInsert (s : List QString) (x : QString) : List QString :=
  if x ∈ s then s else s.orderedInsert (fun a b => QString.less a b = true) x

namespace HotkeyController

/-- `append`, where no index can be out of range. -/
def append (hotkeys : SignalVector Hotkey) (hotkey : Hotkey) : SignalVector Hotkey :=
  match hotkeys.insert hotkey none with
  | some r => r.1
  | none => hotkeys

section Settings

variable (store : SettingStore)

def addedDefaults (settings : store.Document) : List QString :=
  SettingManager.toStrings (store.get "/hotkeys/addedDefaults".toList settings)

def setAddedDefaults (names : List QString) (settings : store.Document) : store.Document :=
  store.set "/hotkeys/addedDefaults".toList (SettingManager.ofStrings names) settings

/-- One round of the loop of `saveHotkeys`. -/
def saveHotkey (settings : store.Document) (hotkey : Hotkey) : store.Document :=
  let path := "/hotkeys/".toList ++ hotkey.name
  let settings := store.set (path ++ "/action".toList) (SettingManager.writeString hotkey.action) settings
  let settings := store.set (path ++ "/keySequence".toList) (SettingManager.writeString hotkey.keySequence)
    settings
  let settings := store.set (path ++ "/category".toList)
    (SettingManager.writeString (hotkeyCategories hotkey.category).name) settings
  store.set (path ++ "/arguments".toList) (SettingManager.ofStrings hotkey.arguments) settings

end Settings

variable {store : SettingStore}

def saveHotkeys (c : HotkeyController store) : HotkeyController store :=
  let defaultHotkeysAdded := addedDefaults store c.settings
  let settings := store.set "/hotkeys".toList (.object []) c.settings
  let settings := setAddedDefaults store defaultHotkeysAdded settings
  { c with settings := c.hotkeys.items.foldl (saveHotkey store) settings }

variable (keys : KeySequences)

/-- `tryAddDefault`, for the vector and the set of names. -/
def tryAddDefault (r : SignalVector Hotkey × List QString) (hotkey : Hotkey) :
    SignalVector Hotkey × List QString :=
  if hotkey.name ∈ r.2 then r else (append r.1 hotkey, setInsert r.2 hotkey.name)

def addDefaults (hotkeys : SignalVector Hotkey) (addedHotkeys : List QString) :
    SignalVector Hotkey × List QString :=
  (defaults keys).foldl tryAddDefault (hotkeys, addedHotkeys)

variable (store) in
/-- The hotkey that is stored under a key, if one is. -/
def readHotkey (settings : store.Document) (key : QString) : Option Hotkey :=
  if key = "addedDefaults".toList then none
  else
    let path := "/hotkeys/".toList ++ key
    let categoryName := SettingManager.readString (store.get (path ++ "/category".toList) settings)
    let keySequence := SettingManager.readString (store.get (path ++ "/keySequence".toList) settings)
    let action := SettingManager.readString (store.get (path ++ "/action".toList) settings)
    let arguments := SettingManager.toStrings (store.get (path ++ "/arguments".toList) settings)
    if categoryName.isEmpty || keySequence.isEmpty || action.isEmpty then none
    else
      match hotkeyCategoryFromName categoryName with
      | none => none
      | some category =>
        some { category, keySequence := keys.ofText keySequence, action, arguments, name := key }

variable (store) in
/-- The loop of `loadHotkeys`. -/
def loadLoop (settings : store.Document) : List QString → SignalVector Hotkey → SignalVector Hotkey
  | [], hotkeys => hotkeys
  | key :: rest, hotkeys =>
    match readHotkey store keys settings key with
    | none => loadLoop settings rest hotkeys
    | some hotkey => loadLoop settings rest (append hotkeys hotkey)

def loadHotkeys (c : HotkeyController store) : HotkeyController store :=
  let set := (addedDefaults store c.settings).foldl setInsert []
  let objectKeys := store.getObjectKeys "/hotkeys".toList c.settings
  let r := addDefaults keys c.hotkeys set
  let settings := setAddedDefaults store r.2 c.settings
  let c : HotkeyController store := { hotkeys := loadLoop store keys settings objectKeys r.1, settings }
  if set.length ≠ r.2.length then c.saveHotkeys else c

variable (store) in
/-- The constructor, on the settings that were saved. -/
def new (settings : store.Document) : HotkeyController store :=
  loadHotkeys keys { hotkeys := newHotkeys, settings }

def replaceHotkey (hotkeys : SignalVector Hotkey) (oldName : QString) (newHotkey : Hotkey) :
    SignalVector Hotkey :=
  match hotkeys.items.findIdx? fun hotkey => hotkey.name = oldName with
  | none => append hotkeys newHotkey
  | some i =>
    match hotkeys.removeAt i with
    | some r => append r.1 newHotkey
    | none => hotkeys

def resetToDefaults (c : HotkeyController store) : HotkeyController store :=
  loadHotkeys keys (saveHotkeys
    { hotkeys := { c.hotkeys with items := [] }, settings := setAddedDefaults store [] c.settings })

end HotkeyController

/-! ## The dialog -/

/-- `parseHotkeyArguments`. -/
def parseHotkeyArguments (argumentString : QString) : List QString :=
  let argumentString := QString.trimmed argumentString
  if argumentString.isEmpty then [] else (argumentString.splitOn '\n').map QString.trimmed

/-- What was entered. The actions to pick from have names, and a key sequence is its text. -/
structure EditHotkeyDialog (keys : KeySequences) where
  /-- The hotkey that is edited. -/
  data : Option Hotkey
  arguments : QString
  categoryData : QString
  name : QString
  keySequence : QString
  actionText : QString
  actionData : Option QString
  shownSingleKeyWarning : Bool
  keySequence_eq : keys.ofText keySequence = keySequence
  actionData_ne : actionData ≠ some []

namespace EditHotkeyDialog

def isDuplicate (hotkeys : List Hotkey) (hotkey : Hotkey) (ignoreNamed : QString) : Bool :=
  hotkeys.any fun shared =>
    !(shared.name == ignoreNamed || shared.name == hotkey.name) &&
      decide (shared.category = hotkey.category) && shared.keySequence == hotkey.keySequence

/-- `afterEdit`: the new hotkey, or the error that is shown. -/
def afterEdit {keys : KeySequences} (d : EditHotkeyDialog keys) (hotkeys : List Hotkey) :
    Except QString Hotkey :=
  match hotkeyCategoryFromName d.categoryData with
  | none => .error "Invalid Hotkey Category.".toList
  | some category =>
    if (hotkeys.any fun hotkey => hotkey.name == d.name) && !(d.data.any fun h => h.name == d.name) then
      .error "Hotkey with this name already exists.".toList
    else if d.name.isEmpty then .error "Hotkey name is missing".toList
    else if d.keySequence.isEmpty then .error "Key Sequence is missing".toList
    else if d.actionText.isEmpty then .error "Action name cannot be empty".toList
    else if keys.isSingleKey d.keySequence && !d.shownSingleKeyWarning then
      .error ("Warning: using keybindings without modifiers can lead to not being\n" ++
        "able to use the key for the normal purpose.\n" ++
        "Press the submit button again to do it anyway.").toList
    else
      let hotkey : Hotkey :=
        { category := category
          keySequence := d.keySequence
          action := d.actionData.getD d.actionText
          arguments := parseHotkeyArguments d.arguments
          name := d.name }
      let duplicate :=
        match d.data with
        | none => isDuplicate hotkeys hotkey []
        | some data =>
          (d.keySequence != data.keySequence || d.name != data.name) &&
            isDuplicate hotkeys hotkey data.name
      if duplicate then .error "Keybinding needs to be unique in the category.".toList
      else .ok hotkey

end EditHotkeyDialog

/-! ## What the user does -/

namespace HotkeyController

inductive Op (keys : KeySequences)
  | add (d : EditHotkeyDialog keys)
  | edit (d : EditHotkeyDialog keys)
  | removeAt (index : Nat)
  | resetToDefaults

/-- One action on the page of the settings. Hotkeys that are added or edited are saved at once. -/
inductive Step (store : SettingStore) (keys : KeySequences) :
    HotkeyController store → Op keys → HotkeyController store → Prop
  | add (c : HotkeyController store) {d : EditHotkeyDialog keys} {hotkey : Hotkey} :
      d.data = none → d.afterEdit c.hotkeys.items = .ok hotkey →
      Step store keys c (.add d) (saveHotkeys { c with hotkeys := append c.hotkeys hotkey })
  | edit (c : HotkeyController store) {d : EditHotkeyDialog keys} {data hotkey : Hotkey} :
      d.data = some data → data ∈ c.hotkeys.items → d.afterEdit c.hotkeys.items = .ok hotkey →
      Step store keys c (.edit d) (saveHotkeys { c with hotkeys := replaceHotkey c.hotkeys data.name hotkey })
  | removeAt (c : HotkeyController store) {index : Nat} {r : SignalVector Hotkey × Hotkey} :
      c.hotkeys.removeAt index = some r →
      Step store keys c (.removeAt index) { c with hotkeys := r.1 }
  | resetToDefaults (c : HotkeyController store) : Step store keys c .resetToDefaults (c.resetToDefaults keys)

end HotkeyController

end Dankerino
