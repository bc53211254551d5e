import Dankerino.Qt.QString

/-!
# Highlighted phrases and badges

`HighlightPhrase` and `HighlightBadge` of `controllers/highlights`. What they call of Qt is a
parameter, and an URL is whatever Qt makes of a text. A colour is the address of the `QColor` that a
phrase shares with the messages it highlighted. The settings page writes to that address.
-/

namespace Dankerino

universe u

/-- A pattern with `UseUnicodePropertiesOption`. -/
structure QRegularExpression where
  pattern : QString
  caseInsensitive : Bool
deriving DecidableEq, Repr

structure Qt (QUrl : Type u) where
  /-- The constructor of `QUrl`. -/
  url : QString → QUrl
  urlIsEmpty : QUrl → Bool
  isValid : QRegularExpression → Bool
  hasMatch : QRegularExpression → QString → Bool
  escape : QString → QString
  /-- `compare(…, Qt::CaseInsensitive) == 0`. -/
  equalsCaseInsensitive : QString → QString → Bool

variable {QUrl : Type u} (qt : Qt QUrl)

/-! ## Phrases -/

structure HighlightPhrase (QUrl : Type u) where
  pattern : QString
  showInMentions : Bool
  hasAlert : Bool
  hasSound : Bool
  isRegex : Bool
  isCaseSensitive : Bool
  soundUrl : QUrl
  color : Nat

namespace HighlightPhrase

def REGEX_START_BOUNDARY : QString := "(\\b|\\s|^)".toList

def REGEX_END_BOUNDARY : QString := "(\\b|\\s|$)".toList

/-- `regex_`, which the constructors build. -/
def regex (highlight : HighlightPhrase QUrl) : QRegularExpression where
  pattern :=
    if highlight.isRegex then highlight.pattern
    else REGEX_START_BOUNDARY ++ qt.escape highlight.pattern ++ REGEX_END_BOUNDARY
  caseInsensitive := !highlight.isCaseSensitive

def isValid (highlight : HighlightPhrase QUrl) : Bool :=
  !highlight.pattern.isEmpty && qt.isValid (highlight.regex qt)

def isMatch (highlight : HighlightPhrase QUrl) (subject : QString) : Bool :=
  highlight.isValid qt && qt.hasMatch (highlight.regex qt) subject

def hasCustomSound (highlight : HighlightPhrase QUrl) : Bool := !qt.urlIsEmpty highlight.soundUrl

end HighlightPhrase

/-! ## Badges -/

structure Badge where
  key : QString
  value : QString
deriving DecidableEq, Repr

/-- `slashKeyValue`: what is before the first slash, and what is behind it. -/
def slashKeyValue (kvStr : QString) : QString × QString :=
  (kvStr.takeWhile (· != '/'), (kvStr.dropWhile (· != '/')).drop 1)

structure HighlightBadge (QUrl : Type u) where
  badgeName : QString
  hasAlert : Bool
  hasSound : Bool
  soundUrl : QUrl
  color : Nat

namespace HighlightBadge

def hasVersions (highlight : HighlightBadge QUrl) : Bool := highlight.badgeName.contains '/'

def isMulti (highlight : HighlightBadge QUrl) : Bool := highlight.badgeName.contains ','

def compare (highlight : HighlightBadge QUrl) (id : QString) (badge : Badge) : Bool :=
  if highlight.hasVersions then
    let parts := slashKeyValue id
    qt.equalsCaseInsensitive parts.1 badge.key && qt.equalsCaseInsensitive parts.2 badge.value
  else qt.equalsCaseInsensitive id badge.key

def isMatch (highlight : HighlightBadge QUrl) (badge : Badge) : Bool :=
  if highlight.isMulti then
    (highlight.badgeName.splitOn ',').any fun id => highlight.compare qt id badge
  else highlight.compare qt highlight.badgeName badge

def hasCustomSound (highlight : HighlightBadge QUrl) : Bool := !qt.urlIsEmpty highlight.soundUrl

end HighlightBadge

end Dankerino
