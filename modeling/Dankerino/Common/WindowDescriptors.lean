import Dankerino.Qt.QJson

/-!
# Window descriptors

`common/WindowDescriptors.cpp`, for one tab: the tree of splits that a saved layout describes, and
how it is loaded from JSON. A `QUuid` is a type with the two conversions of Qt.
-/

namespace Dankerino

/-- `QUuid::toString(QUuid::WithoutBraces)` and `QUuid::fromString`. -/
structure UuidFormat (QUuid : Type) where
  toString : QUuid → QString
  fromString : QString → QUuid
  fromString_toString : ∀ id, fromString (toString id) = id

structure SplitDescriptor (QUuid : Type) where
  /-- Twitch or mentions or watching or whispers or IRC -/
  type : QString
  /-- Twitch Channel name or IRC channel name -/
  channelName : QString
  /-- IRC server -/
  server : Int32
  moderationMode : Bool
  filters : List QUuid

structure SplitNodeDescriptor (QUuid : Type) extends SplitDescriptor QUuid where
  flexH : Qreal
  flexV : Qreal

/-- A `ContainerNodeDescriptor` or a `SplitNodeDescriptor`. -/
inductive NodeDescriptor (QUuid : Type)
  | container (flexH flexV : Qreal) (vertical : Bool) (items : List (NodeDescriptor QUuid))
  | split (descriptor : SplitNodeDescriptor QUuid)

structure TabDescriptor (QUuid : Type) where
  customTitle : QString
  selected : Bool
  highlightsEnabled : Bool
  rootNode : Option (NodeDescriptor QUuid)

open QJsonObject

variable {QUuid : Type} (format : UuidFormat QUuid)

def loadFilters (val : QJsonValue) : List QUuid :=
  if val.isUndefined then []
  else val.toArray.map fun id => format.fromString id.toString

namespace SplitDescriptor

def loadFromJSON (root data : QJsonObject) : SplitDescriptor QUuid where
  type := (value data "type").toString
  server := (value data "server").toInt (-1)
  moderationMode := (value root "moderationMode").toBool false
  channelName :=
    if contains data "channel" then (value data "channel").toString
    else (value data "name").toString
  filters := loadFilters format (value root "filters")

end SplitDescriptor

def one : Qreal := .finite 1

/-- `loadNodes<SplitNodeDescriptor>`. -/
def loadSplitNode (root : QJsonObject) : SplitNodeDescriptor QUuid :=
  let data := (value root "data").toObject
  { SplitDescriptor.loadFromJSON format root data with
    flexH := (value root "flexh").toDouble one
    flexV := (value root "flexv").toDouble one }

/-- `loadNodes<ContainerNodeDescriptor>`. -/
def loadContainerNode (root : QJsonObject) : NodeDescriptor QUuid :=
  .container ((value root "flexh").toDouble one) ((value root "flexv").toDouble one)
    ((value root "type").toString == "vertical".toList)
    ((value root "items").toArray.attach.map fun val =>
      let obj := val.1.toObject
      if (value obj "type").equals "split".toList then .split (loadSplitNode format obj)
      else loadContainerNode obj)
termination_by sizeOf root
decreasing_by exact sizeOf_toObject_lt val.2

/-- The item of a container, as the loop of `loadNodes` loads it. -/
def loadItem (obj : QJsonObject) : NodeDescriptor QUuid :=
  if (value obj "type").equals "split".toList then .split (loadSplitNode format obj)
  else loadContainerNode format obj

theorem loadContainerNode_eq (root : QJsonObject) :
    loadContainerNode format root
      = .container ((value root "flexh").toDouble one) ((value root "flexv").toDouble one)
          ((value root "type").toString == "vertical".toList)
          ((value root "items").toArray.map fun val => loadItem format val.toObject) := by
  rw [loadContainerNode]
  congr 1
  exact List.attach_map_val (f := fun val : QJsonValue => loadItem format val.toObject)

namespace TabDescriptor

/-- The root node of a tab, from `splits2`. -/
def loadRootNode (splitRoot : QJsonObject) : Option (NodeDescriptor QUuid) :=
  if splitRoot.isEmpty then none
  else
    let nodeType := (value splitRoot "type").toString
    if nodeType = "split".toList then some (.split (loadSplitNode format splitRoot))
    else if nodeType = "horizontal".toList ∨ nodeType = "vertical".toList then
      some (loadContainerNode format splitRoot)
    else none

def loadFromJSON (tabObj : QJsonObject) : TabDescriptor QUuid where
  customTitle :=
    let titleVal := value tabObj "title"
    if titleVal.isString then titleVal.toString else []
  selected := (value tabObj "selected").toBool false
  highlightsEnabled := (value tabObj "highlightsEnabled").toBool true
  rootNode := loadRootNode format (value tabObj "splits2").toObject

end TabDescriptor

end Dankerino
