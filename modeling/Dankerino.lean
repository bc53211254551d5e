import Dankerino.Infra.CircularBuffer
import Dankerino.Infra.Run
import Dankerino.Infra.RoseTree
import Dankerino.Infra.StableMerge
import Dankerino.Infra.Regex
import Dankerino.Infra.Yields
import Dankerino.Infra.SlidingWindow
import Dankerino.Infra.SortUnique
import Dankerino.Messages.BoundedSeq
import Dankerino.Common.FillIn
import Dankerino.PubSub.Unlisten
import Dankerino.Seventv.EventApiCalls
import Dankerino.Seventv.EmoteSet
import Dankerino.Twitch.RecentMessages
import Dankerino.Twitch.SendMessage
import Dankerino.Twitch.RateLimit
import Dankerino.Twitch.ChannelPointRewards
import Dankerino.Twitch.TwitchMessageBuilder
import Dankerino.Twitch.IrcMessageHandler
import Dankerino.Twitch.HandlerFaults
import Dankerino.Util.RatelimitBucket
import Dankerino.Widgets.ViewMirror
import Dankerino.Widgets.SearchPopup
import Dankerino.Widgets.SplitDrag
import Dankerino.Commands.CommandController
import Dankerino.Filters.ParserSpec
import Dankerino.Infra.OrderedMap
import Dankerino.Seventv.EventApi
import Dankerino.Seventv.Emotes
import Dankerino.Common.SignalVector
import Dankerino.Common.SignalVectorModel
import Dankerino.Common.VectorSync
import Dankerino.Hotkeys.HotkeyModel
import Dankerino.Infra.Sections
import Dankerino.Hotkeys.HotkeyTable
import Dankerino.Hotkeys.HotkeyRun
import Dankerino.Accounts.AccountController
import Dankerino.Accounts.AccountLists
import Dankerino.Common.WindowDescriptors
import Dankerino.Widgets.WindowManager
import Dankerino.Widgets.SavedLayout
import Dankerino.Highlights.HighlightRun
import Dankerino.Highlights.WhisperSettings
import Dankerino.Highlights.CustomSound
import Dankerino.Highlights.CheckSpec
import Dankerino.Filters.RoundTrip
import Dankerino.Filters.Literals
import Dankerino.Filters.Operands
import Dankerino.Filters.TokenForms
import Dankerino.Filters.Lexing
import Dankerino.Twitch.LiveStatus
import Dankerino.Filters.FilterSet
import Dankerino.Hotkeys.HotkeyController
import Dankerino.Hotkeys.HotkeyRestart
import Dankerino.Hotkeys.HotkeyEdits
import Dankerino.Messages.LayoutLines
import Dankerino.Twitch.ReplyThreads
import Dankerino.Twitch.ThreadSharing
import Dankerino.Common.Credentials
import Dankerino.Common.InsecureStore
import Dankerino.Irc.Irc2
import Dankerino.Irc.IrcRegistry
import Dankerino.Common.NetworkPrivate
import Dankerino.Common.NetworkProtocol
import Dankerino.Common.NetworkProgress
import Dankerino.Widgets.ReopenSplit
import Dankerino.Widgets.Notebook
import Dankerino.Widgets.TabSelection
import Dankerino.Messages.InsertItem
import Dankerino.Filters.Accepts
import Dankerino.Irc.AbstractIrcServer
import Dankerino.Irc.JoinCoverage
import Dankerino.Util.NuulsUploader
import Dankerino.Util.UploadQueue
import Dankerino.Widgets.PauseDeadlines
import Dankerino.Widgets.ViewPauses
import Dankerino.Widgets.ScrollAnchor
import Dankerino.Widgets.Scrollbar
import Dankerino.Twitch.TwitchBlocks
import Dankerino.Twitch.BlockSync
import Dankerino.Notifications.Announcements
import Dankerino.Filters.Execute
import Dankerino.Filters.Values
import Dankerino.Filters.ListOperators
import Dankerino.Filters.ViewFilter
import Dankerino.Filters.Arithmetic
import Dankerino.Filters.Lexemes
import Dankerino.Filters.Shape
import Dankerino.Filters.EditorDialog
import Dankerino.Widgets.Selection
import Dankerino.Widgets.SelectionBounds
import Dankerino.Common.MoveRows
import Dankerino.Common.AddOrReplace
import Dankerino.Common.TimeoutWindow
import Dankerino.Common.TimeoutStyle
import Dankerino.Common.EmoteNotices
import Dankerino.Infra.KeyedOrder
import Dankerino.Infra.Spans
import Dankerino.Emoji.Emojis
import Dankerino.Messages.MessageElement
import Dankerino.Messages.SelectionText
import Dankerino.Messages.CopiedText
import Dankerino.Messages.CopyModes
import Dankerino.Messages.WordWrap
import Dankerino.Messages.SingleLine
import Dankerino.Widgets.InsertNextTo
import Dankerino.Widgets.LoadedContainer
import Dankerino.Twitch.EmotePositions
import Dankerino.Twitch.EmotePlacement
import Dankerino.Infra.Termination
import Dankerino.Qt.Decimal
import Dankerino.Twitch.Cheermotes
import Dankerino.Twitch.IgnoreReplaces
import Dankerino.Twitch.IgnoredEmotes
import Dankerino.Twitch.AddWordsLoop
import Dankerino.Qt.QChar
import Dankerino.Util.IrcHelpers
import Dankerino.Common.LinkParser
import Dankerino.Infra.RegexLanguage
import Dankerino.Common.LinkGrammar
import Dankerino.Emoji.EmojiGreedy
import Dankerino.Emoji.ShortCodes
import Dankerino.Commands.CustomCommand
import Dankerino.Commands.CommandTemplate
import Dankerino.Commands.CommandExpansion
import Dankerino.Infra.Doubling
import Dankerino.Infra.LruCache
import Dankerino.Common.ChatterSet
import Dankerino.Messages.Frames
import Dankerino.Infra.DraftHistory
import Dankerino.Widgets.SplitInput
import Dankerino.Widgets.InputHistory
import Dankerino.Infra.ScanBack
import Dankerino.Widgets.InputCompletion
import Dankerino.Infra.CommonSubstring
import Dankerino.Twitch.Similarity
import Dankerino.Infra.StdSet
import Dankerino.Common.CompletionModel
import Dankerino.Moderation.ModerationAction
import Dankerino.Common.RowSafety
import Dankerino.Infra.StoppedScan
import Dankerino.Twitch.SimilarityWindow
import Dankerino.Widgets.TabCompletion
import Dankerino.Util.LinkTemplate
import Dankerino.Infra.PastTime
import Dankerino.Irc.IrcConnection
import Dankerino.Irc.IrcMessageBuilder
import Dankerino.Messages.LayoutCache
import Dankerino.PubSub.Pings
import Dankerino.Seventv.CheckPing
import Dankerino.Twitch.TwitchBadges
import Dankerino.Util.FormatTime
import Dankerino.Util.PersistSignalVector
import Dankerino.Util.SplitCommand
import Dankerino.Widgets.SearchPredicates
