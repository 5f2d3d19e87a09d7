import ChilopodCaster.Lib.Bits
import ChilopodCaster.Lib.Chain
import ChilopodCaster.Lib.Crc
import ChilopodCaster.Lib.Fold
import ChilopodCaster.Lib.Holdings
import ChilopodCaster.Lib.Latest
import ChilopodCaster.Lib.Lines
import ChilopodCaster.Lib.Loop
import ChilopodCaster.Lib.Memory
import ChilopodCaster.Lib.Paths
import ChilopodCaster.Lib.Refusal
import ChilopodCaster.Lib.Replica
import ChilopodCaster.Lib.Threads
import ChilopodCaster.Lib.Tokenizer
import ChilopodCaster.Lib.Transition
import ChilopodCaster.Auth
import ChilopodCaster.Bytes
import ChilopodCaster.Bitfield
import ChilopodCaster.BitfieldMemory
import ChilopodCaster.FilterUse
import ChilopodCaster.Hash
import ChilopodCaster.Http
import ChilopodCaster.Ip
import ChilopodCaster.Jobs
import ChilopodCaster.JobsSession
import ChilopodCaster.JobsWakeup
import ChilopodCaster.Json
import ChilopodCaster.Livesource
import ChilopodCaster.LivesourceAnnounce
import ChilopodCaster.LivesourceCustody
import ChilopodCaster.LivesourceOccupied
import ChilopodCaster.LivesourceOwner
import ChilopodCaster.LivesourceSync
import ChilopodCaster.LivesourceTable
import ChilopodCaster.Packet
import ChilopodCaster.Quota
import ChilopodCaster.Server
import ChilopodCaster.ServerAnswer
import ChilopodCaster.ServerRound
import ChilopodCaster.ServerInput
import ChilopodCaster.ServerForwarded
import ChilopodCaster.ServerRover
import ChilopodCaster.ServerKeepalive
import ChilopodCaster.ServerPipeline
import ChilopodCaster.Session
import ChilopodCaster.SourceDetection
import ChilopodCaster.Sourceline
import ChilopodCaster.Sourcetable
import ChilopodCaster.SourcetableStack
import ChilopodCaster.SourcetableSync
import ChilopodCaster.StaticFiles
import ChilopodCaster.Subscription
import ChilopodCaster.SubscriptionLive
import ChilopodCaster.SubscriptionSerial
import ChilopodCaster.SubscriptionSound
import ChilopodCaster.SubscriptionTargets
import ChilopodCaster.Task
import ChilopodCaster.Syncer
import ChilopodCaster.TaskSend
import ChilopodCaster.VirtualSwitch
import ChilopodCaster.VirtualSwitchOrder
import ChilopodCaster.VirtualSwitchSound
import ChilopodCaster.ChunkDecode
import ChilopodCaster.Rtcm.Crc
import ChilopodCaster.Rtcm.Filter
import ChilopodCaster.Rtcm.Framing
import ChilopodCaster.Rtcm.Msm
import ChilopodCaster.Rtcm.Narrowing
import ChilopodCaster.Reload
import ChilopodCaster.ReloadOrder
import ChilopodCaster.Listeners
import ChilopodCaster.FanOut
import ChilopodCaster.Fetchers
import ChilopodCaster.JsonText
import ChilopodCaster.Config
import ChilopodCaster.AccountEdits
import ChilopodCaster.AccountCancel
import ChilopodCaster.SettingsReply
import ChilopodCaster.SettingsFields
import ChilopodCaster.SettingsUpdate
import ChilopodCaster.Settings
import ChilopodCaster.SettingsSaved
import ChilopodCaster.SettingsWhole
import ChilopodCaster.TaskBackoff
import ChilopodCaster.Alarms
import ChilopodCaster.AlarmsRate
import ChilopodCaster.AlarmsOnline
import ChilopodCaster.AlarmsOutage
import ChilopodCaster.NearestBase
import ChilopodCaster.Rtcm.Msm3
import ChilopodCaster.LivesourceReceive
import ChilopodCaster.Disconnect
import ChilopodCaster.AccountLists
import ChilopodCaster.AccountRequests
import ChilopodCaster.SourcetableEdits
import ChilopodCaster.SourcetableRequests
import ChilopodCaster.Lib.CrcPoly
import ChilopodCaster.Rtcm.CrcBurst
import ChilopodCaster.Rtcm.Typesets
import ChilopodCaster.Decimal
import ChilopodCaster.Rtcm.TypeList
import ChilopodCaster.Rtcm.Position
import ChilopodCaster.Rtcm.Drift
import ChilopodCaster.PathJoin
import ChilopodCaster.PrefixMatch
import ChilopodCaster.PrefixText
import ChilopodCaster.Lib.Extended
import ChilopodCaster.Scanf
import ChilopodCaster.Gga
import ChilopodCaster.SourcetableText
import ChilopodCaster.SourcetableFetch
import ChilopodCaster.Lib.Calendar
import ChilopodCaster.IsoDate
import ChilopodCaster.SourcetableJson
import ChilopodCaster.Lib.Separated
import ChilopodCaster.Lib.Sextets
import ChilopodCaster.Base64
import ChilopodCaster.FormDecoding
import ChilopodCaster.HashCode
import ChilopodCaster.Lib.Ring
import ChilopodCaster.LogBuffer
import ChilopodCaster.ScalarFields
import ChilopodCaster.FilterList
import ChilopodCaster.TemplateText
import ChilopodCaster.ClientEnd
import ChilopodCaster.HttpText
import ChilopodCaster.ServerFrame
import ChilopodCaster.RequestRead
import ChilopodCaster.SyncDelivery
import ChilopodCaster.ClientFrame
import ChilopodCaster.ReplyRead
import ChilopodCaster.ReplyText
import ChilopodCaster.SyncerSession
import ChilopodCaster.SyncLink
import ChilopodCaster.TableFetch
