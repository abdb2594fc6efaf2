import BerylDB.Transition
import BerylDB.CommandQueue
import BerylDB.QueueInvariants
import BerylDB.Transactions
import BerylDB.Sessions
import BerylDB.Groups
import BerylDB.Authorization
import BerylDB.CoreMaps
import BerylDB.GroupServer
import BerylDB.GroupInvariants
import BerylDB.GroupPermissions
import BerylDB.GroupMembership
import BerylDB.Privileges
import BerylDB.DataFlush
import BerylDB.LockDiscipline
import BerylDB.ClientOrder
import BerylDB.Text
import BerylDB.Timetable
import BerylDB.TimetableOrder
import BerylDB.Store
import BerylDB.Handlers
import BerylDB.Codec
import BerylDB.Query
import BerylDB.Scans
import BerylDB.Keys
import BerylDB.Sequences
import BerylDB.Maps
import BerylDB.Operations
import BerylDB.Prepare
import BerylDB.Admission
import BerylDB.Updates
import BerylDB.Outcome
import BerylDB.Views
import BerylDB.Server
import BerylDB.Paging
import BerylDB.ClearedReplies
import BerylDB.SingleType
import BerylDB.RowShape
import BerylDB.TypedCommands
import BerylDB.Deadlines
import BerylDB.ExpiryTable
import BerylDB.ExpiryReload
import BerylDB.Orphans
import BerylDB.DueDeletes
import BerylDB.FutureTable
import BerylDB.Futures
import BerylDB.FutureReload
import BerylDB.ScanLookup
import BerylDB.Delimited
import BerylDB.Framing
import BerylDB.Wire
import BerylDB.Settings
import BerylDB.Accounts
import BerylDB.SystemTables
import BerylDB.LoginCache
import BerylDB.Databases
import BerylDB.Registration
import BerylDB.Gate
import BerylDB.Revocation
import BerylDB.Streams
import BerylDB.Keyed
import BerylDB.Channels
import BerylDB.Subscriptions
import BerylDB.TableCalls
import BerylDB.Relocation
import BerylDB.Preparing
import BerylDB.Renaming
import BerylDB.SelectMoves
import BerylDB.Copies
import BerylDB.Transfers
import BerylDB.MapFields
import BerylDB.DueEntries
import BerylDB.DeadlineTexts
import BerylDB.RowNames
import BerylDB.SelectResets
import BerylDB.Parameters
import BerylDB.VectorFind
import BerylDB.Substrings
import BerylDB.Occurrences
import BerylDB.Formats
import BerylDB.Decimals
import BerylDB.NumberTexts
import BerylDB.Places
import BerylDB.Coordinates
import BerylDB.Doubles
import BerylDB.DoubleTexts
import BerylDB.Counters
import BerylDB.Removals
import BerylDB.DistanceLists
import BerylDB.Containers
import BerylDB.ContainerCommands
import BerylDB.SequenceCommands
import BerylDB.Shrinking
import BerylDB.ListOrder
import BerylDB.ValueArguments
import BerylDB.MapCommands
import BerylDB.PrintedIntegers
import BerylDB.Extremes
import BerylDB.EmptyContainers
import BerylDB.Globs
import BerylDB.MaskMatching
import BerylDB.Durations
import BerylDB.MapDifferences
import BerylDB.DiffReplies
import BerylDB.AbsentKeys
import BerylDB.ExistenceTests
import BerylDB.FutureValues
import BerylDB.ParameterChecks
import BerylDB.QuotedValues
import BerylDB.SendQueue
import BerylDB.Base64
import BerylDB.NodeStreams
import BerylDB.PortLists
import BerylDB.ConfigRules
import BerylDB.ConfiguredSizes
import BerylDB.AccessMasks
import BerylDB.Timers
import BerylDB.FlatMaps
import BerylDB.CaseOrder
import BerylDB.ConfFiles
import BerylDB.Generations
import BerylDB.ConnectClasses
import BerylDB.LogStreams
import BerylDB.CommaLists
import BerylDB.ChannelSync
import BerylDB.NumericTexts
import BerylDB.CaseFunctors
import BerylDB.ClientIds
import BerylDB.TokenStreams
import BerylDB.NodeLists
import BerylDB.HookRuns
import BerylDB.EventSubscribers
import BerylDB.SocketRuns
import BerylDB.Isolation
import BerylDB.Publications
import BerylDB.ConnectedClients
import BerylDB.ConfigErrors
import BerylDB.ConfigRestrictions
