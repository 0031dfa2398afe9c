import PartitionManager.Library.Loop
import PartitionManager.Basic
import PartitionManager.Library.Bytes
import PartitionManager.Posix
import PartitionManager.Partition
import PartitionManager.PartitionObjects
import PartitionManager.PartitionEquality
import PartitionManager.DynamicCopies
import PartitionManager.TableData
import PartitionManager.Dump
import PartitionManager.Backup
import PartitionManager.AsyncManager
import PartitionManager.Resolve
import PartitionManager.Stores
import PartitionManager.ByteAddresses
import PartitionManager.Erase
import PartitionManager.Scan
import PartitionManager.Write
import PartitionManager.Flash
import PartitionManager.FlashTasks
import PartitionManager.CommandLine
import PartitionManager.CommandTokens
import PartitionManager.ParseGuarantee
import PartitionManager.EarlyOptions
import PartitionManager.StoreCalls
import PartitionManager.ErrorChain
import PartitionManager.Library.Checks
import PartitionManager.Metadata
import PartitionManager.OpenPart
import PartitionManager.Sectors
import PartitionManager.Library.Owned
import PartitionManager.HandleOwnership
import PartitionManager.CopiedHandles
import PartitionManager.SuperiorOptions
import PartitionManager.GptTables
import PartitionManager.Conversions
import PartitionManager.MalformedArgs
import PartitionManager.Filesystems
import PartitionManager.DiskFormats
import PartitionManager.GptEntries
import PartitionManager.Plugins
import PartitionManager.GlobalOptions
import PartitionManager.TableLookup
import PartitionManager.BufferSizes
import PartitionManager.Magic
import PartitionManager.VolumeLabels
import PartitionManager.PartNames
import PartitionManager.StoreSync
import PartitionManager.StoreEquality
import PartitionManager.TableQueries
import PartitionManager.Transfers
import PartitionManager.Wipe
import PartitionManager.Checksum
import PartitionManager.Hexdump
import PartitionManager.InfoGetters
import PartitionManager.Library.Pieces
import PartitionManager.TypedOptions
import PartitionManager.FlagValues
import PartitionManager.Library.Delimited
import PartitionManager.OptionLists
import PartitionManager.DefaultTexts
import PartitionManager.SizeValues
import PartitionManager.AlikePasses
import PartitionManager.PluginOptions
import PartitionManager.RequiredLists
import PartitionManager.OmittedOptions
import PartitionManager.Library.Rounding
import PartitionManager.SizeUnits
import PartitionManager.InfoSizes
import PartitionManager.PartitionSizes
import PartitionManager.MemoryTest
import PartitionManager.ConfirmPrompt
import PartitionManager.Library.Descriptors
import PartitionManager.Silencer
import PartitionManager.TextFiles
import PartitionManager.CopyFile
import PartitionManager.FileHash
import PartitionManager.Library.FileTree
import PartitionManager.EraseDirectory
import PartitionManager.MakeDirectory
import PartitionManager.DelimitedInput
import PartitionManager.HelpText
import PartitionManager.DevicePaths
import PartitionManager.Library.Holders
import PartitionManager.UniqueDescriptors
import PartitionManager.DescriptorOwnership
import PartitionManager.UniqueStreams
import PartitionManager.StreamOwnership
import PartitionManager.LogFiles
import PartitionManager.Commands
import PartitionManager.Sessions
import PartitionManager.AsyncRuns
import PartitionManager.Library.Words
import PartitionManager.MainProgram
import PartitionManager.DeviceSessions
import PartitionManager.BackupTasks
import PartitionManager.RestoreTasks
import PartitionManager.PluginLives
import PartitionManager.TypeDetection
import PartitionManager.Discovery
import PartitionManager.GptSessions
