import AviSynth.Library.Runs
import AviSynth.Cache.LruCache
import AviSynth.Cache.LruEviction
import AviSynth.Cache.LruOccupancy
import AviSynth.Cache.AudioCache
import AviSynth.Cache.AudioTransparency
import AviSynth.Cache.LruLookup
import AviSynth.Cache.LruSafety
import AviSynth.Cache.CacheExpansion
import AviSynth.Frames.AVSMap
import AviSynth.Frames.FrameAllocation
import AviSynth.Frames.MapHeap
import AviSynth.Frames.MapOperations
import AviSynth.Frames.MapSharing
import AviSynth.Frames.FrameIsolation
import AviSynth.Frames.ShutdownDrain
import AviSynth.Script.StringLiteral
import AviSynth.Script.Import
import AviSynth.Script.FunctionLifetime
import AviSynth.Devices.DeviceManager
import AviSynth.Devices.PrefetchRuns
import AviSynth.Filters.AudioPieces
import AviSynth.Filters.RuntimeRestore
import AviSynth.Plugins.AutoloadPriority
import AviSynth.Plugins.EnvironmentExit
import AviSynth.Cx.WrapperSafety
import AviSynth.Environment.AtExit
import AviSynth.Environment.GuardModes
import AviSynth.Plugins.LegacyInvoke
import AviSynth.Filters.ResampleAudio
import AviSynth.CInterface.ClipHandles
import AviSynth.Language.IntegerOperators
import AviSynth.Language.ArithmeticParsing
import AviSynth.Language.Assignment
import AviSynth.Language.BlockTrees
import AviSynth.Language.DefinitionParsing
import AviSynth.Language.ForLoops
import AviSynth.Language.FunctionDefinitions
import AviSynth.AviFile.StreamFormat
import AviSynth.Cache.CacheGuard
import AviSynth.Cache.GuardAgreement
import AviSynth.Cache.LruPool
import AviSynth.Environment.ModeSettings
import AviSynth.Library.RowBlocks
import AviSynth.AviFile.ReadFrame
import AviSynth.AviFile.StreamAgreement
import AviSynth.Script.VarTable
import AviSynth.Script.VariableHistory
import AviSynth.Cache.RecentKeys
import AviSynth.Environment.BoundedQueue
import AviSynth.Environment.GlobalLockSafety
import AviSynth.Environment.PoolShutdown
import AviSynth.Frames.FrameRate
import AviSynth.Cache.Prefetcher
import AviSynth.Cache.PrefetcherRuns
import AviSynth.Environment.BufferCalls
import AviSynth.Script.StringDump
import AviSynth.Language.ParameterItems
import AviSynth.Language.ParameterSafety
import AviSynth.Library.Occurrences
import AviSynth.Script.CommentBalance
import AviSynth.Script.LineNumbers
import AviSynth.Filters.IntegerInterpolation
import AviSynth.Filters.AnimateRuns
import AviSynth.Filters.ConditionalReader
import AviSynth.Filters.CopyProperties
import AviSynth.Filters.FrameClip
import AviSynth.Filters.FrameLists
import AviSynth.Filters.Trim
import AviSynth.Script.ReplaceStr
import AviSynth.Filters.Dissolve
import AviSynth.Filters.Loop
import AviSynth.Filters.LoopAudio
import AviSynth.Library.OwnedLists
import AviSynth.Script.ValueAssignment
import AviSynth.Codecs.PackedPixelFrames
import AviSynth.Codecs.V210Encoder
import AviSynth.Codecs.V210RoundTrip
import AviSynth.Filters.AudioPositions
import AviSynth.Filters.SetProperty
import AviSynth.Language.ComparisonChains
import AviSynth.Filters.EditGraph
import AviSynth.Filters.EnsureVbrMp3Sync
import AviSynth.Filters.SyncRuns
import AviSynth.Filters.AudioChannels
import AviSynth.Filters.ExtractedChannels
import AviSynth.Filters.ChannelLayouts
import AviSynth.Filters.ChannelTexts
import AviSynth.Filters.ShownLayouts
import AviSynth.Environment.MTGuard
import AviSynth.Environment.MTGuardRuns
import AviSynth.Environment.CpuPolicy
import AviSynth.Filters.PlaneDifference
import AviSynth.Filters.MinMaxPlane
import AviSynth.Language.FormatFields
import AviSynth.Language.PrintedIntegers
import AviSynth.Language.ParserLevels
import AviSynth.Language.LoopRules
