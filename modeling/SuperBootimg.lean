import SuperBootimg.ByteImage
import SuperBootimg.ByteLayout
import SuperBootimg.FirstMatch
import SuperBootimg.EarlyStop
import SuperBootimg.FieldSplitting
import SuperBootimg.WordPattern
import SuperBootimg.RegularSearch
import SuperBootimg.HeadedSections
import SuperBootimg.FormatScan
import SuperBootimg.LineStream
import SuperBootimg.RetryLoop
import SuperBootimg.AccumulatedEffects
import SuperBootimg.GuardedRuns
import SuperBootimg.ExitOnError
import SuperBootimg.ScriptTriples
import SuperBootimg.ConditionedRuns
import SuperBootimg.AnsweredCommands
import SuperBootimg.LineRewriting
import SuperBootimg.OverlaidArchive
import SuperBootimg.RecordedRuns
import SuperBootimg.ViewedRuns
import SuperBootimg.Concrete.MachineWords
import SuperBootimg.Concrete.WorkDirectory
import SuperBootimg.Concrete.BootImgHeader
import SuperBootimg.Concrete.SystemCalls
import SuperBootimg.Concrete.ExtractProgram
import SuperBootimg.Concrete.RepackProgram
import SuperBootimg.Concrete.ExtractSteps
import SuperBootimg.Concrete.ExtractRuns
import SuperBootimg.Concrete.ExtractCalls
import SuperBootimg.Concrete.DecodedLayout
import SuperBootimg.Concrete.SectionBounds
import SuperBootimg.Concrete.TruncatedSections
import SuperBootimg.Concrete.SizeArithmetic
import SuperBootimg.Concrete.SilentLoss
import SuperBootimg.Concrete.PeeledSection
import SuperBootimg.Concrete.SectionOverrun
import SuperBootimg.Concrete.RepackSteps
import SuperBootimg.Concrete.BuiltImage
import SuperBootimg.Concrete.RepackRuns
import SuperBootimg.Concrete.DescribedImage
import SuperBootimg.Concrete.HeldSections
import SuperBootimg.Concrete.RoundTrip
import SuperBootimg.Concrete.CanonicalImage
import SuperBootimg.Concrete.LeftoverFiles
import SuperBootimg.Concrete.KeptHeader
import SuperBootimg.Concrete.AppendedParts
import SuperBootimg.Concrete.ExtractedParts
import SuperBootimg.Concrete.KeptRamdisk
import SuperBootimg.Concrete.FailClosed
import SuperBootimg.Concrete.HeaderFrame
import SuperBootimg.Concrete.SepolicyRules
import SuperBootimg.Concrete.InitramfsFiles
import SuperBootimg.Concrete.BootPartition
import SuperBootimg.Concrete.FstabLines
import SuperBootimg.Concrete.FstabEncryption
import SuperBootimg.Concrete.NoverityRules
import SuperBootimg.Concrete.FstabVerity
import SuperBootimg.Concrete.InitRcEdit
import SuperBootimg.Concrete.InitRcSections
import SuperBootimg.Concrete.HidesuSystem
import SuperBootimg.Concrete.HidesuNamespaces
import SuperBootimg.Concrete.HidesuEvents
import SuperBootimg.Concrete.EventArrays
import SuperBootimg.Concrete.HidesuUnmounts
import SuperBootimg.Concrete.HidesuWait
import SuperBootimg.Concrete.MountTree
import SuperBootimg.Concrete.SbinTmpfs
import SuperBootimg.Concrete.SendfileLoop
import SuperBootimg.Concrete.HidesuStartup
import SuperBootimg.Concrete.ProcSearch
import SuperBootimg.Concrete.HiddenMounts
import SuperBootimg.Concrete.ServedClients
import SuperBootimg.Concrete.RegisteredEdits
import SuperBootimg.Concrete.RamdiskFiles
import SuperBootimg.Concrete.EditedRamdisk
import SuperBootimg.Concrete.RegisteredFiles
import SuperBootimg.Concrete.PackedRamdisk
import SuperBootimg.Concrete.InstallerMachine
import SuperBootimg.Concrete.EditedImage
import SuperBootimg.Concrete.WrittenPartition
import SuperBootimg.Concrete.InstallerRuns
import SuperBootimg.Concrete.RepeatedInstallations
import SuperBootimg.Concrete.InstalledRamdisk
