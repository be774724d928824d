import LandscapeKit.FlareReplay
import LandscapeKit.FlareServerSession
import LandscapeKit.FlareServerIsolation
import LandscapeKit.FlareServerLockout
import LandscapeKit.FlareNonces
import LandscapeKit.FlareClientBytes
import LandscapeKit.FlareCodecs
import LandscapeKit.FlareWake
import LandscapeKit.LibFaults
import LandscapeKit.LibFiles
import LandscapeKit.DeployTransaction
import LandscapeKit.DeployRollback
import LandscapeKit.DeployTakeover
import LandscapeKit.DeployWorkflows
import LandscapeKit.DeployMaintenance
import LandscapeKit.DeployRecovery
import LandscapeKit.DeployFrames
import LandscapeKit.DeployFailure
import LandscapeKit.DeployFootprint
import LandscapeKit.DeployRuns
import LandscapeKit.DeployNoBackup
import LandscapeKit.DeployNoBackupRecovery
import LandscapeKit.DeployPhases
import LandscapeKit.DeployPhaseOrder
import LandscapeKit.DeployReinitData
import LandscapeKit.DeployReinitSafety
import LandscapeKit.DeployPaths
import LandscapeKit.DeployContainment
import LandscapeKit.DeployEscapes
import LandscapeKit.LibText
import LandscapeKit.LkbContainer
import LandscapeKit.LkbReaders
import LandscapeKit.LibTree
import LandscapeKit.LkbArchive
import LandscapeKit.LkbRoundTrip
import LandscapeKit.DeployExclusive
import LandscapeKit.HostnetParse
import LandscapeKit.HostnetEdit
import LandscapeKit.HostnetGroups
import LandscapeKit.HostnetStatements
import LandscapeKit.HostnetReparse
import LandscapeKit.HostnetUnmanage
import LandscapeKit.HostnetPlan
import LandscapeKit.DeployKeepData
import LandscapeKit.DeployOutcome
import LandscapeKit.ConfigFlare
import LandscapeKit.ConfigSections
import LandscapeKit.ConfigEdits
import LandscapeKit.ConfigWriters
import LandscapeKit.ConfigSecret
import LandscapeKit.DaemonFlare
import LandscapeKit.LibUnpack
import LandscapeKit.PublishStatic
import LandscapeKit.LibFold
import LandscapeKit.PublishExtract
import LandscapeKit.DaemonExecutor
import LandscapeKit.LibStore
import LandscapeKit.LibReplace
import LandscapeKit.PublishBucket
import LandscapeKit.PublishRuns
import LandscapeKit.DaemonDelegation
import LandscapeKit.DaemonTruth
import LandscapeKit.HostnetSystem
import LandscapeKit.HostnetTransaction
import LandscapeKit.HostnetTurns
import LandscapeKit.HostnetAtomic
import LandscapeKit.HostnetOwn
import LandscapeKit.HostnetExecute
import LandscapeKit.LibScan
import LandscapeKit.LibSplice
import LandscapeKit.MirrorHosts
import LandscapeKit.MirrorAptParse
import LandscapeKit.MirrorAptRewrite
import LandscapeKit.MirrorAptUri
import LandscapeKit.MirrorAptParts
import LandscapeKit.MirrorAptLine
import LandscapeKit.MirrorAptStanza
import LandscapeKit.MirrorAptFile
import LandscapeKit.FlarePorts
import LandscapeKit.FlareBudget
import LandscapeKit.DeployTrees
import LandscapeKit.DeployRetries
import LandscapeKit.DeployRelease
import LandscapeKit.DeploySwitchCut
import LandscapeKit.DeployRepairCut
import LandscapeKit.ServiceBackends
import LandscapeKit.ServiceContract
import LandscapeKit.DeployMigrateCut
import LandscapeKit.DeployMigrateBack
import LandscapeKit.DeployClosing
import LandscapeKit.LkbExtract
import LandscapeKit.HostnetKept
import LandscapeKit.HostnetSilent
import LandscapeKit.HostnetRestore
import LandscapeKit.HostnetCollect
import LandscapeKit.LibWords
import LandscapeKit.MirrorReplace
import LandscapeKit.MirrorDnf
import LandscapeKit.MirrorDnfLines
import LandscapeKit.MirrorDnfRewrite
import LandscapeKit.MirrorAptCdrom
import LandscapeKit.MirrorAptPieces
import LandscapeKit.MirrorAptLocal
import LandscapeKit.LibUtf8
import LandscapeKit.MirrorAptBytes
import LandscapeKit.MirrorAptBytesRead
import LandscapeKit.MirrorAptBytesRewrite
import LandscapeKit.LibExtremes
import LandscapeKit.MirrorAptMoved
import LandscapeKit.MirrorAptRepeat
import LandscapeKit.MirrorAptTables
import LandscapeKit.MirrorAptSwitch
import LandscapeKit.LibBlocks
import LandscapeKit.LibOptions
import LandscapeKit.NetworkConfig
import LandscapeKit.NetworkSubnet
import LandscapeKit.NetworkValidate
import LandscapeKit.NetworkInit
import LandscapeKit.NetworkArgs
import LandscapeKit.ServiceProcess
import LandscapeKit.ServiceUnits
import LandscapeKit.PublishAgain
import LandscapeKit.LibEffects
import LandscapeKit.PublishUnpack
import LandscapeKit.LibLossy
import LandscapeKit.PublishPack
import LandscapeKit.PublishRoundTrip
import LandscapeKit.MirrorDisk
import LandscapeKit.MirrorBackends
import LandscapeKit.MirrorSteps
import LandscapeKit.MirrorPlan
import LandscapeKit.MirrorFailure
import LandscapeKit.MirrorRestore
import LandscapeKit.LibSpaced
import LandscapeKit.MirrorBoundary
import LandscapeKit.LibProgress
import LandscapeKit.SoftwareCapture
import LandscapeKit.FrontendApply
import LandscapeKit.LibInterrupt
import LandscapeKit.ServiceResolv
import LandscapeKit.ServiceResolvUndo
import LandscapeKit.DaemonOutput
import LandscapeKit.DaemonRelay
import LandscapeKit.ReleaseDownload
import LandscapeKit.ReleaseDelivery
import LandscapeKit.LibSemver
import LandscapeKit.SelfUpgrade
import LandscapeKit.CheckPorts
import LandscapeKit.CheckAgree
import LandscapeKit.DaemonPidfile
import LandscapeKit.DaemonUnique
import LandscapeKit.ServiceDefinitions
import LandscapeKit.ServiceTampered
import LandscapeKit.HostnetAccount
import LandscapeKit.ReleasePublished
