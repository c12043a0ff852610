import ConfigBackup.GuardedRuns
import ConfigBackup.Models
import ConfigBackup.Retention
import ConfigBackup.KeptRevisions
import ConfigBackup.ExceptLoops
import ConfigBackup.RemoteRetention
import ConfigBackup.RemoteCleanup
import ConfigBackup.NewestCopies
import ConfigBackup.Repository
import ConfigBackup.RunLifecycle
import ConfigBackup.FinishedRuns
import ConfigBackup.LocalRetention
import ConfigBackup.RevisionDeletion
import ConfigBackup.LinkedHistory
import ConfigBackup.RevisionHistory
import ConfigBackup.ConnectedChain
import ConfigBackup.BackupPipeline
import ConfigBackup.RestorableBackups
import ConfigBackup.DestinationPaths
import ConfigBackup.DestinationEdits
import ConfigBackup.Replication
import ConfigBackup.ReplicaSystem
import ConfigBackup.ReachableCopies
import ConfigBackup.PermanentTombstones
import ConfigBackup.BackupDispatch
import ConfigBackup.CalendarOrder
import ConfigBackup.SelectionRules
import ConfigBackup.RetentionPaths
import ConfigBackup.RetryBudget
import ConfigBackup.RowLocks
import ConfigBackup.HostKeys
import ConfigBackup.DriverSettings
import ConfigBackup.Transactions
import ConfigBackup.LocalStorage
import ConfigBackup.PipelineStorage
import ConfigBackup.StagedDeletion
import ConfigBackup.LocalDeletions
import ConfigBackup.TargetDeletion
import ConfigBackup.CredentialCipher
import ConfigBackup.MasterKeyRotation
import ConfigBackup.PosixPaths
import ConfigBackup.Requests
import ConfigBackup.S3Storage
import ConfigBackup.RecordedPaths
import ConfigBackup.RemoteFileNames
import ConfigBackup.RevisionFiles
import ConfigBackup.IntegrityAudit
import ConfigBackup.FileTrees
import ConfigBackup.FtpServer
import ConfigBackup.FtpListings
import ConfigBackup.FtpDeletion
import ConfigBackup.MountedDeletion
import ConfigBackup.FtpUpload
import ConfigBackup.CodePoints
import ConfigBackup.RevisionDisplay
import ConfigBackup.RenderedDiff
import ConfigBackup.JoinedLines
import ConfigBackup.CeragonDumps
import ConfigBackup.ArchiveSafety
import ConfigBackup.CappedPlan
import ConfigBackup.RunPlan
import ConfigBackup.StorageKeys
import ConfigBackup.AuditScheduling
import ConfigBackup.NextRuns
import ConfigBackup.SearchPatterns
import ConfigBackup.SecretPatterns
import ConfigBackup.SecretStatements
import ConfigBackup.KeyPatterns
import ConfigBackup.TextRedaction
import ConfigBackup.TransfersInFlight
import ConfigBackup.DeviceSegments
import ConfigBackup.DeviceSegments
import ConfigBackup.JsonText
import ConfigBackup.JsonDocuments
import ConfigBackup.RacomRedaction
import ConfigBackup.JsonValues
import ConfigBackup.JsonText
import ConfigBackup.JsonDocuments
import ConfigBackup.RacomRedaction
import ConfigBackup.ResumableLoops
import ConfigBackup.CeragonBackfill
import ConfigBackup.BackfillFlags
import ConfigBackup.BackfillRestart
import ConfigBackup.RecoveryArchive
import ConfigBackup.RecoveryPackages
import ConfigBackup.BackfilledCopies
import ConfigBackup.Workers
import ConfigBackup.MountedUpload
import ConfigBackup.SharedMount
import ConfigBackup.ManifestRecognition
import ConfigBackup.AuditedUploads
import ConfigBackup.RepeatedUploads
import ConfigBackup.StorageMigration
