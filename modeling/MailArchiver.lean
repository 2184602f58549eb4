import MailArchiver.Lib.Base64
import MailArchiver.Lib.Blocks
import MailArchiver.Lib.BoolQuery
import MailArchiver.Lib.Faults
import MailArchiver.Lib.Transition
import MailArchiver.Lib.Paging
import MailArchiver.Lib.Ranking
import MailArchiver.Lib.Table
import MailArchiver.Lib.Slots
import MailArchiver.Common.Bytes
import MailArchiver.Common.Crypto
import MailArchiver.Common.KnownAnswers
import MailArchiver.Common.SealedFormat
import MailArchiver.Common.Time
import MailArchiver.Common.Text
import MailArchiver.Common.Calendar
import MailArchiver.Common.Numerals
import MailArchiver.Common.Models
import MailArchiver.Common.Storage
import MailArchiver.Common.Fetch
import MailArchiver.Common.Collect
import MailArchiver.Common.Queue
import MailArchiver.Common.Schema
import MailArchiver.Common.Archive
import MailArchiver.ArchiverWorker.Parser
import MailArchiver.ArchiverWorker.Fingerprint
import MailArchiver.ArchiverWorker.Indexer
import MailArchiver.ArchiverWorker.Job
import MailArchiver.ArchiverWorker.Attachments
import MailArchiver.ArchiverWorker.Coverage
import MailArchiver.ArchiverWorker.Pipeline
import MailArchiver.ArchiverWorker.Alone
import MailArchiver.FetchWorker.Scan
import MailArchiver.RetentionWorker.Indices
import MailArchiver.RetentionWorker.Purge
import MailArchiver.RetentionWorker.FailedPurge
import MailArchiver.RetentionWorker.Retention
import MailArchiver.RetentionWorker.Backlog
import MailArchiver.RetentionWorker.Setting
import MailArchiver.Api.MailAccess
import MailArchiver.Api.Search
import MailArchiver.Api.Tampering
import MailArchiver.Api.SearchFilters
import MailArchiver.Api.SearchService
import MailArchiver.Api.Perimeter
import MailArchiver.Api.LegalHold
import MailArchiver.Api.Users
import MailArchiver.Api.NormalPerimeter
import MailArchiver.Api.Lockout
import MailArchiver.Api.Admins
import MailArchiver.Api.Sessions
import MailArchiver.Api.Credentials
import MailArchiver.Api.Installation
import MailArchiver.Api.FetchSources
import MailArchiver.Api.Restore
import MailArchiver.Api.Settings
import MailArchiver.Api.RestoreDestination
import MailArchiver.Api.Pagination
import MailArchiver.Api.RestoreConsumer
import MailArchiver.Api.PerimeterTransfer
import MailArchiver.Web.SearchView
import MailArchiver.System.MailFlow
import MailArchiver.System.SingleCopy
import MailArchiver.System.World
import MailArchiver.System.Transactions
import MailArchiver.System.Soundness
import MailArchiver.System.BodyFrame
import MailArchiver.System.SharedAttachments
import MailArchiver.System.ImmutableBodies
import MailArchiver.System.Export
import MailArchiver.System.EffectiveSettings
import MailArchiver.System.ExactlyOnce
import MailArchiver.System.Custody
import MailArchiver.System.IndexSoundness
import MailArchiver.System.SearchResults
import MailArchiver.System.LiveStreams
import MailArchiver.System.MessageView
import MailArchiver.System.PurgeJournal
import MailArchiver.System.Readers
import MailArchiver.System.Readings
import MailArchiver.System.Statistics
import MailArchiver.System.FoundMails
import MailArchiver.System.HeldMessages
import MailArchiver.System.Reprocessed
import MailArchiver.System.SerialRuns
import MailArchiver.System.RestoreJobs
import MailArchiver.System.FinishedJobs
import MailArchiver.System.RunningJobs
