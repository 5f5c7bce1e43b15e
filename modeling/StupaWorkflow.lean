import StupaWorkflow.OAuthRuns
import StupaWorkflow.MembershipRuns
import StupaWorkflow.InvoiceToken
import StupaWorkflow.BackupArchive
import StupaWorkflow.FileStore
import StupaWorkflow.DraftRuns
import StupaWorkflow.MinutesRuns
import StupaWorkflow.Finalization
import StupaWorkflow.TicketsRuns
import StupaWorkflow.ConfigRevert
import StupaWorkflow.FlowMigration
import StupaWorkflow.SubmissionLocks
import StupaWorkflow.MagicLinkLifecycle
import StupaWorkflow.SessionTokens
import StupaWorkflow.BackupRestore
import StupaWorkflow.ProtocolReadBack
import StupaWorkflow.AllocationLocks
import StupaWorkflow.MergeChains
import StupaWorkflow.AccountMergeRules
import StupaWorkflow.GuestVotesRuns
import StupaWorkflow.CalloutReadBack
import StupaWorkflow.TreeCalendar
import StupaWorkflow.TreeUndo
import StupaWorkflow.TreeFreeze
import StupaWorkflow.GuardLanguage
import StupaWorkflow.VoteStateExits
import StupaWorkflow.VoteRemoval
import StupaWorkflow.SeatRuns
import StupaWorkflow.AuditTamper
import StupaWorkflow.MeetingVotes
import StupaWorkflow.KeeperPeriods
import StupaWorkflow.VoteSnapshot
import StupaWorkflow.CastGate
import StupaWorkflow.ReloadView
import StupaWorkflow.PrivacyReport
import StupaWorkflow.SeatElections
import StupaWorkflow.PollRanking
import StupaWorkflow.StoredBallots
import StupaWorkflow.JsonLogicAgreement
import StupaWorkflow.FormPromotion
import StupaWorkflow.FormSections
import StupaWorkflow.FlowFailures
import StupaWorkflow.BudgetRollup
import StupaWorkflow.BudgetShares
import StupaWorkflow.VoteReplacement
import StupaWorkflow.TodoMoves
import StupaWorkflow.AltchaFailures
import StupaWorkflow.VerificationLog
import StupaWorkflow.RateLimits
import StupaWorkflow.DeadlineTicks
import StupaWorkflow.AttendanceMatrix
import StupaWorkflow.NameErasure
import StupaWorkflow.InvoiceHeader
