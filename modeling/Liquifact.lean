import Liquifact.Audit.AuditLog
import Liquifact.Audit.CsvExport
import Liquifact.Audit.Redaction
import Liquifact.Config.ApiKeyRoundTrip
import Liquifact.Contracts.BountySolvency
import Liquifact.Workers.Delivery
import Liquifact.Workers.Replay
import Liquifact.Workers.RoundTrip
import Liquifact.Jobs.NeverEarly
import Liquifact.Jobs.IndexerCycle
import Liquifact.Jobs.EventLog
import Liquifact.Jobs.ConcurrentIndexers
import Liquifact.Marketplace.Completeness
import Liquifact.Marketplace.CursorExactness
import Liquifact.Escrow.EscrowRead
import Liquifact.Invest.Recording
import Liquifact.Utils.CircuitBreaker
import Liquifact.Utils.Sanitization
import Liquifact.Utils.Resanitizing
import Liquifact.Invest.ConcurrentCommitments
import Liquifact.Invoices.TenantIsolation
import Liquifact.Invoices.LockedStatus
import Liquifact.Invoices.SoftDeletion
import Liquifact.Invoices.V1Runs
import Liquifact.Retention.HoldRaces
import Liquifact.Retention.AuditTrail
import Liquifact.Retention.Backlog
import Liquifact.Retention.ExecutionRecord
import Liquifact.Jobs.ReminderJobs
import Liquifact.Cache.TtlLru
import Liquifact.Cache.ResponseCache
import Liquifact.Cache.ResponseKeys
import Liquifact.Tokens.TokenMeta
import Liquifact.Tokens.Sources
import Liquifact.Tokens.ResolveMany
import Liquifact.Soroban.FootprintCache
import Liquifact.Escrow.EscrowMap
import Liquifact.Invest.InvestService
import Liquifact.Webhooks.DeadLetters
import Liquifact.Contracts.BountyPayout
import Liquifact.Workers.DequeueLoop
import Liquifact.Workers.Pruning
import Liquifact.Workers.PayloadFingerprint
import Liquifact.Workers.TxSubmitter
import Liquifact.Workers.Shutdown
import Liquifact.Jobs.TieBreak
import Liquifact.Workers.DurableJobQueue
import Liquifact.Jobs.ReconcileEscrow
import Liquifact.Jobs.IndexedReads
import Liquifact.Jobs.IdempotencyPurge
import Liquifact.Jobs.ContractListRefresh
import Liquifact.Kyc.KycService
import Liquifact.Kyc.KycIngest
import Liquifact.Middleware.ApiKeyAuth
import Liquifact.Webhooks.DeadLetterTable
import Liquifact.Webhooks.VerifySignature
import Liquifact.Webhooks.AttemptRecord
import Liquifact.Soroban.RetryLoop
import Liquifact.Soroban.SorobanCalls
import Liquifact.Utils.BackoffCeilings
import Liquifact.Jobs.InvoiceIdentity
import Liquifact.Invest.InvoiceMemo
import Liquifact.Invest.InvestorLocks
import Liquifact.Invest.LockRoutes
import Liquifact.Escrow.DerivedFields
import Liquifact.Escrow.SummaryFreshness
import Liquifact.Retention.HoldChecks
import Liquifact.Retention.HoldRoutes
import Liquifact.Retention.HoldRuns
import Liquifact.Retention.DryRun
import Liquifact.Storage.StorageKeys
import Liquifact.Invest.OpportunityPages
import Liquifact.Escrow.RunningReads
