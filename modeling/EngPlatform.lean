import EngPlatform.Lib.Prog
import EngPlatform.Lib.Cas
import EngPlatform.LogBudget.Record
import EngPlatform.LogBudget.WellFormed
import EngPlatform.LogBudget.Ledger
import EngPlatform.LogBudget.Transforms
import EngPlatform.LogBudget.Budget
import EngPlatform.LogBudget.Fifo
import EngPlatform.Release.Record
import EngPlatform.Release.Build
import EngPlatform.Release.Store
import EngPlatform.Release.Terminal
import EngPlatform.Release.Planner
import EngPlatform.Release.World
import EngPlatform.Release.Submission
import EngPlatform.Release.Reconciler
import EngPlatform.Release.Events
import EngPlatform.Release.Orchestrator
import EngPlatform.Release.Contract
import EngPlatform.Release.Rules
import EngPlatform.Release.Kept
import EngPlatform.Release.Callers
import EngPlatform.Release.Supersede
import EngPlatform.Release.Evidence
import EngPlatform.Release.Cancel
import EngPlatform.Release.Completion
import EngPlatform.Circuit.Record
import EngPlatform.Circuit.Operations
import EngPlatform.Circuit.Runs
import EngPlatform.Circuit.Alerts
import EngPlatform.Circuit.Probes
import EngPlatform.Release.Reservation
import EngPlatform.Release.Tokens
import EngPlatform.Lib.Yields
import EngPlatform.Release.Desk
import EngPlatform.Release.Retry
import EngPlatform.Release.Visible
import EngPlatform.Lib.Asks
import EngPlatform.Database.Record
import EngPlatform.Database.Requests
import EngPlatform.Database.Jobs
import EngPlatform.Database.Effects
import EngPlatform.Database.World
import EngPlatform.Database.Contract
import EngPlatform.Database.Durable
import EngPlatform.Mcp.Provider
import EngPlatform.Mcp.World
import EngPlatform.Mcp.Contract
import EngPlatform.Mcp.Family
import EngPlatform.Quality.Evidence
import EngPlatform.Quality.Immutable
import EngPlatform.Quality.Replicas
import EngPlatform.Lib.Acts
import EngPlatform.Database.Control
import EngPlatform.Database.Workers
import EngPlatform.Database.Lifecycle
import EngPlatform.Lib.Totals
import EngPlatform.Database.Budgets
import EngPlatform.Lib.Solo
import EngPlatform.Executor.Commands
import EngPlatform.Executor.Deployments
import EngPlatform.Executor.World
import EngPlatform.Executor.Facts
import EngPlatform.Executor.Grants
import EngPlatform.Executor.Restoration
import EngPlatform.Authorization.Tickets
import EngPlatform.Billing.CostAlerts
import EngPlatform.Releases.Registry
import EngPlatform.Releases.Store
import EngPlatform.Usage.Ledger
import EngPlatform.Usage.Sweeps
import EngPlatform.Deployment.Backends
import EngPlatform.Release.Listing
import EngPlatform.Deployment.Callbacks
import EngPlatform.Deployment.Overwrites
import EngPlatform.Deployment.Attribution
import EngPlatform.Sorting.Temporal
import EngPlatform.Xlsx.Sheets
import EngPlatform.Redaction.Payload
import EngPlatform.Sorting.Runs
import EngPlatform.Release.Attempts
import EngPlatform.Quality.Seal
import EngPlatform.Quality.Agreement
import EngPlatform.Secrets.Store
import EngPlatform.Secrets.Publishing
import EngPlatform.RuntimeLogs.Caches
import EngPlatform.RuntimeLogs.Revocation
import EngPlatform.Lib.Waterfill
import EngPlatform.RuntimeLogs.Bounding
import EngPlatform.Lib.Pieces
import EngPlatform.Usage.Months
import EngPlatform.Quality.Commits
import EngPlatform.Lib.Newlines
import EngPlatform.Quality.ChangedLines
import EngPlatform.Quality.Differential
import EngPlatform.Redaction.Noninterference
import EngPlatform.Lib.Groups
import EngPlatform.Billing.Export
import EngPlatform.Billing.Comparison
import EngPlatform.Billing.Coverage
import EngPlatform.Billing.DailyCosts
import EngPlatform.Sql.Admission
import EngPlatform.Sql.Scopes
import EngPlatform.Lib.JsonText
import EngPlatform.Results.Capture
import EngPlatform.Results.ReadBack
import EngPlatform.Sorting.Records
import EngPlatform.Sorting.Stable
import EngPlatform.Sorting.Rows
import EngPlatform.Executor.Jobs
import EngPlatform.Executor.Schedules
import EngPlatform.Mcp.Consent
import EngPlatform.Mcp.ConsentFlow
import EngPlatform.Mcp.CodeLineage
