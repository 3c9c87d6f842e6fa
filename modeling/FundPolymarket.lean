import FundPolymarket.RelativeError
import FundPolymarket.DecimalRounding
import FundPolymarket.DecimalContext
import FundPolymarket.DecimalQuotients
import FundPolymarket.Apportionment
import FundPolymarket.Tally
import FundPolymarket.SlidingWindow
import FundPolymarket.KeyedBatch
import FundPolymarket.Redaction
import FundPolymarket.Table
import FundPolymarket.Session
import FundPolymarket.PythonValues
import FundPolymarket.PythonTime
import FundPolymarket.Enums
import FundPolymarket.Consensus
import FundPolymarket.Parimutuel
import FundPolymarket.Payouts
import FundPolymarket.PayoutLaws
import FundPolymarket.Probabilities
import FundPolymarket.Verdict
import FundPolymarket.Distribution
import FundPolymarket.Models
import FundPolymarket.Flush
import FundPolymarket.Brokers
import FundPolymarket.KisClient
import FundPolymarket.KisBroker
import FundPolymarket.MarketService
import FundPolymarket.Scoring
import FundPolymarket.DecisionGate
import FundPolymarket.Settlement
import FundPolymarket.Risk
import FundPolymarket.Execution
import FundPolymarket.Scheduler
import FundPolymarket.Api
import FundPolymarket.Views
import FundPolymarket.Requests
import FundPolymarket.Runs
import FundPolymarket.Thresholds
import FundPolymarket.Effects
import FundPolymarket.Lifecycle
import FundPolymarket.WellFormed
import FundPolymarket.Approval
import FundPolymarket.RiskGate
import FundPolymarket.DailyCap
import FundPolymarket.Holdings
import FundPolymarket.MockTrades
import FundPolymarket.Accounts
import FundPolymarket.Reallocation
import FundPolymarket.Solvency
import FundPolymarket.StoredStakes
import FundPolymarket.Acceptance
import FundPolymarket.Resubmission
import FundPolymarket.Returns
import FundPolymarket.Snapshot
import FundPolymarket.Escrow
import FundPolymarket.Conservation
import FundPolymarket.Isolation
import FundPolymarket.Resumption
import FundPolymarket.ShownPayouts
import FundPolymarket.DueWork
import FundPolymarket.RowOrders
import FundPolymarket.Balances
import FundPolymarket.BrierScores
import FundPolymarket.BalanceViews
import FundPolymarket.PositionSync
import FundPolymarket.PositionMirror
import FundPolymarket.KisTokens
import FundPolymarket.KisErrors
import FundPolymarket.TokenCache
import FundPolymarket.Hiding
import FundPolymarket.Interleaving
import FundPolymarket.Jobs
import FundPolymarket.ClosingRaces
import FundPolymarket.OrderRaces
import FundPolymarket.AllocationRaces
import FundPolymarket.FreezeRaces
import FundPolymarket.Tasks
import FundPolymarket.AuditTrail
import FundPolymarket.ForeignKeys
import FundPolymarket.LedgerRules
import FundPolymarket.MemberAccounts
import FundPolymarket.Security
import FundPolymarket.Logins
import FundPolymarket.Authority
import FundPolymarket.Logged
import FundPolymarket.Wire
import FundPolymarket.Factory
import FundPolymarket.LiveLock
import FundPolymarket.TokenGrants
import FundPolymarket.ByHand
import FundPolymarket.TradingHours
import FundPolymarket.StandingBets
import FundPolymarket.WireOrders
import FundPolymarket.LooserLimits
import FundPolymarket.QuadraticScore
import FundPolymarket.HonestBets
import FundPolymarket.AdminPanel
import FundPolymarket.Seed
