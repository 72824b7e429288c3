import Pokerhub.Analytics.AuditLog
import Pokerhub.Analytics.ChipDumping
import Pokerhub.Analytics.ClickHouse
import Pokerhub.Analytics.CollusionJob
import Pokerhub.Analytics.Engagement
import Pokerhub.Analytics.Etl
import Pokerhub.Analytics.Evidence
import Pokerhub.Analytics.Review
import Pokerhub.Analytics.SharedValues
import Pokerhub.Auth.Revocation
import Pokerhub.Auth.Sessions
import Pokerhub.Auth.SingleUse
import Pokerhub.Auth.Stages
import Pokerhub.Core.CommitPoint
import Pokerhub.Core.Cursor
import Pokerhub.Core.DepthFirst
import Pokerhub.Core.Double
import Pokerhub.Core.FalsePosition
import Pokerhub.Core.FixedWindow
import Pokerhub.Core.Grouping
import Pokerhub.Core.Icm
import Pokerhub.Core.IdLog
import Pokerhub.Core.Journal
import Pokerhub.Core.Json
import Pokerhub.Core.KeyedSets
import Pokerhub.Core.Layers
import Pokerhub.Core.Levelling
import Pokerhub.Core.Maximum
import Pokerhub.Core.Numerals
import Pokerhub.Core.Observed
import Pokerhub.Core.OrderedMap
import Pokerhub.Core.Paging
import Pokerhub.Core.Positional
import Pokerhub.Core.Program
import Pokerhub.Core.Retransmit
import Pokerhub.Core.Rounding
import Pokerhub.Core.Rows
import Pokerhub.Core.SerialLog
import Pokerhub.Core.Service
import Pokerhub.Core.Shares
import Pokerhub.Core.SortedSet
import Pokerhub.Core.Stages
import Pokerhub.Core.Swaps
import Pokerhub.Core.Tally
import Pokerhub.Core.TaskQueue
import Pokerhub.Core.Together
import Pokerhub.Core.Transition
import Pokerhub.Core.UpdateFirst
import Pokerhub.Events.Delivery
import Pokerhub.Events.Publisher
import Pokerhub.Events.Stages
import Pokerhub.FeatureFlags.Flags
import Pokerhub.Frontend.BetSizing
import Pokerhub.Frontend.EmitWithAck
import Pokerhub.Game.Accounts
import Pokerhub.Game.AtMostOnce
import Pokerhub.Game.Authority
import Pokerhub.Game.Betting
import Pokerhub.Game.Chips
import Pokerhub.Game.Clock
import Pokerhub.Game.CommitReveal
import Pokerhub.Game.Deal
import Pokerhub.Game.Deck
import Pokerhub.Game.DuplicateAcks
import Pokerhub.Game.Engine
import Pokerhub.Game.Failover
import Pokerhub.Game.Follower
import Pokerhub.Game.FrameAcks
import Pokerhub.Game.Gateway
import Pokerhub.Game.HandResponses
import Pokerhub.Game.HandResults
import Pokerhub.Game.InlineQueue
import Pokerhub.Game.LogText
import Pokerhub.Game.OneEngine
import Pokerhub.Game.Primary
import Pokerhub.Game.Privacy
import Pokerhub.Game.Proof
import Pokerhub.Game.ProofBinding
import Pokerhub.Game.RateLimit
import Pokerhub.Game.Recovery
import Pokerhub.Game.Replay
import Pokerhub.Game.Replication
import Pokerhub.Game.Reservations
import Pokerhub.Game.RoomWorker
import Pokerhub.Game.Sanitize
import Pokerhub.Game.Settlement
import Pokerhub.Game.ShownPots
import Pokerhub.Game.SidePots
import Pokerhub.Game.Spectator
import Pokerhub.Game.State
import Pokerhub.Game.StateMachine
import Pokerhub.Game.Step
import Pokerhub.Game.Stream
import Pokerhub.Game.StreetPots
import Pokerhub.Game.Table
import Pokerhub.Game.TablePot
import Pokerhub.Game.TableStakes
import Pokerhub.Game.TwoHands
import Pokerhub.Game.VerifyProof
import Pokerhub.History.Pages
import Pokerhub.Kyc.Validate
import Pokerhub.Kyc.Verification
import Pokerhub.Leaderboard.Rating
import Pokerhub.Leaderboard.Rebuild
import Pokerhub.Leaderboard.Service
import Pokerhub.Notifications.Listener
import Pokerhub.Promotions.Claims
import Pokerhub.Shared.Classification
import Pokerhub.Shared.HandOrder
import Pokerhub.Shared.HandRank
import Pokerhub.Shared.Icm
import Pokerhub.Shared.IcmPayouts
import Pokerhub.Shared.ScoreOrder
import Pokerhub.Shared.Shuffle
import Pokerhub.Shared.StandardOrder
import Pokerhub.Shared.Verify
import Pokerhub.Tournament.Balancing
import Pokerhub.Tournament.Books
import Pokerhub.Tournament.Bubble
import Pokerhub.Tournament.BuyIns
import Pokerhub.Tournament.Calls
import Pokerhub.Tournament.EvenTables
import Pokerhub.Tournament.Levels
import Pokerhub.Tournament.MoveWindow
import Pokerhub.Tournament.Prizes
import Pokerhub.Tournament.Seating
import Pokerhub.Tournament.Service
import Pokerhub.Wallet.CardDeposits
import Pokerhub.Wallet.Chargebacks
import Pokerhub.Wallet.DailyLimit
import Pokerhub.Wallet.DepositLifecycle
import Pokerhub.Wallet.DoubleEntry
import Pokerhub.Wallet.Escrow
import Pokerhub.Wallet.HandLedger
import Pokerhub.Wallet.Idempotency
import Pokerhub.Wallet.IdempotencyKeys
import Pokerhub.Wallet.Ledger
import Pokerhub.Wallet.Legs
import Pokerhub.Wallet.Operations
import Pokerhub.Wallet.Payouts
import Pokerhub.Wallet.Postings
import Pokerhub.Wallet.Reconciliation
import Pokerhub.Wallet.Rejections
import Pokerhub.Wallet.RepositorySwap
import Pokerhub.Wallet.Requests
import Pokerhub.Wallet.Store
import Pokerhub.Wallet.Velocity
