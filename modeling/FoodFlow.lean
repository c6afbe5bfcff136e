import FoodFlow.LTS.Basic
import FoodFlow.LTS.Repeats
import FoodFlow.Python.Float
import FoodFlow.Sql.Table
import FoodFlow.Sql.Types
import FoodFlow.Sql.Tx
import FoodFlow.Sql.Node
import FoodFlow.Sql.ReadCommitted
import FoodFlow.Sql.Claim
import FoodFlow.Sql.Savepoint
import FoodFlow.Sql.Serial
import FoodFlow.Sql.Deadlock
import FoodFlow.Crypto.Sha256
import FoodFlow.Limiter.Windows
import FoodFlow.Shared.Events
import FoodFlow.Shared.Http
import FoodFlow.Shared.Mail
import FoodFlow.Shared.Post
import FoodFlow.Shared.Locking
import FoodFlow.Shared.Relay
import FoodFlow.Shared.Drain
import FoodFlow.Shared.Stall
import FoodFlow.Shared.Lifespan
import FoodFlow.Shared.Consumer
import FoodFlow.Auth.Basic
import FoodFlow.Auth.Routes
import FoodFlow.Auth.Rotation
import FoodFlow.Auth.Lineage
import FoodFlow.Auth.Accounts
import FoodFlow.Auth.RateLimiter
import FoodFlow.Auth.SlidingWindow
import FoodFlow.Auth.Interleaved
import FoodFlow.Frontend.Session
import FoodFlow.Restaurant.Basic
import FoodFlow.Restaurant.Routes
import FoodFlow.Restaurant.Stock
import FoodFlow.Restaurant.Consumers
import FoodFlow.Restaurant.Decision
import FoodFlow.Restaurant.Conservation
import FoodFlow.Restaurant.Ranges
import FoodFlow.Restaurant.Verdicts
import FoodFlow.Restaurant.Isolation
import FoodFlow.Restaurant.Compensation
import FoodFlow.Restaurant.Serializability
import FoodFlow.Restaurant.Deadlock
import FoodFlow.Payment.Basic
import FoodFlow.Payment.Routes
import FoodFlow.Payment.Gateway
import FoodFlow.Payment.Consumers
import FoodFlow.Payment.Reconciliation
import FoodFlow.Payment.Outcome
import FoodFlow.Payment.Charging
import FoodFlow.Payment.Passes
import FoodFlow.Order.Basic
import FoodFlow.Order.StateMachine
import FoodFlow.Order.Routes
import FoodFlow.Order.Consumers
import FoodFlow.Order.Idempotency
import FoodFlow.Order.Locks
import FoodFlow.Order.Lifecycle
import FoodFlow.Order.Retries
import FoodFlow.Order.Access
import FoodFlow.Site.Access
import FoodFlow.Frontend.Cart
import FoodFlow.Saga.Duplicates
import FoodFlow.Saga.Redelivery
import FoodFlow.Saga.System
import FoodFlow.Saga.Consistency
import FoodFlow.Saga.Agreement
import FoodFlow.Saga.Quiescence
import FoodFlow.Saga.Fidelity
import FoodFlow.Saga.Schedules
import FoodFlow.Saga.Overselling
import FoodFlow.Saga.Refusals
import FoodFlow.Saga.Offsets
import FoodFlow.Saga.Recorded
import FoodFlow.Saga.Completion
import FoodFlow.Saga.Books
import FoodFlow.Saga.Answers
import FoodFlow.Saga.Deadlock
import FoodFlow.Frontend.Polling
