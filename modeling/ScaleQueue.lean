import ScaleQueue.Locking.Script
import ScaleQueue.Locking.Server
import ScaleQueue.Locking.Solo
import ScaleQueue.Locking.Held
import ScaleQueue.Locking.Serial
import ScaleQueue.Json
import ScaleQueue.Identity
import ScaleQueue.Redis
import ScaleQueue.Tables
import ScaleQueue.Store
import ScaleQueue.JobService
import ScaleQueue.Worker
import ScaleQueue.System
import ScaleQueue.Turns
import ScaleQueue.Change
import ScaleQueue.Life
import ScaleQueue.Generations
import ScaleQueue.Coverage
import ScaleQueue.Sessions
import ScaleQueue.Deliveries
import ScaleQueue.Fences
import ScaleQueue.Budget
import ScaleQueue.Audit
import ScaleQueue.Replay
import ScaleQueue.Rows
import ScaleQueue.Handles
import ScaleQueue.Acks
import ScaleQueue.Wakeups
import ScaleQueue.Upgrade
import ScaleQueue.Outbox
import ScaleQueue.Timely
import ScaleQueue.Delays
import ScaleQueue.Drain
import ScaleQueue.Paging
import ScaleQueue.Listings
import ScaleQueue.Rejections
import ScaleQueue.Attempts
import ScaleQueue.Scans
import ScaleQueue.Sweeps
import ScaleQueue.Requests
import ScaleQueue.ErrorMsg
import ScaleQueue.Logs
import ScaleQueue.Metrics
import ScaleQueue.Progress
import ScaleQueue.Easing
import ScaleQueue.Healing
import ScaleQueue.Simulation
import ScaleQueue.Queue
import ScaleQueue.Refinement
import ScaleQueue.Handlers
import ScaleQueue.Fates
import ScaleQueue.Completion
import ScaleQueue.ProcessJob
import ScaleQueue.Downgrade
import ScaleQueue.Pool
import ScaleQueue.Consumers
import ScaleQueue.Answers
import ScaleQueue.Browsing
import ScaleQueue.Zod
import ScaleQueue.Validation
import ScaleQueue.Http
import ScaleQueue.Emptying
import ScaleQueue.Flow
import ScaleQueue.Gauges
