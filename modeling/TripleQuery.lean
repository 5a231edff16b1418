import TripleQuery.Codec.Config
import TripleQuery.Codec.Data
import TripleQuery.Dataset.Graphs
import TripleQuery.Dataset.Memory
import TripleQuery.Exec.Query
import TripleQuery.Exec.Realizers
import TripleQuery.Exec.SharedSeed
import TripleQuery.Json.Parser
import TripleQuery.Json.Printer
import TripleQuery.Op.Tree
import TripleQuery.Proofs.Answers.JoinOrder
import TripleQuery.Proofs.Answers.Patterns
import TripleQuery.Proofs.Answers.Seeding
import TripleQuery.Proofs.Solutions.Sorting
import TripleQuery.Proofs.Answers.Sorting
import TripleQuery.Proofs.Solutions.Graphs
import TripleQuery.Proofs.Answers.Graphs
import TripleQuery.Proofs.Pipe.Ledger
import TripleQuery.Proofs.Pipe.Handover
import TripleQuery.Proofs.Answers.Refusal
import TripleQuery.Proofs.Answers.Sessions
import TripleQuery.Proofs.Pipe.Alike
import TripleQuery.Proofs.Pipe.Blocking
import TripleQuery.Proofs.Pipe.Heard
import TripleQuery.Proofs.Pipe.Lockstep
import TripleQuery.Proofs.Answers.Hearing
import TripleQuery.Proofs.Answers.Ending
import TripleQuery.Proofs.Answers.Faults
import TripleQuery.Proofs.Pipe.Replies
import TripleQuery.Proofs.Answers.Limits
import TripleQuery.Proofs.Answers.SingleUse
import TripleQuery.Proofs.Answers.Registration
import TripleQuery.Proofs.Answers.Replay
import TripleQuery.Proofs.Pipe.Confined
import TripleQuery.Proofs.Answers.Scoping
import TripleQuery.Proofs.Solutions.Growth
import TripleQuery.Proofs.Answers.Growth
import TripleQuery.Proofs.Pipe.Counters
import TripleQuery.Proofs.Answers.Reporting
import TripleQuery.Proofs.Pipe.Surplus
import TripleQuery.Proofs.Pipe.Sifting
import TripleQuery.Proofs.Answers.Selectivity
import TripleQuery.Proofs.Binding.Clash
import TripleQuery.Proofs.Expr.Stability
import TripleQuery.Proofs.Expr.Comparison
import TripleQuery.Proofs.Expr.Integers
import TripleQuery.Proofs.Expr.SortOrder
import TripleQuery.Proofs.Solutions.Within
import TripleQuery.Proofs.Pipe.Yield
import TripleQuery.Proofs.Answers.Extent
import TripleQuery.Proofs.Dataset.Insertions
import TripleQuery.Proofs.Answers.Stores
import TripleQuery.Proofs.Answers.Tracking
import TripleQuery.Proofs.Answers.Slicing
import TripleQuery.Proofs.Answers.Draining
import TripleQuery.Proofs.Answers.Buffering
import TripleQuery.Proofs.Expr.Connectives
import TripleQuery.Proofs.Codec.Lossless
