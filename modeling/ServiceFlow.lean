import ServiceFlow.Cli.Command
import ServiceFlow.Cli.Flag
import ServiceFlow.Cli.Host
import ServiceFlow.Cli.Run
import ServiceFlow.Closure
import ServiceFlow.Config.Basic
import ServiceFlow.Config.File
import ServiceFlow.Distinct
import ServiceFlow.Ir.Class
import ServiceFlow.Ir.Codec
import ServiceFlow.Ir.Signature
import ServiceFlow.Ir.Statement
import ServiceFlow.Json.Basic
import ServiceFlow.Json.Decode
import ServiceFlow.Json.Reader
import ServiceFlow.Json.Writer
import ServiceFlow.Load.Call
import ServiceFlow.Load.Target
import ServiceFlow.Main
import ServiceFlow.Point
import ServiceFlow.Program.CallGraph
import ServiceFlow.Program.CallSite
import ServiceFlow.Program.Pool
import ServiceFlow.Program.ScopeError
import ServiceFlow.Program.Supergraph
import ServiceFlow.Program.View
import ServiceFlow.Propagation.Flow
import ServiceFlow.Propagation.LibraryCall
import ServiceFlow.Propagation.Run
import ServiceFlow.Propagation.Transfer
import ServiceFlow.Resolve.Analysis
import ServiceFlow.Resolve.Batch
import ServiceFlow.Resolve.CallerSearch
import ServiceFlow.Resolve.Codec
import ServiceFlow.Resolve.Outer
import ServiceFlow.Resolve.Report
import ServiceFlow.Resolve.Session
import ServiceFlow.Resolve.Memo
import ServiceFlow.Sorted
import ServiceFlow.Tabulation.Problem
import ServiceFlow.Tabulation.Solver
import ServiceFlow.Tabulation.Stateful
import ServiceFlow.Tabulation.Tabular
import ServiceFlow.Text.Decimal
import ServiceFlow.Text.Digits
import ServiceFlow.Text.Quoted
import ServiceFlow.Text.Visible
import ServiceFlow.Value.Basic
import ServiceFlow.Value.ClassLiteral
import ServiceFlow.Value.Codec
import ServiceFlow.Value.Store
import ServiceFlow.Yaml.Cursor
import ServiceFlow.Yaml.Decode
import ServiceFlow.Yaml.Document
import ServiceFlow.Yaml.Node
import ServiceFlow.Yaml.Scalar
import ServiceFlow.Yaml.Token
import ServiceFlow.Yaml.Word
import ServiceFlow.Proofs.Tabulation.Configuration
import ServiceFlow.Proofs.Tabulation.Growth
import ServiceFlow.Proofs.Tabulation.Evaluation
import ServiceFlow.Proofs.Tabulation.Soundness
import ServiceFlow.Proofs.Tabulation.Exactness
import ServiceFlow.Proofs.Closure
import ServiceFlow.Proofs.Lists
import ServiceFlow.Proofs.Program.Supergraph
import ServiceFlow.Proofs.Program.CallGraph
import ServiceFlow.Proofs.Propagation.Machine
import ServiceFlow.Proofs.Value.Store
import ServiceFlow.Proofs.Propagation.Run
import ServiceFlow.Proofs.Propagation.Description
import ServiceFlow.Proofs.Propagation.Simulation
import ServiceFlow.Proofs.Propagation.Builder
import ServiceFlow.Proofs.Resolve.CallerSearch
import ServiceFlow.Proofs.Resolve.Findings
import ServiceFlow.Proofs.Program.Pool
import ServiceFlow.Proofs.Resolve.Memo
import ServiceFlow.Proofs.Resolve.Groups
import ServiceFlow.Proofs.Resolve.Analysis
import ServiceFlow.Proofs.Resolve.Provenance
import ServiceFlow.Proofs.Resolve.Scope
import ServiceFlow.Proofs.Resolve.CallerRuns
import ServiceFlow.Proofs.Resolve.Independence
import ServiceFlow.Proofs.Json.Text
import ServiceFlow.Proofs.Resolve.Batch
import ServiceFlow.Proofs.Json.Decode
import ServiceFlow.Proofs.Ir.Codec
import ServiceFlow.Proofs.Value.Codec
import ServiceFlow.Proofs.Resolve.Codec
import ServiceFlow.Proofs.Program.Reordering
import ServiceFlow.Proofs.Propagation.Reordering
import ServiceFlow.Proofs.Resolve.CallerClosure
import ServiceFlow.Proofs.Resolve.Reordering
import ServiceFlow.Proofs.Program.Insertion
import ServiceFlow.Proofs.Propagation.Harvest
import ServiceFlow.Proofs.Propagation.Return
import ServiceFlow.Proofs.Propagation.Unfollowed
import ServiceFlow.Proofs.Resolve.CallerTrace
import ServiceFlow.Proofs.Tabulation.Stateful
import ServiceFlow.Proofs.Tabulation.Lockstep
import ServiceFlow.Proofs.Tabulation.Stability
import ServiceFlow.Proofs.Propagation.Bound
import ServiceFlow.Proofs.Tabulation.Consistency
import ServiceFlow.Proofs.Propagation.Footprint
import ServiceFlow.Proofs.Propagation.Monotone
import ServiceFlow.Proofs.Program.Dispatch
import ServiceFlow.Proofs.Program.Hierarchy
import ServiceFlow.Proofs.Program.Reachability
import ServiceFlow.Proofs.Program.Widening
import ServiceFlow.Proofs.Propagation.Straight
import ServiceFlow.Proofs.Program.LoadSite
import ServiceFlow.Proofs.Propagation.Completion
import ServiceFlow.Proofs.Resolve.BuiltName
import ServiceFlow.Proofs.Program.Forwarding
import ServiceFlow.Proofs.Propagation.Forwarding
import ServiceFlow.Proofs.Resolve.Forwarding
import ServiceFlow.Proofs.Resolve.FanOut
import ServiceFlow.Proofs.Resolve.RelayChain
import ServiceFlow.Proofs.Program.Nesting
import ServiceFlow.Proofs.Value.ClassLiteral
import ServiceFlow.Proofs.Value.Recipe
import ServiceFlow.Proofs.Propagation.Nesting
import ServiceFlow.Proofs.Resolve.Nesting
import ServiceFlow.Proofs.Yaml.Cursor
import ServiceFlow.Proofs.Yaml.Plain
import ServiceFlow.Proofs.Yaml.Quoted
import ServiceFlow.Proofs.Yaml.Escape
import ServiceFlow.Proofs.Yaml.Lines
import ServiceFlow.Proofs.Yaml.SingleQuoted
import ServiceFlow.Proofs.Yaml.Literal
import ServiceFlow.Proofs.Yaml.Token
import ServiceFlow.Proofs.Yaml.Document
import ServiceFlow.Proofs.Yaml.Decode
import ServiceFlow.Proofs.Config.File
import ServiceFlow.Proofs.Ir.Order
import ServiceFlow.Proofs.Value.Order
import ServiceFlow.Proofs.Program.Callers
import ServiceFlow.Proofs.Program.ClassSet
