import Resumable.Analysis
import Resumable.Assembly.Body
import Resumable.Assembly.Build
import Resumable.Assembly.Cursor
import Resumable.Assembly.Failure
import Resumable.Assembly.Grammar
import Resumable.Assembly.Listing
import Resumable.Code.Insn
import Resumable.Code.Kind
import Resumable.Code.Program
import Resumable.CommandLine.Arguments
import Resumable.CommandLine.Invocation
import Resumable.CommandLine.Outcome
import Resumable.CommandLine.Run
import Resumable.Coroutine.Basic
import Resumable.Coroutine.Engine
import Resumable.Coroutine.Storage
import Resumable.Decimal.Binary
import Resumable.Decimal.Layout
import Resumable.Decimal.Reading
import Resumable.Decimal.Remainder
import Resumable.Decimal.Shortest
import Resumable.Descriptor
import Resumable.Directory
import Resumable.EnvFile
import Resumable.Flow
import Resumable.Frame.Basic
import Resumable.Frame.Effect
import Resumable.Frame.Merge
import Resumable.Heap.Basic
import Resumable.Heap.Literal
import Resumable.Heap.Text
import Resumable.Hierarchy
import Resumable.Ini
import Resumable.Instrument
import Resumable.Intrinsics
import Resumable.Json.Basic
import Resumable.Json.Decode
import Resumable.Json.Held
import Resumable.Json.Number
import Resumable.Json.Printer
import Resumable.Json.Reader
import Resumable.Json5
import Resumable.Machine.Activation
import Resumable.Machine.Arithmetic
import Resumable.Machine.Basic
import Resumable.Machine.Fault
import Resumable.Machine.Instruction
import Resumable.Machine.Library
import Resumable.Machine.Native
import Resumable.Machine.Step
import Resumable.Main
import Resumable.Model.Code
import Resumable.Model.Report
import Resumable.Model.Table
import Resumable.Proofs.Agreement
import Resumable.Proofs.Assembled
import Resumable.Proofs.Atomicity
import Resumable.Proofs.Casts
import Resumable.Proofs.Clipping
import Resumable.Proofs.Companion
import Resumable.Proofs.Conformance
import Resumable.Proofs.Coverage
import Resumable.Proofs.Effects
import Resumable.Proofs.Following
import Resumable.Proofs.Footprint
import Resumable.Proofs.Operations
import Resumable.Proofs.Found
import Resumable.Proofs.Frames
import Resumable.Proofs.FreshPath
import Resumable.Proofs.Handlers
import Resumable.Proofs.Held
import Resumable.Proofs.Hiding
import Resumable.Proofs.Hygiene
import Resumable.Proofs.Injected
import Resumable.Proofs.Instrumented
import Resumable.Proofs.Labels
import Resumable.Proofs.Layout
import Resumable.Proofs.Level
import Resumable.Proofs.Numbering
import Resumable.Proofs.Operands
import Resumable.Proofs.Passing
import Resumable.Proofs.Receiver
import Resumable.Proofs.Regions
import Resumable.Proofs.RoundTrip
import Resumable.Proofs.Run
import Resumable.Proofs.Running
import Resumable.Proofs.Safe
import Resumable.Proofs.Saving
import Resumable.Proofs.Segment
import Resumable.Proofs.Settled
import Resumable.Proofs.Ancestors
import Resumable.Proofs.WorkList
import Resumable.Proofs.Joins
import Resumable.Proofs.Solution
import Resumable.Proofs.Heights
import Resumable.Proofs.Termination
import Resumable.Proofs.Directives
import Resumable.Proofs.Endless
import Resumable.Proofs.Simulation
import Resumable.Proofs.Staged
import Resumable.Proofs.Staging
import Resumable.Proofs.Stored
import Resumable.Proofs.Taken
import Resumable.Proofs.Tracks
import Resumable.Proofs.Twins
import Resumable.Proofs.Work
import Resumable.RestorePoint
import Resumable.Ron
import Resumable.Scenario.Action
import Resumable.Scenario.Play
import Resumable.Settings.Basic
import Resumable.Settings.Format
import Resumable.Settings.Layer
import Resumable.Settings.Value
import Resumable.Text.Blank
import Resumable.Text.Hex
import Resumable.Text.Letter
import Resumable.Text.Quoted
import Resumable.Text.Ranges
import Resumable.Text.Unprintable
import Resumable.Toml.Basic
import Resumable.Toml.Quotation
import Resumable.Toml.Reader
import Resumable.Toml.Scalar
import Resumable.Toml.Time
import Resumable.Value
import Resumable.Weave.Access
import Resumable.Weave.Blocks
import Resumable.Weave.Method
import Resumable.Weave.Region
import Resumable.Weave.Site
import Resumable.Yaml.Cursor
import Resumable.Yaml.Node
import Resumable.Yaml.Reader
import Resumable.Yaml.Scalar
import Resumable.Yaml.Token
import Resumable.Yaml.Token.Lexer
import Resumable.Proofs.FrameEffects
import Resumable.Proofs.FramedBlocks
import Resumable.Proofs.FramedLayout
import Resumable.Proofs.WellFormed
import Resumable.Proofs.Thread
import Resumable.Proofs.Isolation
import Resumable.Proofs.MachineThread
import Resumable.Proofs.Growth
import Resumable.Proofs.Outcome
import Resumable.Proofs.Detours
import Resumable.Proofs.Reentry
import Resumable.Proofs.WovenRun
import Resumable.Proofs.Semilattice
import Resumable.Proofs.Monotone
import Resumable.Proofs.Least
import Resumable.Proofs.Literals
import Resumable.Proofs.Refusals
import Resumable.Proofs.Stale
import Resumable.Proofs.Totality
import Resumable.Proofs.Selection
import Resumable.Proofs.Dispatch
import Resumable.Proofs.Deferral
import Resumable.Proofs.Outside
import Resumable.Proofs.Muting
import Resumable.Proofs.Chains
import Resumable.Proofs.Unwinding
import Resumable.Proofs.Suspension
import Resumable.Proofs.Driving
import Resumable.Proofs.Transparency
import Resumable.Proofs.Innermost
import Resumable.Proofs.Remains
import Resumable.Proofs.Rendering
import Resumable.Proofs.Exclusions
import Resumable.Proofs.Holding
import Resumable.Proofs.Rejection
import Resumable.Proofs.Assignability
import Resumable.Proofs.DescriptorBytes
import Resumable.Proofs.WellAssembled
import Resumable.Proofs.StoredForm
import Resumable.Proofs.CompanionMark
import Resumable.Proofs.Oracles
import Resumable.Proofs.RequiredLocals
import Resumable.Proofs.Spellings
import Resumable.Proofs.PrintedLines
import Resumable.Proofs.PrintedClasses
import Resumable.Proofs.Rereading
import Resumable.Proofs.Relisting
import Resumable.Proofs.ParsedPrograms
import Resumable.Proofs.ParsedSources
import Resumable.Proofs.ListedSources
