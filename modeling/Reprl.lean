import Reprl.Value.Inspect
import Reprl.Main
import Reprl.Proofs.Outcome
import Reprl.Proofs.Heap
import Reprl.Proofs.Scope
import Reprl.Proofs.Number.Exact
import Reprl.Proofs.Number.Word
import Reprl.Proofs.Number.Reading
import Reprl.Proofs.Stream.Atoms
import Reprl.Proofs.Stream.Written
import Reprl.Proofs.Stream.Printed
import Reprl.Proofs.Channel
import Reprl.Proofs.Coverage.History
import Reprl.Proofs.Loop.Iteration
import Reprl.Proofs.Loop.Serving
import Reprl.Proofs.Machine.Lockstep
import Reprl.Proofs.Machine.Tandem
import Reprl.Proofs.Machine.Levels
import Reprl.Proofs.Machine.Appended
import Reprl.Proofs.Machine.Join
import Reprl.Proofs.Text.Utf8
import Reprl.Proofs.Text.Escape
import Reprl.Proofs.Loop.Isolation
import Reprl.Proofs.Loop.FullOutput
import Reprl.Proofs.Value.Index
import Reprl.Proofs.Coverage.Repeat
import Reprl.Proofs.Value.ArrayObject
import Reprl.Proofs.Value.Elements
import Reprl.Proofs.Value.Contents
import Reprl.Proofs.Source.Parts
import Reprl.Proofs.Stream.Chunks
import Reprl.Proofs.Stream.Delivery
import Reprl.Proofs.Stream.Pending
import Reprl.Proofs.Intrinsic.Host
import Reprl.Proofs.Intrinsic.Print
import Reprl.Proofs.Discipline.Basic
import Reprl.Proofs.Discipline.Primitive
import Reprl.Proofs.Discipline.Conversion
import Reprl.Proofs.Discipline.Expression
import Reprl.Proofs.Discipline.Statement
import Reprl.Proofs.Discipline.Call
import Reprl.Proofs.Discipline.Congruence
import Reprl.Proofs.Policy.Basic
import Reprl.Proofs.Policy.Abides
import Reprl.Proofs.Policy.Spelling
import Reprl.Proofs.Policy.Rooted
import Reprl.Proofs.Policy.Unfuzzed
import Reprl.Proofs.Machine.Beside
import Reprl.Proofs.Machine.Revision
import Reprl.Proofs.Jobs.Enqueues
import Reprl.Proofs.Jobs.History
import Reprl.Proofs.Source.Depth
import Reprl.Proofs.Source.Nesting
import Reprl.Proofs.Source.MemberChain
import Reprl.Proofs.Source.Sequence
import Reprl.Proofs.Dialect.Agrees
import Reprl.Proofs.Dialect.Primitive
import Reprl.Proofs.Dialect.Script
import Reprl.Proofs.Dialect.Ending
import Reprl.Proofs.Support.Case
import Reprl.Proofs.Source.Gives
import Reprl.Proofs.Support.Cleared
import Reprl.Proofs.Support.Expression
import Reprl.Proofs.Support.Script
import Reprl.Proofs.Machine.Hoisting
import Reprl.Proofs.Machine.Character
import Reprl.Proofs.Machine.Equality
import Reprl.Proofs.Number.Shortest
import Reprl.Proofs.Number.Text
import Reprl.Proofs.Source.Boundary
import Reprl.Proofs.Source.Positions
import Reprl.Machine.Handles
import Reprl.Proofs.Memory.Graph
import Reprl.Proofs.Memory.Handles
import Reprl.Proofs.Memory.Teardown
import Reprl.Proofs.Source.Estimate
import Reprl.Proofs.Source.Sound
