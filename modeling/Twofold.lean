import Twofold.Bytes
import Twofold.Chance.Draw
import Twofold.Chance.Generator
import Twofold.Chance.Keystream
import Twofold.Compile.Cell
import Twofold.Compile.Emit
import Twofold.Compile.Error
import Twofold.Compile.Program
import Twofold.Compile.StaticData
import Twofold.Compile.Support
import Twofold.Decimal.Layout
import Twofold.Decimal.Shortest
import Twofold.Eval
import Twofold.Expr
import Twofold.Expr.Free
import Twofold.Expr.Subst
import Twofold.Expr.Text
import Twofold.Failure
import Twofold.Json
import Twofold.Json.Token
import Twofold.Log
import Twofold.NameSet
import Twofold.Number
import Twofold.Primitive
import Twofold.Proofs.Agreement
import Twofold.Proofs.Allocation
import Twofold.Proofs.AlphaEquivalence
import Twofold.Proofs.Assignment
import Twofold.Proofs.Bytes
import Twofold.Proofs.Cells
import Twofold.Proofs.Checks
import Twofold.Proofs.CompileFailures
import Twofold.Proofs.ConstantFolding
import Twofold.Proofs.Construction
import Twofold.Proofs.CrossCheck
import Twofold.Proofs.Decoding
import Twofold.Proofs.Emission
import Twofold.Proofs.Environment
import Twofold.Proofs.EvalFailures
import Twofold.Proofs.Execution
import Twofold.Proofs.ExprText
import Twofold.Proofs.FailureText
import Twofold.Proofs.Framing
import Twofold.Proofs.FreeNames
import Twofold.Proofs.FreeSymbols
import Twofold.Proofs.FreeVariables
import Twofold.Proofs.Generation
import Twofold.Proofs.HeapInvariant
import Twofold.Proofs.HeapState
import Twofold.Proofs.Interning
import Twofold.Proofs.InventedNames
import Twofold.Proofs.JsonForms
import Twofold.Proofs.JsonText
import Twofold.Proofs.Limits
import Twofold.Proofs.Locality
import Twofold.Proofs.NumberLayouts
import Twofold.Proofs.NumberText
import Twofold.Proofs.Occurrences
import Twofold.Proofs.Outcomes
import Twofold.Proofs.Persistence
import Twofold.Proofs.Primitives
import Twofold.Proofs.Reader
import Twofold.Proofs.ResultDepth
import Twofold.Proofs.RoundTrip
import Twofold.Proofs.Rules
import Twofold.Proofs.ScopeCollisions
import Twofold.Proofs.ShortestDecimal
import Twofold.Proofs.Simulation
import Twofold.Proofs.StaticTexts
import Twofold.Proofs.SubstitutedNames
import Twofold.Proofs.Substitution
import Twofold.Proofs.SubstitutionSteps
import Twofold.Proofs.Symbols
import Twofold.Proofs.Tally
import Twofold.Proofs.Termination
import Twofold.Proofs.Trace
import Twofold.Proofs.TrialReports
import Twofold.Proofs.TrialRuns
import Twofold.Proofs.ValueText
import Twofold.Proofs.WatchedGeneration
import Twofold.Proofs.WellTyped
import Twofold.Reference.Fault
import Twofold.Reference.Heap
import Twofold.Reference.Run
import Twofold.Text.Blank
import Twofold.Trial.Check
import Twofold.Trial.Report
import Twofold.Trial.Run
import Twofold.Trial.Settings
import Twofold.Value
import Twofold.Wasm.Binary
import Twofold.Wasm.Instr
import Twofold.Wasm.Leb128
import Twofold.Wasm.Machine
import Twofold.Wasm.Memory
import Twofold.Wasm.Module
import Twofold.Wasm.Typing
