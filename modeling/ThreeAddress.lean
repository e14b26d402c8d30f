import ThreeAddress.Lower.Module
import ThreeAddress.Proofs.Emission.Body
import ThreeAddress.Proofs.Emission.Step
import ThreeAddress.Proofs.Emission.Extends
import ThreeAddress.Proofs.Emission.Expr
import ThreeAddress.Proofs.Emission.Stmt
import ThreeAddress.Proofs.Emission.Function
import ThreeAddress.Proofs.Emission.Module
import ThreeAddress.Proofs.Semantics.Source
import ThreeAddress.Proofs.Semantics.Machine
import ThreeAddress.Proofs.SingleDefinition
import ThreeAddress.Proofs.ControlFlow.Blocks
import ThreeAddress.Proofs.ControlFlow.Dominance
import ThreeAddress.Proofs.Simulation.Linking
import ThreeAddress.Proofs.Simulation.Expr
import ThreeAddress.Proofs.Simulation.Stmt
import ThreeAddress.Proofs.Simulation.Entry
import ThreeAddress.Proofs.Simulation.Function
import ThreeAddress.Proofs.Typing.Prediction
import ThreeAddress.Proofs.Typing.Setting
import ThreeAddress.Proofs.Typing.Expr
import ThreeAddress.Proofs.Typing.Function
import ThreeAddress.Proofs.Typing.Grammar
import ThreeAddress.Proofs.Typing.Grounded
import ThreeAddress.Proofs.Typing.Linkage
import ThreeAddress.Proofs.Typing.Undeclared
import ThreeAddress.Proofs.Typing.WellTyped
import ThreeAddress.Proofs.ControlFlow.Assignment
import ThreeAddress.Proofs.ControlFlow.Guarded
import ThreeAddress.Proofs.ControlFlow.MissingReturn
import ThreeAddress.Proofs.ControlFlow.Initialized
import ThreeAddress.Proofs.Contract.Basic
import ThreeAddress.Proofs.Contract.Expr
import ThreeAddress.Proofs.Contract.Function
import ThreeAddress.Proofs.Contract.Module
import ThreeAddress.Proofs.Faults
import ThreeAddress.Proofs.Calls
import ThreeAddress.Proofs.Renaming.Code
import ThreeAddress.Proofs.Renaming.Lockstep
import ThreeAddress.Proofs.Renaming.Expr
import ThreeAddress.Proofs.Renaming.Function
import ThreeAddress.Proofs.Renaming.Hygiene
import ThreeAddress.Proofs.Renaming.Order
import ThreeAddress.Proofs.Scope.History
import ThreeAddress.Proofs.Emission.Lines
import ThreeAddress.Proofs.UniqueSymbols
import ThreeAddress.Proofs.Typing.Table
import ThreeAddress.Proofs.Tally.Basic
import ThreeAddress.Proofs.Tally.Expr
import ThreeAddress.Proofs.Constants.Pool
import ThreeAddress.Proofs.Typing.Legible
import ThreeAddress.Proofs.Typing.Numbers
import ThreeAddress.Proofs.Tally.Record
import ThreeAddress.Proofs.Emission.Evolution
import ThreeAddress.Proofs.Requests.Basic
import ThreeAddress.Proofs.Requests.Expr
import ThreeAddress.Proofs.Requests.Function
import ThreeAddress.Proofs.Emission.Session
import ThreeAddress.Proofs.Typing.Agreement
import ThreeAddress.Proofs.CallOrder
import ThreeAddress.Proofs.Emission.Hoisting
import ThreeAddress.Proofs.Scope.Ownership
import ThreeAddress.Proofs.Typing.Promotion
import ThreeAddress.Proofs.Constants.Quotation
import ThreeAddress.Proofs.Typing.Spelling
import ThreeAddress.Proofs.Typing.Layout
import ThreeAddress.Proofs.Typing.Dereference
import ThreeAddress.Proofs.Directives
import ThreeAddress.Proofs.Scope.Search
