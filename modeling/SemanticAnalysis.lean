import SemanticAnalysis.Analysis.Body
import SemanticAnalysis.Analysis.Call
import SemanticAnalysis.Analysis.Choice
import SemanticAnalysis.Analysis.ClassHead
import SemanticAnalysis.Analysis.Control
import SemanticAnalysis.Analysis.Declaration
import SemanticAnalysis.Analysis.Effect
import SemanticAnalysis.Analysis.Instance
import SemanticAnalysis.Analysis.Lambda
import SemanticAnalysis.Analysis.Linkage
import SemanticAnalysis.Analysis.Naming
import SemanticAnalysis.Analysis.Operation
import SemanticAnalysis.Analysis.Program
import SemanticAnalysis.Analysis.Reference
import SemanticAnalysis.Analysis.Signature
import SemanticAnalysis.Analysis.State
import SemanticAnalysis.Analysis.Synthesis
import SemanticAnalysis.Analysis.Use
import SemanticAnalysis.Analysis.Value
import SemanticAnalysis.Analysis.WrittenType
import SemanticAnalysis.Attribute
import SemanticAnalysis.Conversion
import SemanticAnalysis.Detail
import SemanticAnalysis.Diagnostic
import SemanticAnalysis.Digest
import SemanticAnalysis.Entity
import SemanticAnalysis.ErrorFlow
import SemanticAnalysis.Flags
import SemanticAnalysis.Generics.Inference
import SemanticAnalysis.Generics.Instances
import SemanticAnalysis.Ids
import SemanticAnalysis.Interchange.Detail
import SemanticAnalysis.Interchange.Document
import SemanticAnalysis.Interchange.Report
import SemanticAnalysis.Interchange.Table
import SemanticAnalysis.Interchange.Tree
import SemanticAnalysis.Interchange.Type
import SemanticAnalysis.Latch
import SemanticAnalysis.Modifier
import SemanticAnalysis.Module.Library
import SemanticAnalysis.Module.Loading
import SemanticAnalysis.Module.Path
import SemanticAnalysis.Native
import SemanticAnalysis.NativeOperation
import SemanticAnalysis.Operator
import SemanticAnalysis.Options
import SemanticAnalysis.Overload.Binding
import SemanticAnalysis.Overload.Ranking
import SemanticAnalysis.Overload.Resolution
import SemanticAnalysis.Position
import SemanticAnalysis.Proofs.Analysis.Acyclic
import SemanticAnalysis.Proofs.Analysis.Bitfields
import SemanticAnalysis.Proofs.Analysis.Captures
import SemanticAnalysis.Proofs.Analysis.Control
import SemanticAnalysis.Proofs.Analysis.Declarations
import SemanticAnalysis.Proofs.Analysis.DefaultConstruction
import SemanticAnalysis.Proofs.Analysis.Expressions
import SemanticAnalysis.Proofs.Analysis.Keeps
import SemanticAnalysis.Proofs.Analysis.Members
import SemanticAnalysis.Proofs.Analysis.Naming
import SemanticAnalysis.Proofs.Analysis.Overloads
import SemanticAnalysis.Proofs.Analysis.Parents
import SemanticAnalysis.Proofs.Analysis.References
import SemanticAnalysis.Proofs.Analysis.Settled
import SemanticAnalysis.Proofs.Analysis.Statements
import SemanticAnalysis.Proofs.Analysis.Variants
import SemanticAnalysis.Proofs.Analysis.WrittenTypes
import SemanticAnalysis.Proofs.Conversion.Casts
import SemanticAnalysis.Proofs.Conversion.Constness
import SemanticAnalysis.Proofs.Conversion.Copies
import SemanticAnalysis.Proofs.Conversion.Derivation
import SemanticAnalysis.Proofs.Conversion.Guard
import SemanticAnalysis.Proofs.Conversion.Origin
import SemanticAnalysis.Proofs.Conversion.Scores
import SemanticAnalysis.Proofs.Conversion.Unions
import SemanticAnalysis.Proofs.Conversion.Upcasts
import SemanticAnalysis.Proofs.Course.Basic
import SemanticAnalysis.Proofs.Course.Expressions
import SemanticAnalysis.Proofs.Course.Instances
import SemanticAnalysis.Proofs.Course.Programs
import SemanticAnalysis.Proofs.Course.Requests
import SemanticAnalysis.Proofs.Course.Rules
import SemanticAnalysis.Proofs.Course.Statements
import SemanticAnalysis.Proofs.Delegation.Expressions
import SemanticAnalysis.Proofs.Delegation.Rules
import SemanticAnalysis.Proofs.Delegation.Statements
import SemanticAnalysis.Proofs.ErrorFlow.Fixpoint
import SemanticAnalysis.Proofs.ErrorFlow.Invariant
import SemanticAnalysis.Proofs.ErrorFlow.Steps
import SemanticAnalysis.Proofs.ErrorFlow.Walk
import SemanticAnalysis.Proofs.Faithful.Classes
import SemanticAnalysis.Proofs.Faithful.Declarations
import SemanticAnalysis.Proofs.Faithful.Expressions
import SemanticAnalysis.Proofs.Faithful.Programs
import SemanticAnalysis.Proofs.Faithful.Rules
import SemanticAnalysis.Proofs.Faithful.Statements
import SemanticAnalysis.Proofs.Faithful.Tables
import SemanticAnalysis.Proofs.Generics.Cache
import SemanticAnalysis.Proofs.Generics.Endless
import SemanticAnalysis.Proofs.Generics.Inference
import SemanticAnalysis.Proofs.Generics.Instances
import SemanticAnalysis.Proofs.Generics.Memoisation
import SemanticAnalysis.Proofs.Generics.Opening
import SemanticAnalysis.Proofs.Module.Balance
import SemanticAnalysis.Proofs.Module.Collecting
import SemanticAnalysis.Proofs.Module.Exports
import SemanticAnalysis.Proofs.Module.History
import SemanticAnalysis.Proofs.Module.Loading
import SemanticAnalysis.Proofs.Module.Location
import SemanticAnalysis.Proofs.Module.Nesting
import SemanticAnalysis.Proofs.Module.Order
import SemanticAnalysis.Proofs.Module.Resolving
import SemanticAnalysis.Proofs.Overload.Binding
import SemanticAnalysis.Proofs.Overload.Exactness
import SemanticAnalysis.Proofs.Overload.Operators
import SemanticAnalysis.Proofs.Overload.Ranking
import SemanticAnalysis.Proofs.Overload.Rearrangement
import SemanticAnalysis.Proofs.Overload.Reordering
import SemanticAnalysis.Proofs.Overload.Resolution
import SemanticAnalysis.Proofs.Permit.Accounts
import SemanticAnalysis.Proofs.Permit.Changes
import SemanticAnalysis.Proofs.Permit.Classes
import SemanticAnalysis.Proofs.Permit.Demands
import SemanticAnalysis.Proofs.Permit.Expressions
import SemanticAnalysis.Proofs.Permit.Instances
import SemanticAnalysis.Proofs.Permit.Nodes
import SemanticAnalysis.Proofs.Permit.Programs
import SemanticAnalysis.Proofs.Permit.Rules
import SemanticAnalysis.Proofs.Permit.Statements
import SemanticAnalysis.Proofs.Safety.Classes
import SemanticAnalysis.Proofs.Safety.Declarations
import SemanticAnalysis.Proofs.Safety.Expressions
import SemanticAnalysis.Proofs.Safety.Instances
import SemanticAnalysis.Proofs.Safety.Programs
import SemanticAnalysis.Proofs.Safety.Rules
import SemanticAnalysis.Proofs.Safety.Sessions
import SemanticAnalysis.Proofs.Safety.Statements
import SemanticAnalysis.Proofs.Safety.Worlds
import SemanticAnalysis.Proofs.SymbolTable.AliasCycles
import SemanticAnalysis.Proofs.SymbolTable.Aliases
import SemanticAnalysis.Proofs.SymbolTable.Bindings
import SemanticAnalysis.Proofs.SymbolTable.Distance
import SemanticAnalysis.Proofs.SymbolTable.Enclosing
import SemanticAnalysis.Proofs.SymbolTable.Extension
import SemanticAnalysis.Proofs.SymbolTable.Frame
import SemanticAnalysis.Proofs.SymbolTable.Hierarchy
import SemanticAnalysis.Proofs.SymbolTable.Kinds
import SemanticAnalysis.Proofs.SymbolTable.Lookup
import SemanticAnalysis.Proofs.SymbolTable.Meaning
import SemanticAnalysis.Proofs.SymbolTable.Names
import SemanticAnalysis.Proofs.SymbolTable.Natures
import SemanticAnalysis.Proofs.SymbolTable.Queue
import SemanticAnalysis.Proofs.SymbolTable.Retention
import SemanticAnalysis.Proofs.SymbolTable.Shape
import SemanticAnalysis.Proofs.SymbolTable.Templates
import SemanticAnalysis.Proofs.SymbolTable.Visibility
import SemanticAnalysis.Proofs.SymbolTable.WellFormed
import SemanticAnalysis.Proofs.Ty.Erasure
import SemanticAnalysis.Proofs.Ty.Known
import SemanticAnalysis.Proofs.Ty.Parts
import SemanticAnalysis.Proofs.Validation.Exits
import SemanticAnalysis.Session
import SemanticAnalysis.SymbolTable.Basic
import SemanticAnalysis.SymbolTable.Hierarchy
import SemanticAnalysis.SymbolTable.Lookup
import SemanticAnalysis.Syntax.Literal
import SemanticAnalysis.Syntax.Tree
import SemanticAnalysis.Ty.Basic
import SemanticAnalysis.Ty.Encoding
import SemanticAnalysis.Ty.Layers
import SemanticAnalysis.Ty.Printer
import SemanticAnalysis.Validation
