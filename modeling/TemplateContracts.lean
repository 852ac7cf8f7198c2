import TemplateContracts.Access
import TemplateContracts.Analysis.Event
import TemplateContracts.Analysis.Report
import TemplateContracts.Analysis.Run
import TemplateContracts.Analysis.Walk
import TemplateContracts.Assoc
import TemplateContracts.Binary64.Basic
import TemplateContracts.Binary64.Decimal
import TemplateContracts.Binary64.Rounding
import TemplateContracts.Binary64.Shortest
import TemplateContracts.ClassTable.Basic
import TemplateContracts.ClassTable.Dump
import TemplateContracts.ClassTable.Hierarchy
import TemplateContracts.Config
import TemplateContracts.Diagnostic.Basic
import TemplateContracts.Diagnostic.Codec
import TemplateContracts.Guard.Evaluation
import TemplateContracts.Guard.Synthesis
import TemplateContracts.Import.Cache
import TemplateContracts.Import.Loader
import TemplateContracts.Json.Basic
import TemplateContracts.Json.Decode
import TemplateContracts.Json.Parser
import TemplateContracts.Json.Printer
import TemplateContracts.Location
import TemplateContracts.Macro.Call
import TemplateContracts.Macro.Registry
import TemplateContracts.Macro.Signature
import TemplateContracts.Proofs.AcceptedValues
import TemplateContracts.Proofs.AlikeRegistries
import TemplateContracts.Proofs.ArrayKeys
import TemplateContracts.Proofs.ClassDumps
import TemplateContracts.Proofs.ClassSpelling
import TemplateContracts.Proofs.ContractGuards
import TemplateContracts.Proofs.Environment
import TemplateContracts.Proofs.EnvironmentHistory
import TemplateContracts.Proofs.ExprForms
import TemplateContracts.Proofs.GuardPlacement
import TemplateContracts.Proofs.ImportChain
import TemplateContracts.Proofs.ImportRecursion
import TemplateContracts.Proofs.ImportedNames
import TemplateContracts.Proofs.Induction
import TemplateContracts.Proofs.Inspections
import TemplateContracts.Proofs.InstrumentedAnalysis
import TemplateContracts.Proofs.JsonText
import TemplateContracts.Proofs.LearnedClasses
import TemplateContracts.Proofs.LiveDeclarations
import TemplateContracts.Proofs.LocatedFindings
import TemplateContracts.Proofs.MacroCalls
import TemplateContracts.Proofs.MacroOrder
import TemplateContracts.Proofs.MacroTables
import TemplateContracts.Proofs.NearestDeclarations
import TemplateContracts.Proofs.NodeChecks
import TemplateContracts.Proofs.NumberText
import TemplateContracts.Proofs.ParserPositions
import TemplateContracts.Proofs.ScopeRefinement
import TemplateContracts.Proofs.ScopedWalk
import TemplateContracts.Proofs.SubtypeReachability
import TemplateContracts.Proofs.TemplateRoundTrip
import TemplateContracts.Proofs.TypeGrammar
import TemplateContracts.Proofs.TypeParsing
import TemplateContracts.Proofs.TypeReading
import TemplateContracts.Proofs.TypeRoundTrip
import TemplateContracts.Proofs.TypeWeakening
import TemplateContracts.Proofs.UndeclaredVariables
import TemplateContracts.Proofs.WalkEvents
import TemplateContracts.Proofs.WholeRun
import TemplateContracts.Sha256
import TemplateContracts.Template.Build
import TemplateContracts.Template.Decode
import TemplateContracts.Template.Encode
import TemplateContracts.Template.Expr
import TemplateContracts.Template.Stmt
import TemplateContracts.Text.Blank
import TemplateContracts.TypeEnv
import TemplateContracts.TypeExpr.Basic
import TemplateContracts.TypeExpr.Matching
import TemplateContracts.TypeExpr.Parser
import TemplateContracts.Value.Basic
import TemplateContracts.Value.OfJson
