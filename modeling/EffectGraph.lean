import EffectGraph.Main
import EffectGraph.Proofs.Cli.Exit
import EffectGraph.Proofs.Cli.Frontend
import EffectGraph.Proofs.Config.Load
import EffectGraph.Proofs.Disk.Load
import EffectGraph.Proofs.Extent.Expression
import EffectGraph.Proofs.Extent.Literal
import EffectGraph.Proofs.Extent.Parser
import EffectGraph.Proofs.Extent.Placing
import EffectGraph.Proofs.Extent.Statement
import EffectGraph.Proofs.Finding.HazardRule
import EffectGraph.Proofs.Finding.Nested
import EffectGraph.Proofs.Finding.OuterWrite
import EffectGraph.Proofs.Finding.ParameterWrite
import EffectGraph.Proofs.Finding.ReceiverWrite
import EffectGraph.Proofs.Finding.Shadowing
import EffectGraph.Proofs.Function.Exact
import EffectGraph.Proofs.Function.Unique
import EffectGraph.Proofs.Grammar.Expression
import EffectGraph.Proofs.Grammar.Parser
import EffectGraph.Proofs.Grammar.Pattern
import EffectGraph.Proofs.Grammar.Statement
import EffectGraph.Proofs.Graph.History
import EffectGraph.Proofs.Graph.Induced
import EffectGraph.Proofs.Graph.Mapping
import EffectGraph.Proofs.Graph.Rounds
import EffectGraph.Proofs.Graph.Spread
import EffectGraph.Proofs.Graph.Worklist
import EffectGraph.Proofs.Model.Abort
import EffectGraph.Proofs.Model.ClassOrder
import EffectGraph.Proofs.Model.Declaration
import EffectGraph.Proofs.Model.Hint
import EffectGraph.Proofs.Model.StepLimit
import EffectGraph.Proofs.Report.AwaitableCalls
import EffectGraph.Proofs.Report.Ending
import EffectGraph.Proofs.Report.Inheritance
import EffectGraph.Proofs.Report.Markup
import EffectGraph.Proofs.Report.Modularity
import EffectGraph.Proofs.Report.Restriction
import EffectGraph.Proofs.Report.Texts
import EffectGraph.Proofs.Scope.Block
import EffectGraph.Proofs.Scope.Exact
import EffectGraph.Proofs.Scope.Lookup
import EffectGraph.Proofs.Scope.Receiver
import EffectGraph.Proofs.Scope.Table
import EffectGraph.Proofs.Source.Position
import EffectGraph.Proofs.Source.RelativeImport
import EffectGraph.Proofs.Syntax.Shape
import EffectGraph.Proofs.Syntax.Token
import EffectGraph.Proofs.Text.Lines
