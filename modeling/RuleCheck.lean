import RuleCheck.Engine
import RuleCheck.Options.Json
import RuleCheck.Options.Variables
import RuleCheck.Rule.Builder
import RuleCheck.Test.Wording
import RuleCheck.Value.Conversion
import RuleCheck.Proofs.Journal
import RuleCheck.Proofs.Walk
import RuleCheck.Proofs.Preorder
import RuleCheck.Proofs.FirstFailure
import RuleCheck.Proofs.Relaxation
import RuleCheck.Proofs.DepthLimit
import RuleCheck.Proofs.Dispatches
import RuleCheck.Proofs.Channels
import RuleCheck.Proofs.Production
import RuleCheck.Proofs.DeepEquality
import RuleCheck.Proofs.Trials
import RuleCheck.Proofs.TypedTests
import RuleCheck.Proofs.Sessions
import RuleCheck.Proofs.Growth
import RuleCheck.Proofs.PureTests
import RuleCheck.Proofs.OperatorAlgebra
import RuleCheck.Proofs.BuiltRules
import RuleCheck.Proofs.Correspondence
import RuleCheck.Proofs.Tandem
import RuleCheck.Proofs.UniformFunctions
import RuleCheck.Proofs.AlikeRules
import RuleCheck.Proofs.NamesIndifferent
import RuleCheck.Proofs.Rounding
import RuleCheck.Proofs.EqualityChains
import RuleCheck.Proofs.OptionSlots
import RuleCheck.Proofs.Unfolding
import RuleCheck.Proofs.LayingOut
import RuleCheck.Proofs.Copies
import RuleCheck.Proofs.ValueOrder
import RuleCheck.Proofs.RangeOrder
import RuleCheck.Proofs.RangeRounding
import RuleCheck.Proofs.Interchangeable
import RuleCheck.Proofs.HostSteps
import RuleCheck.Proofs.Frame
import RuleCheck.Proofs.AcyclicUnfolding
import RuleCheck.Proofs.CopyEquality
import RuleCheck.Proofs.CopyStability
import RuleCheck.Proofs.QuotedText
import RuleCheck.Proofs.ReadableText
import RuleCheck.Proofs.BareTexts
import RuleCheck.Proofs.ConsoleLines
import RuleCheck.Proofs.GeneratedDiagnostics
import RuleCheck.Proofs.SameCourse
import RuleCheck.Proofs.Wrapping
import RuleCheck.Proofs.TandemWalks
import RuleCheck.Proofs.Repetition
import RuleCheck.Proofs.Conjunctions
import RuleCheck.Proofs.InsertionOrder
import RuleCheck.Proofs.ClauseForms
import RuleCheck.Proofs.Decimals
import RuleCheck.Proofs.VariableOptions
import RuleCheck.Proofs.JsonTokens
import RuleCheck.Proofs.JsonOptions
