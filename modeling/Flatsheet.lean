import Flatsheet.Check.Issue
import Flatsheet.Check.Remaining
import Flatsheet.Check.SassCommand
import Flatsheet.Check.Syntax
import Flatsheet.Check.Validation
import Flatsheet.CommandLine
import Flatsheet.Conversion.Pass
import Flatsheet.Conversion.Processor
import Flatsheet.Conversion.Record
import Flatsheet.Diagnostic
import Flatsheet.Log.CompileError
import Flatsheet.Log.Pattern
import Flatsheet.Main
import Flatsheet.Proofs.Check.Braces
import Flatsheet.Proofs.Check.Interpolation
import Flatsheet.Proofs.Check.Partners
import Flatsheet.Proofs.Check.Quotes
import Flatsheet.Proofs.Check.Scanners
import Flatsheet.Proofs.Check.Splice
import Flatsheet.Proofs.Check.Tidied
import Flatsheet.Proofs.CommandLine
import Flatsheet.Proofs.Conversion.Balance
import Flatsheet.Proofs.Conversion.Plain
import Flatsheet.Proofs.Conversion.Repetition
import Flatsheet.Proofs.Conversion.Run
import Flatsheet.Proofs.Diagnostic
import Flatsheet.Proofs.Diagnostic.History
import Flatsheet.Proofs.Log.Locality
import Flatsheet.Proofs.Repair.Attempt
import Flatsheet.Proofs.Repair.Baseline
import Flatsheet.Proofs.Repair.BraceBalance
import Flatsheet.Proofs.Repair.Budget
import Flatsheet.Proofs.Repair.Calls
import Flatsheet.Proofs.Repair.CallsLeft
import Flatsheet.Proofs.Repair.CleanUp
import Flatsheet.Proofs.Repair.ClosedBlocks
import Flatsheet.Proofs.Repair.Dealings
import Flatsheet.Proofs.Repair.DeclaredUses
import Flatsheet.Proofs.Repair.Disabling
import Flatsheet.Proofs.Repair.EditScript
import Flatsheet.Proofs.Repair.Evidence
import Flatsheet.Proofs.Repair.Grammar
import Flatsheet.Proofs.Repair.LogWindow
import Flatsheet.Proofs.Repair.Mending
import Flatsheet.Proofs.Repair.Parentheses
import Flatsheet.Proofs.Repair.Phases
import Flatsheet.Proofs.Repair.Report
import Flatsheet.Proofs.Repair.SecondCall
import Flatsheet.Proofs.Repair.Sheltering
import Flatsheet.Proofs.Repair.Statement
import Flatsheet.Proofs.Repair.Steady
import Flatsheet.Proofs.Repair.Targets
import Flatsheet.Proofs.Repair.Treatment
import Flatsheet.Proofs.Repair.VariableUses
import Flatsheet.Proofs.Repair.Verification
import Flatsheet.Proofs.Settings
import Flatsheet.Proofs.Style.Abreast
import Flatsheet.Proofs.Style.Arguments
import Flatsheet.Proofs.Style.AssetAddresses
import Flatsheet.Proofs.Style.Declarations
import Flatsheet.Proofs.Style.DeclaredName
import Flatsheet.Proofs.Style.Definition
import Flatsheet.Proofs.Style.DefinitionKept
import Flatsheet.Proofs.Style.EndlessExpansion
import Flatsheet.Proofs.Style.HelperRounds
import Flatsheet.Proofs.Style.ImportEnd
import Flatsheet.Proofs.Style.IncludeRounds
import Flatsheet.Proofs.Style.Interlace
import Flatsheet.Proofs.Style.Interpolation
import Flatsheet.Proofs.Style.Layout
import Flatsheet.Proofs.Style.Marker
import Flatsheet.Proofs.Style.OneLine
import Flatsheet.Proofs.Style.Reconversion
import Flatsheet.Proofs.Style.Redeclaration
import Flatsheet.Proofs.Style.References
import Flatsheet.Proofs.Style.Remainder
import Flatsheet.Proofs.Style.Removal
import Flatsheet.Proofs.Style.Resplitting
import Flatsheet.Proofs.Style.RootBlock
import Flatsheet.Proofs.Style.Rounds
import Flatsheet.Proofs.Style.Scanner
import Flatsheet.Proofs.Style.Searches
import Flatsheet.Proofs.Style.Substitution
import Flatsheet.Proofs.Style.Surplus
import Flatsheet.Proofs.Style.Sweep
import Flatsheet.Proofs.Style.Tally
import Flatsheet.Proofs.Style.Tracking
import Flatsheet.Proofs.Style.Usages
import Flatsheet.Proofs.System.Agree
import Flatsheet.Proofs.System.AllOrNothing
import Flatsheet.Proofs.System.FileTree
import Flatsheet.Proofs.System.Growth
import Flatsheet.Proofs.System.Path
import Flatsheet.Proofs.System.Straight
import Flatsheet.Proofs.System.WorkerPool
import Flatsheet.Proofs.Text.Address
import Flatsheet.Proofs.Text.Composition
import Flatsheet.Proofs.Text.Cutting
import Flatsheet.Proofs.Text.LineZones
import Flatsheet.Proofs.Text.Lines
import Flatsheet.Proofs.Text.Loss
import Flatsheet.Proofs.Text.Mask
import Flatsheet.Proofs.Text.Occurrence
import Flatsheet.Proofs.Text.Seam
import Flatsheet.Proofs.Text.Shelter
import Flatsheet.Proofs.Text.Zones
import Flatsheet.Proofs.Theme.Draft
import Flatsheet.Proofs.Theme.Order
import Flatsheet.Proofs.Theme.Outcome
import Flatsheet.Proofs.Theme.Report
import Flatsheet.Proofs.Theme.Schedule
import Flatsheet.Repair.Alteration
import Flatsheet.Repair.Candidate
import Flatsheet.Repair.Fixer
import Flatsheet.Repair.Line
import Flatsheet.Repair.LogWindow
import Flatsheet.Repair.Loop
import Flatsheet.Repair.Surroundings
import Flatsheet.Repair.Tools
import Flatsheet.Settings
import Flatsheet.Shell.Arithmetic
import Flatsheet.Shell.Builtin
import Flatsheet.Shell.Builtin.Basic
import Flatsheet.Shell.Builtin.Input
import Flatsheet.Shell.Builtin.Job
import Flatsheet.Shell.Builtin.Variables
import Flatsheet.Shell.Channel
import Flatsheet.Shell.Compound
import Flatsheet.Shell.Condition
import Flatsheet.Shell.Expansion
import Flatsheet.Shell.Format
import Flatsheet.Shell.Fraction
import Flatsheet.Shell.Grammar
import Flatsheet.Shell.Invocation
import Flatsheet.Shell.Pattern
import Flatsheet.Shell.Program
import Flatsheet.Shell.Reader
import Flatsheet.Shell.Run
import Flatsheet.Shell.Session
import Flatsheet.Shell.Stream
import Flatsheet.Shell.Task
import Flatsheet.Shell.Utility
import Flatsheet.Shell.Utility.Basic
import Flatsheet.Shell.Utility.Files
import Flatsheet.Shell.Utility.Output
import Flatsheet.Shell.Word
import Flatsheet.StageTrace
import Flatsheet.Style.AssetPath
import Flatsheet.Style.ColorHelper
import Flatsheet.Style.Declaration
import Flatsheet.Style.Expansion
import Flatsheet.Style.Hoist
import Flatsheet.Style.Import
import Flatsheet.Style.Layout
import Flatsheet.Style.Mixin
import Flatsheet.Style.Recipe
import Flatsheet.Style.Reference
import Flatsheet.Style.Scope
import Flatsheet.Style.Value
import Flatsheet.Style.Variable
import Flatsheet.System.FileTree
import Flatsheet.System.Machine
import Flatsheet.System.Path
import Flatsheet.System.WorkerPool
import Flatsheet.Text.Basic
import Flatsheet.Text.Delimiter
import Flatsheet.Text.Mask
import Flatsheet.Text.Numeral
import Flatsheet.Text.Span
import Flatsheet.Text.Sweep
import Flatsheet.Theme.Migration
import Flatsheet.Theme.SourceGroup
