import LineCheck.BlockHeader
import LineCheck.Check
import LineCheck.Check.Survey
import LineCheck.Check.Walk
import LineCheck.Command
import LineCheck.Condition
import LineCheck.Diagnostic
import LineCheck.Diagnostic.Emission
import LineCheck.Diagnostic.Excerpt
import LineCheck.Diagnostic.Rendering
import LineCheck.Diagnostic.Styled
import LineCheck.Failure
import LineCheck.Fault
import LineCheck.Folder
import LineCheck.Line
import LineCheck.Main
import LineCheck.Method
import LineCheck.Proofs.Assignments
import LineCheck.Proofs.Balance
import LineCheck.Proofs.BlockHeaders
import LineCheck.Proofs.BooleanOperands
import LineCheck.Proofs.Calls
import LineCheck.Proofs.Change
import LineCheck.Proofs.Checking
import LineCheck.Proofs.Colours
import LineCheck.Proofs.Composition
import LineCheck.Proofs.Conditions
import LineCheck.Proofs.Cutting
import LineCheck.Proofs.Declarations
import LineCheck.Proofs.Emissions
import LineCheck.Proofs.Exchange
import LineCheck.Proofs.Extension
import LineCheck.Proofs.Finality
import LineCheck.Proofs.Globals
import LineCheck.Proofs.Grammar
import LineCheck.Proofs.Insertion
import LineCheck.Proofs.Kinds
import LineCheck.Proofs.LineSpans
import LineCheck.Proofs.Locality
import LineCheck.Proofs.Monotonicity
import LineCheck.Proofs.Nesting
import LineCheck.Proofs.Operators
import LineCheck.Proofs.Padding
import LineCheck.Proofs.Printing
import LineCheck.Proofs.Readers
import LineCheck.Proofs.Registrations
import LineCheck.Proofs.Renumbering
import LineCheck.Proofs.Returns
import LineCheck.Proofs.Run
import LineCheck.Proofs.Scopes
import LineCheck.Proofs.Sessions
import LineCheck.Proofs.Simulation
import LineCheck.Proofs.Spacing
import LineCheck.Proofs.Spans
import LineCheck.Proofs.Spelling
import LineCheck.Proofs.StopLine
import LineCheck.Proofs.Survey
import LineCheck.Proofs.TokenGrammars
import LineCheck.Proofs.Tree
import LineCheck.Proofs.TreeCheck
import LineCheck.Proofs.Typing
import LineCheck.Proofs.ValueTexts
import LineCheck.Proofs.Visits
import LineCheck.Resolution
import LineCheck.Scope
import LineCheck.Scope.Update
import LineCheck.Scope.Value
import LineCheck.Statement
import LineCheck.Statement.Grammar
import LineCheck.Text.Blank
import LineCheck.Text.Lines
import LineCheck.Token
import LineCheck.Token.Scan
import LineCheck.Ty
