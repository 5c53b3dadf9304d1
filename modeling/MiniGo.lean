import MiniGo.Error
import MiniGo.Error.Report
import MiniGo.FrontEnd
import MiniGo.Grammar
import MiniGo.Grammar.Expressions
import MiniGo.Grammar.Rule
import MiniGo.Grammar.Statements
import MiniGo.Grammar.Table
import MiniGo.Grammar.Types
import MiniGo.Json
import MiniGo.Json.Number
import MiniGo.Json.Reader
import MiniGo.Json.Writer
import MiniGo.Number.Binary64
import MiniGo.Number.Decimal
import MiniGo.Program
import MiniGo.Program.Agreement
import MiniGo.Program.OfTree
import MiniGo.Program.Type
import MiniGo.Program.Visit
import MiniGo.Proofs.Grammar.Precedence
import MiniGo.Proofs.Grammar.Precedence.Completeness
import MiniGo.Proofs.Grammar.Precedence.Soundness
import MiniGo.Proofs.Grammar.Run
import MiniGo.Proofs.Grammar.Source
import MiniGo.Proofs.Program.Conversion
import MiniGo.Proofs.Program.Lossless
import MiniGo.Proofs.Program.Preorder
import MiniGo.Proofs.Program.Refinement
import MiniGo.Proofs.Token.Spelling
import MiniGo.Proofs.Tree.Acceptance
import MiniGo.Proofs.Tree.Source
import MiniGo.Proofs.Tree.Threshold
import MiniGo.Proofs.Tree.WellFormed
import MiniGo.Text.Blank
import MiniGo.Text.Invisible
import MiniGo.Text.Line
import MiniGo.Text.Quoted
import MiniGo.Token
import MiniGo.Token.Lexer
import MiniGo.Token.StringLiteral
import MiniGo.Tree
import MiniGo.Tree.Check
import MiniGo.Tree.Interchange
import MiniGo.Tree.Kind
import MiniGo.Proofs.Token.Joined
import MiniGo.Proofs.Token.Lexeme
import MiniGo.Proofs.Token.Lossless
import MiniGo.Proofs.Token.Places
import MiniGo.Proofs.Grammar.Limit
import MiniGo.Proofs.Grammar.Limit.Expressions
import MiniGo.Proofs.Grammar.Limit.Statements
import MiniGo.Proofs.Grammar.Limit.Check
import MiniGo.Proofs.Grammar.Limit.Threshold
import MiniGo.Proofs.Grammar.Print
import MiniGo.Proofs.Grammar.Recovery
import MiniGo.Proofs.Grammar.Recovery.Expressions
import MiniGo.Proofs.Grammar.Recovery.Statements
import MiniGo.Proofs.Grammar.Recovery.RoundTrip
import MiniGo.Proofs.Token.Scan
import MiniGo.Proofs.Token.Semicolons
import MiniGo.Proofs.Grammar.Tracking
import MiniGo.Proofs.Grammar.Tracking.Expressions
import MiniGo.Proofs.Grammar.Tracking.Statements
import MiniGo.Proofs.Grammar.Spacing
import MiniGo.Proofs.Grammar.Concatenation
import MiniGo.Proofs.Grammar.Conduct
import MiniGo.Proofs.Grammar.Conduct.Expressions
import MiniGo.Proofs.Grammar.Conduct.Statements
import MiniGo.Proofs.Grammar.Brackets
import MiniGo.Proofs.Grammar.NameLists
import MiniGo.Proofs.Errors
import MiniGo.Proofs.Json.Scalar
import MiniGo.Proofs.Json.Reread
import MiniGo.Proofs.Tree.Interchange
import MiniGo.Proofs.Text.Line
import MiniGo.Proofs.Error.Report
import MiniGo.Proofs.Grammar.Types
import MiniGo.Proofs.Grammar.Lookahead
import MiniGo.Proofs.Grammar.Lookahead.Expressions
import MiniGo.Proofs.Grammar.Lookahead.Statements
import MiniGo.Proofs.Grammar.LineEnds
import MiniGo.Proofs.Grammar.Groups
import MiniGo.Proofs.Token.Truncation
import MiniGo.Proofs.Token.Quoted
import MiniGo.Proofs.Grammar.Uniform
import MiniGo.Proofs.Grammar.Uniform.Rules
import MiniGo.Proofs.Grammar.Levels
import MiniGo.Proofs.Grammar.FunctionStatements
import MiniGo.Proofs.Grammar.Bookkeeping
import MiniGo.Proofs.Grammar.Progress
