import HttpSuite.Assertion
import HttpSuite.Canonical
import HttpSuite.CommandLine
import HttpSuite.Evaluation
import HttpSuite.Folder
import HttpSuite.Journal
import HttpSuite.KeyMap
import HttpSuite.Lexeme
import HttpSuite.Lexer
import HttpSuite.Listing
import HttpSuite.Main
import HttpSuite.Proofs.Applying
import HttpSuite.Proofs.BodyKinds
import HttpSuite.Proofs.BodyParts
import HttpSuite.Proofs.Directives.Acceptance
import HttpSuite.Proofs.Directives.Blocks
import HttpSuite.Proofs.Directives.Effect
import HttpSuite.Proofs.Directives.Grammar
import HttpSuite.Proofs.Directives.Meaning
import HttpSuite.Proofs.Directives.Places
import HttpSuite.Proofs.Directives.Reordering
import HttpSuite.Proofs.Drafting
import HttpSuite.Proofs.Evaluating
import HttpSuite.Proofs.Files.Reports
import HttpSuite.Proofs.Files.Runs
import HttpSuite.Proofs.Files.Twins
import HttpSuite.Proofs.Headers
import HttpSuite.Proofs.InPlace
import HttpSuite.Proofs.Lexing.Encoding
import HttpSuite.Proofs.Lexing.Found
import HttpSuite.Proofs.Lexing.Grammar
import HttpSuite.Proofs.Lexing.Run
import HttpSuite.Proofs.Lexing.Segments
import HttpSuite.Proofs.Lexing.Spelled
import HttpSuite.Proofs.Lexing.Tokenize
import HttpSuite.Proofs.Lexing.Word
import HttpSuite.Proofs.Lineless
import HttpSuite.Proofs.ListingLines
import HttpSuite.Proofs.Postfix
import HttpSuite.Proofs.Pulls.Boundaries
import HttpSuite.Proofs.Pulls.Limits
import HttpSuite.Proofs.Pulls.Lines
import HttpSuite.Proofs.Pulls.Progress
import HttpSuite.Proofs.Pulls.Seams
import HttpSuite.Proofs.Reading
import HttpSuite.Proofs.Reformat.Regular
import HttpSuite.Proofs.Reformat.Replay
import HttpSuite.Proofs.Reformat.Reread
import HttpSuite.Proofs.Reformat.RoundTrip
import HttpSuite.Proofs.Reformat.Statements
import HttpSuite.Proofs.Reformat.Tokens
import HttpSuite.Proofs.Reformat.Words
import HttpSuite.Proofs.Rollback
import HttpSuite.Proofs.Scopes.Sessions
import HttpSuite.Proofs.Scopes.Visibility
import HttpSuite.Proofs.Scopes.Walks
import HttpSuite.Proofs.Setters
import HttpSuite.Proofs.Stream.Failing
import HttpSuite.Proofs.Stream.Pulling
import HttpSuite.Proofs.Template.Joining
import HttpSuite.Proofs.Template.Leftmost
import HttpSuite.Proofs.Template.Meaning
import HttpSuite.Proofs.TokenMap
import HttpSuite.Record
import HttpSuite.Record.Draft
import HttpSuite.Record.InPlace
import HttpSuite.Record.Request
import HttpSuite.Record.Stored
import HttpSuite.Scope
import HttpSuite.Span
import HttpSuite.Statement
import HttpSuite.Statement.Fault
import HttpSuite.Statement.Script
import HttpSuite.Suite
import HttpSuite.Template
import HttpSuite.Text.Ascii
import HttpSuite.Text.Blank
import HttpSuite.Text.Cut
import HttpSuite.Text.Lines
import HttpSuite.Text.Numeral
import HttpSuite.Text.Quoted
import HttpSuite.Text.Unprintable
import HttpSuite.Token
