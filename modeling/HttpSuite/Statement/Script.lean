import HttpSuite.Lexer
import HttpSuite.Statement.Fault

/-!
# From tokens to statements

`Expecting` is what a reader of tokens waits for, and `Expecting.step` the effect of one token. A
`Script` is all statements of a sequence of tokens up to the first fault or the end.

A `Feed` is where the tokens come from: the tokens before the end, and what stands at the end, a
place or a fault of the lexer.

* `read_append`: a fault that is met before the tokens run out does not depend on later tokens.
-/

namespace HttpSuite

/-! ## Feeds -/

/-- Tokens up to an end, and the place of the end or the fault that is met there. -/
structure Feed where
  tokens : List Token
  stop : Except LexError Span

namespace Feed

/-- The line of the last token, or 0 without tokens. -/
def lastLine (tokens : List Token) : Nat :=
  match tokens.getLast? with
  | some token => token.span.line
  | none => 0

/-- The tokens before the first end token. Without one, the end is on the line of the last token. -/
def ofTokens (source : String) (tokens : List Token) : Feed :=
  let before := tokens.takeWhile (·.kind != .none)
  { tokens := before
    stop := match tokens.dropWhile (·.kind != .none) with
      | token :: _ => .ok token.span
      | [] => .ok ⟨source, lastLine before⟩ }

/-- The tokens that a lexer yields. -/
def ofLexer (lexer : Lexer) : Feed :=
  match lexer.tokens with
  | (tokens, none) => ofTokens lexer.source tokens
  | (tokens, some fault) => { tokens, stop := .error fault }

end Feed

/-! ## Reading one token -/

/-- What a reader waits for. The entries of an assertion are kept backwards. -/
inductive Expecting where
  | directive
  | testName (span : Span)
  | symbol (level : Level)
  | symbolValue (level : Level) (symbol : String)
  | fieldValue (field : RequestField)
  | headerName
  | headerValue (name : String)
  | operands (span : Span) (entries : List Entry)
  deriving DecidableEq

namespace Expecting

/-- What follows a directive at `span`. -/
def after (span : Span) : Directive → Expecting
  | .test => testName span
  | .bind level => symbol level
  | .field f => fieldValue f
  | .header => headerName
  | .assertion => operands span []

/-- The kinds of token that can name a test or a header. -/
def isNameKind (kind : TokenKind) : Bool :=
  kind = .symbol || kind = .string

/-- Refuses a token that is not of a kind that the parameter can have. -/
def checkParameter (directive : Directive) (index : Nat) (accepts : TokenKind → Bool)
    (token : Token) : Except ParseError Unit :=
  if accepts token.kind then .ok ()
  else .error ⟨.missingParameter directive index (some token.text), token.span⟩

/-- The assertion that `;` completes. -/
def closeAssertion (span : Span) (entries : List Entry) (token : Token) :
    Except ParseError Statement :=
  if entries = [] then
    .error ⟨.missingParameter .assertion 0 (some token.text), token.span⟩
  else
    match checkShape entries.reverse with
    | .ok () => .ok (.assertion ⟨span, entries.reverse⟩)
    | .error fault => .error ⟨.malformedAssertion fault, span⟩

/-- The effect of a token that is neither an end nor a failed read: what is waited for next, and
the statement that the token completes, if it does. -/
def stepToken (expecting : Expecting) (token : Token) :
    Except ParseError (Expecting × Option Statement) :=
  match expecting with
  | directive =>
    if token.kind = .directive then
      match Directive.ofKeyword? token.text with
      | some d => .ok (after token.span d, none)
      | none => .error ⟨.unknownDirective token.text, token.span⟩
    else .error ⟨.expectedDirective token.kind token.text, token.span⟩
  | testName span => do
    checkParameter .test 0 isNameKind token
    return (directive, some (.test span token.text))
  | symbol level => do
    checkParameter (.bind level) 0 (· = .symbol) token
    return (symbolValue level token.text, none)
  | symbolValue level name => do
    checkParameter (.bind level) 1 TokenKind.isValue token
    return (directive, some (.bind level name token))
  | fieldValue f => do
    checkParameter (.field f) 0 TokenKind.isValue token
    return (directive, some (.field f token))
  | headerName => do
    checkParameter .header 0 isNameKind token
    return (headerValue token.text, none)
  | headerValue name => do
    checkParameter .header 1 TokenKind.isValue token
    return (directive, some (.header name token))
  | operands span entries =>
    match token.kind with
    | .assertEnd => do
      let statement ← closeAssertion span entries token
      return (directive, some statement)
    | .directive => .error ⟨.unterminatedAssertion, span⟩
    | _ => .ok (operands span (Entry.ofToken token :: entries), none)

/-- The effect of a token. A failed read is a fault wherever it stands. -/
def step (expecting : Expecting) (token : Token) :
    Except ParseError (Expecting × Option Statement) :=
  if token.kind = .unknown then .error ⟨.streamError token.text, token.span⟩
  else expecting.stepToken token

/-- The fault of ending at `span`: none between statements. -/
def atEnd (span : Span) : Expecting → Option ParseError
  | directive => none
  | testName _ => some ⟨.missingParameter .test 0 none, span⟩
  | symbol level => some ⟨.missingParameter (.bind level) 0 none, span⟩
  | symbolValue level _ => some ⟨.missingParameter (.bind level) 1 none, span⟩
  | fieldValue f => some ⟨.missingParameter (.field f) 0 none, span⟩
  | headerName => some ⟨.missingParameter .header 0 none, span⟩
  | headerValue _ => some ⟨.missingParameter .header 1 none, span⟩
  | operands start _ => some ⟨.unterminatedAssertion, start⟩

end Expecting

/-! ## Scripts -/

/-- What stops the reading of statements before the end. -/
inductive ScriptFault where
  | lex (error : LexError)
  | parse (error : ParseError)
  deriving DecidableEq

/-- The statements of a feed, and the fault that follows the last of them, if there is one. -/
structure Script where
  statements : List Statement
  fault : Option ScriptFault

namespace Script

/-- The fault at the end of a feed. -/
def faultAt (stop : Except LexError Span) (expecting : Expecting) : Option ScriptFault :=
  match stop with
  | .error error => some (.lex error)
  | .ok span => (expecting.atEnd span).map .parse

/-- Reads on; the statements so far are kept backwards. -/
def readFrom (stop : Except LexError Span) (expecting : Expecting) (seen : List Statement) :
    List Token → Script
  | [] => ⟨seen.reverse, faultAt stop expecting⟩
  | token :: tokens =>
    match expecting.step token with
    | .error error => ⟨seen.reverse, some (.parse error)⟩
    | .ok (expecting, none) => readFrom stop expecting seen tokens
    | .ok (expecting, some statement) => readFrom stop expecting (statement :: seen) tokens

/-- The statements of a feed. -/
def ofFeed (feed : Feed) : Script :=
  readFrom feed.stop .directive [] feed.tokens

/-- The tokens contain a fault of their own, wherever they end. -/
def Faulty (expecting : Expecting) : List Token → Prop
  | [] => False
  | token :: tokens =>
    match expecting.step token with
    | .error _ => True
    | .ok (expecting, _) => Faulty expecting tokens

theorem read_append {expecting : Expecting} {tokens : List Token} (h : Faulty expecting tokens)
    (stop stop' : Except LexError Span) (seen : List Statement) (more : List Token) :
    readFrom stop expecting seen (tokens ++ more) = readFrom stop' expecting seen tokens := by
  induction tokens generalizing expecting seen with
  | nil => exact h.elim
  | cons token tokens ih =>
    simp only [List.cons_append, readFrom]
    simp only [Faulty] at h
    split
    · rfl
    · next eq => exact ih (by simpa [eq] using h) _
    · next eq => exact ih (by simpa [eq] using h) _

end Script

end HttpSuite
