import ExprCompiler.Codegen
import ExprCompiler.Expr.Fold
import ExprCompiler.Expr.Parse
import ExprCompiler.Log.Record
import ExprCompiler.Token.Scan

/-!
The whole way from a source text to a listing. A stage runs only when the one before it found
nothing wrong, and a failure carries every error of the stage that failed.
-/

namespace ExprCompiler

structure CompileOptions extends CodegenOptions where
  fold : Bool := true

inductive CompileError where
  | lex (errors : List LexError)
  | parse (errors : List ParseError)
  | codegen (errors : List CodegenError)
  deriving DecidableEq, Repr

def stageMessage (stage : Bytes) (messages : List Bytes) : Bytes :=
  stage ++ utf8 ": " ++ Text.decimal messages.length ++ utf8 " error(s): " ++
    Text.join (utf8 "; ") messages

namespace CompileError

def stage : CompileError → Bytes
  | lex _ => utf8 "lex"
  | parse _ => utf8 "parse"
  | codegen _ => utf8 "translate"

def issues : CompileError → List Issue
  | lex errors => errors.map LexError.issue
  | parse errors => errors.map ParseError.issue
  | codegen errors => errors.map CodegenError.issue

def message (error : CompileError) : Bytes :=
  stageMessage error.stage (error.issues.map Issue.message)

end CompileError

structure Output where
  tokens : List Token
  tree : Expr
  /-- The tree that code was generated for: the folded one, or the same tree without folding. -/
  folded : Expr
  variableNames : List Bytes
  assembly : Assembly
  deriving DecidableEq, Repr

/-- The first token after the first semicolon. -/
def secondStatementStart? : List Token → Option Token
  | [] => none
  | [_] => none
  | token :: next :: rest =>
      if token.kind = .semicolon then some next else secondStatementStart? (next :: rest)

/-- The token that an error about the end of a token list points at. -/
def lastToken (tokens : List Token) : Token := tokens.getLast?.getD (.endOfInput 0)

def singleExpression (tokens : List Token) : List Expr → Except ParseError Expr
  | [] => .error ⟨lastToken tokens, .expressionExpected⟩
  | [expr] => .ok expr
  | _ => .error ⟨(secondStatementStart? tokens).getD (lastToken tokens), .trailingInput⟩

namespace CompileLog

def entry (message : String) (attributes : List (Bytes × LogValue)) : LogRecord :=
  ⟨.debug, utf8 message, attributes⟩

def count (name : String) (number : Nat) : Bytes × LogValue := (utf8 name, .int number)

def lexed (result : Lexed) : LogRecord :=
  entry "lexed" [count "tokens" result.tokens.length, count "errors" result.errors.length]

def parsed (result : Parsed) : LogRecord :=
  entry "parsed"
    [count "statements" result.statements.length, count "errors" result.errors.length]

def folded (before after : Expr) : LogRecord :=
  entry "folded" [(utf8 "before", .text before.text), (utf8 "after", .text after.text)]

def failed (errors : List CodegenError) : LogRecord :=
  entry "translation failed" [count "errors" errors.length]

def compiled (variableNames : List Bytes) (assembly : Assembly) : LogRecord :=
  entry "compiled"
    [count "variables" variableNames.length, count "bytes" assembly.bytes.length,
      (utf8 "encoding", .text assembly.encoding), (utf8 "elapsed", .elapsed)]

end CompileLog

def compileTree (options : CompileOptions) (tokens : List Token) (tree : Expr) :
    Except CompileError Output × List LogRecord :=
  let folded := if options.fold then tree.fold else tree
  let foldLog := if options.fold then [CompileLog.folded tree folded] else []
  let variableNames := folded.names
  match generate options.toCodegenOptions variableNames folded with
  | .error errors => (.error (.codegen errors), foldLog ++ [CompileLog.failed errors])
  | .ok assembly =>
      (.ok ⟨tokens, tree, folded, variableNames, assembly⟩,
        foldLog ++ [CompileLog.compiled variableNames assembly])

def compileLogged (options : CompileOptions) (source : Bytes) :
    Except CompileError Output × List LogRecord :=
  let lexed := lex source
  if lexed.errors ≠ [] then (.error (.lex lexed.errors), [CompileLog.lexed lexed])
  else
    let parsed := parse lexed.tokens
    let log := [CompileLog.lexed lexed, CompileLog.parsed parsed]
    if parsed.errors ≠ [] then (.error (.parse parsed.errors), log)
    else
      match singleExpression lexed.tokens parsed.statements with
      | .error problem => (.error (.parse [problem]), log)
      | .ok tree =>
          let (result, later) := compileTree options lexed.tokens tree
          (result, log ++ later)

def compile (options : CompileOptions) (source : Bytes) : Except CompileError Output :=
  (compileLogged options source).1

end ExprCompiler
