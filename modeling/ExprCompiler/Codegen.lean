import ExprCompiler.Assembly.Buffer
import ExprCompiler.Charset.Common
import ExprCompiler.Expr.Basic
import ExprCompiler.Issue

/-!
From a tree to a listing. The program prompts for every variable and reads it, evaluates the
expression on the machine stack and prints the result. What the machine code cannot express is
reported instead, every case of it in the order it is met.
-/

namespace ExprCompiler

/-- How the high half of a dividend is prepared. -/
inductive DivisionMode where
  /-- The sign of the dividend is extended, which is right for every dividend. -/
  | sign
  /-- Zero is used, which takes the dividend as unsigned. -/
  | zero
  deriving DecidableEq, Repr

namespace DivisionMode

def name : DivisionMode → Bytes
  | sign => utf8 "sign"
  | zero => utf8 "zero"

def ofCode (code : Int) : DivisionMode := if code = 1 then zero else sign

/-- Reads a mode without regard to case and surrounding blanks; the empty text means `sign`. -/
def ofText? (text : Bytes) : Option DivisionMode :=
  let word := Text.lowerCase (Text.trim text)
  if word = [] || word = utf8 "sign" then some sign
  else if word = utf8 "zero" then some zero
  else none

def unknownMessage (text : Bytes) : Bytes := utf8 "unknown division mode: " ++ Text.quote text

end DivisionMode

inductive CodegenErrorKind where
  | unsupportedExpression
  | unsupportedOperation
  | unsupportedOperand
  | unsupportedEncoding
  deriving DecidableEq, Repr

namespace CodegenErrorKind

def ofCode? (code : Int) : Option CodegenErrorKind :=
  if code = 0 then some unsupportedExpression
  else if code = 1 then some unsupportedOperation
  else if code = 2 then some unsupportedOperand
  else if code = 3 then some unsupportedEncoding
  else none

def name : CodegenErrorKind → Bytes
  | unsupportedExpression => utf8 "UnsupportedExpression"
  | unsupportedOperation => utf8 "UnsupportedOperation"
  | unsupportedOperand => utf8 "UnsupportedOperand"
  | unsupportedEncoding => utf8 "UnsupportedEncoding"

def nameOfCode (code : Int) : Bytes :=
  match ofCode? code with
  | some kind => kind.name
  | none => utf8 "TranslationErrorKind(" ++ Text.decimal code ++ utf8 ")"

end CodegenErrorKind

structure CodegenError where
  kind : CodegenErrorKind
  detail : Bytes
  deriving DecidableEq, Repr

def CodegenError.message (error : CodegenError) : Bytes :=
  error.kind.name ++ utf8 ": " ++ error.detail

def CodegenError.issue (error : CodegenError) : Issue := .plain error.message

def variableLabel (name : Bytes) : Bytes := utf8 "var_" ++ name

def promptLabel (name : Bytes) : Bytes := utf8 "prompt_" ++ name

namespace Line

def op (mnemonic : Mnemonic) (operands : List Operand) : Line := .instruction mnemonic operands

def call (name : Bytes) : Line := op .call [.label name]

def pushLabel (name : Bytes) : Line := op .push [.label name]

def pop (register : Register) : Line := op .pop [.register register]

def push (register : Register) : Line := op .push [.register register]

def release (bytes : Int) : Line := op .add [.register .esp, .immediate bytes]

end Line

/-- Divides eax by ebx: the quotient comes to eax, the remainder to edx. -/
def divisionLines (mode : DivisionMode) : List Line :=
  [match mode with
    | .sign => Line.op .cdq []
    | .zero => Line.op .mov [.register .edx, .immediate 0],
   Line.op .idiv [.register .ebx]]

def operatorLines (mode : DivisionMode) : TokenKind → List Line
  | .plus => [Line.op .add [.register .eax, .register .ebx]]
  | .minus => [Line.op .sub [.register .eax, .register .ebx]]
  | .star => [Line.op .imul [.register .eax, .register .ebx]]
  | .slash => divisionLines mode
  | .percent => divisionLines mode ++ [Line.op .mov [.register .eax, .register .edx]]
  | _ => []

/-- The binary operators that have machine code. -/
def isArithmetic (kind : TokenKind) : Bool :=
  [.plus, .minus, .star, .slash, .percent].contains kind

namespace Expr

/-- Code that leaves the value of a tree on top of the stack. -/
def code (mode : DivisionMode) : Expr → List Line
  | literal (.int word) => [Line.op .push [.immediate word.toInt]]
  | reference name =>
      [Line.op .push [.memory (some .dword) (.label (variableLabel name.lexeme)) 0]]
  | grouping inner => inner.code mode
  | unary op right =>
      right.code mode ++ [Line.pop .eax] ++
        (if op.kind = .minus then [Line.op .neg [.register .eax]] else []) ++ [Line.push .eax]
  | binary left op right =>
      left.code mode ++ right.code mode ++ [Line.pop .ebx, Line.pop .eax] ++
        operatorLines mode op.kind ++ [Line.push .eax]
  | _ => []

/-- What stands in the way of code for a tree over the declared names. -/
def unsupported (declared : List Bytes) : Expr → List CodegenError
  | literal (.int _) => []
  | literal value => [⟨.unsupportedOperand, value.literal⟩]
  | reference name =>
      if declared.contains name.lexeme then []
      else
        [⟨.unsupportedOperand, utf8 "variable " ++ name.lexeme ++ utf8 " is not declared"⟩]
  | grouping inner => inner.unsupported declared
  | unary op right =>
      right.unsupported declared ++
        (if op.kind = .minus then [] else [⟨.unsupportedOperation, op.kind.name⟩])
  | binary left op right =>
      left.unsupported declared ++ right.unsupported declared ++
        (if isArithmetic op.kind then [] else [⟨.unsupportedOperation, op.kind.name⟩])
  | logical left op right => [⟨.unsupportedExpression, (logical left op right).text⟩]
  | assign name value => [⟨.unsupportedExpression, (assign name value).text⟩]
  | absent => [⟨.unsupportedExpression, utf8 "<nil>"⟩]

end Expr

def readLines (name : Bytes) : List Line :=
  [Line.pushLabel (promptLabel name), Line.call (utf8 "printf"), Line.release 4,
    Line.pushLabel (variableLabel name), Line.pushLabel (utf8 "read_format"),
    Line.call (utf8 "scanf"), Line.release 8]

def finishLines : List Line :=
  [Line.pushLabel (utf8 "write_format"), Line.call (utf8 "printf"), Line.release 8,
    Line.op .mov [.register .eax, .immediate 0], Line.op .ret []]

def dataLines (names : List Bytes) : List Line :=
  [Line.sectionHeader (utf8 ".rdata"),
    Line.data (utf8 "read_format") (utf8 "db") [utf8 "\"%d\"", utf8 "0"],
    Line.data (utf8 "write_format") (utf8 "db") [utf8 "\"%d\"", utf8 "10", utf8 "0"]] ++
  names.map (fun name =>
    Line.data (promptLabel name) (utf8 "db")
      [utf8 "\"" ++ name ++ utf8 " = \"", utf8 "0"]) ++
  [Line.sectionHeader (utf8 ".bss")] ++
  names.map (fun name => Line.data (variableLabel name) (utf8 "resd") [utf8 "1"])

/-- The whole program for a tree over its variables, before any peephole pass. -/
def programLines (mode : DivisionMode) (names : List Bytes) (expr : Expr) : List Line :=
  [Line.sectionHeader (utf8 ".text"), Line.directive (utf8 "global") (utf8 "main"),
    Line.directive (utf8 "extern") (utf8 "printf"), Line.directive (utf8 "extern") (utf8 "scanf"),
    Line.label (utf8 "main")] ++
  names.flatMap readLines ++ expr.code mode ++ finishLines ++ dataLines names

structure Assembly where
  bytes : Bytes
  /-- Name of the character set. -/
  encoding : Bytes
  deriving DecidableEq, Repr

/-- The listing as a text; fails with a message if its character set is not known. -/
def Assembly.text (charsets : CharsetRegistry) (assembly : Assembly) : Except Bytes Bytes :=
  match charsets.resolve assembly.encoding with
  | .ok charset => .ok (charset.decode assembly.bytes)
  | .error name => .error (CharsetRegistry.unknownMessage name)

structure CodegenOptions where
  peephole : Bool := true
  division : DivisionMode := .sign
  /-- Name of the character set of the listing. -/
  encoding : Bytes := utf8 "UTF-8"
  charsets : CharsetRegistry := .common

def listingText (options : CodegenOptions) (names : List Bytes) (expr : Expr) : Bytes :=
  (({ peephole := options.peephole : Buffer }).emitAll
    (programLines options.division names expr)).text

def generate (options : CodegenOptions) (names : List Bytes) (expr : Expr) :
    Except (List CodegenError) Assembly :=
  match expr.unsupported names with
  | [] =>
      match options.charsets.resolve options.encoding with
      | .error name => .error [⟨.unsupportedEncoding, CharsetRegistry.unknownMessage name⟩]
      | .ok charset =>
          match charset.encode (listingText options names expr) with
          | .ok bytes => .ok ⟨bytes, charset.canonical⟩
          | .error problem => .error [⟨.unsupportedEncoding, problem⟩]
  | errors => .error errors

end ExprCompiler
