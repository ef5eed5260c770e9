import ExprCompiler.Issue

/-!
Reports of issues for people: a count, then every issue with the source line it is about and a row
of carets under the columns it covers.
-/

namespace ExprCompiler

/-- The row under a source line that marks some of its columns. Tabs are kept so that the carets
stand under what they mark; an empty span marks the end of the line with a single caret. -/
def underline (line : Bytes) (columns : Span) : Bytes :=
  let start := if columns.isEmpty then line.length else columns.first.toNat
  let width := if columns.isEmpty then 1 else columns.size
  let margin := (line.take start).map fun byte => if byte = 9 then 9 else 0x20
  margin ++ List.replicate (start - line.length) 0x20 ++ List.replicate width 0x5e

inductive ReportPart where
  | header | location | caret | label
  deriving DecidableEq, Repr

namespace ReportPart

def codes : ReportPart → String × String
  | header => ("31;1", "0;22")
  | location => ("36", "0")
  | caret => ("32;1", "0;22")
  | label => ("31", "0")

def escape (code : String) : Bytes := 0x1b :: (utf8 "[" ++ utf8 code ++ utf8 "m")

def paint (part : ReportPart) (colored : Bool) (text : Bytes) : Bytes :=
  if colored then escape part.codes.1 ++ text ++ escape part.codes.2 else text

end ReportPart

structure ReportOptions where
  /-- How many issues are shown in full; the default of ten stands in for a count below one. -/
  maxErrors : Int := 10
  colored : Bool := false
  deriving DecidableEq, Repr

namespace ReportOptions

def limit (options : ReportOptions) : Nat :=
  if options.maxErrors ≤ 0 then 10 else options.maxErrors.toNat

end ReportOptions

def withoutCarriageReturns (line : Bytes) : Bytes :=
  (line.reverse.dropWhile (· == 13)).reverse

def locationText (line column : Int) : Bytes :=
  utf8 "(" ++ Text.decimal line ++ utf8 ":" ++ Text.decimal column ++ utf8 "):"

def sourceLine? (lines : List Bytes) (number : Int) : Option Bytes :=
  if number < 0 then none else lines[number.toNat]?.map withoutCarriageReturns

/-- One issue: its place and message, the source line and the carets. An issue without a place, or
about a line that the source does not have, is a single line. -/
def reportIssue (colored : Bool) (lines : List Bytes) (issue : Issue) : Bytes :=
  match issue.position with
  | none => ReportPart.label.paint colored (utf8 "error:") ++ utf8 " " ++ issue.text ++ [10]
  | some position =>
      let first := position.columns.first
      match sourceLine? lines position.line with
      | none =>
          ReportPart.location.paint colored (locationText position.line first) ++ utf8 " " ++
            issue.text ++ [10]
      | some line =>
          let column := if position.columns.isEmpty then (line.length : Int) else first
          ReportPart.location.paint colored (locationText position.line column) ++ utf8 " " ++
            issue.text ++ [10] ++
            [9] ++ line ++ [10] ++
            [9] ++ ReportPart.caret.paint colored (underline line position.columns) ++ [10]

def report (options : ReportOptions) (source : Bytes) (issues : List Issue) : Bytes :=
  if issues.isEmpty then []
  else
    let lines := Text.lines source
    let shown := issues.take options.limit
    let hidden := issues.length - shown.length
    ReportPart.header.paint options.colored
        (Text.decimal issues.length ++ utf8 " error(s) found:") ++ [10] ++
      shown.flatMap (reportIssue options.colored lines) ++
      (if hidden = 0 then []
        else utf8 "and " ++ Text.decimal hidden ++ utf8 " more...\n")

end ExprCompiler
