import ExprCompiler.Proofs.Codegen.Acceptance
import ExprCompiler.Proofs.Grammar.Blame
import ExprCompiler.Proofs.Token.Places

/-!
Errors that point into their source. The place of an error of the lexer or the parser is one of a
token, of a part of one or of the end of the source, so a report always finds the line that it has
to show, and its carets stand under just the bytes that the error is about.
-/

namespace ExprCompiler

def caret : UInt8 := 0x5e

/-- A position whose issues are reported with their source line, and with carets under just its
columns; one caret behind the line stands for no columns. -/
def Position.IsShown (source : Bytes) (position : Position) : Prop :=
  ∃ line, sourceLine? (Text.lines source) position.line = some line ∧
    (∀ colored text, reportIssue colored (Text.lines source) (.located position text) =
      ReportPart.location.paint colored (locationText position.line
          (if position.columns.isEmpty then (line.length : Int) else position.columns.first)) ++
        utf8 " " ++ text ++ [10] ++ [9] ++ line ++ [10] ++
        [9] ++ ReportPart.caret.paint colored (underline line position.columns) ++ [10]) ∧
    ∀ index : Nat, (underline line position.columns)[index]? = some caret ↔
      if position.columns.isEmpty then index = line.length
      else position.columns.first ≤ index ∧ (index : Int) ≤ position.columns.last

section Carets

variable {line : Bytes} {columns : Span}

theorem caret_at {margin : Bytes} (plain : ∀ byte ∈ margin, byte ≠ caret) (width index : Nat) :
    (margin ++ List.replicate width caret)[index]? = some caret ↔
      margin.length ≤ index ∧ index < margin.length + width := by
  by_cases inMargin : index < margin.length
  · rw [List.getElem?_append_left inMargin]
    refine iff_of_false ?_ (by omega)
    intro found
    exact plain caret (List.mem_of_getElem? found) rfl
  · rw [List.getElem?_append_right (by omega), List.getElem?_replicate]
    by_cases inside : index - margin.length < width
    · rw [if_pos inside]
      exact iff_of_true rfl (by omega)
    · rw [if_neg inside]
      exact iff_of_false (fun same => nomatch same) (by omega)

theorem underline_from {start width : Nat} (inside : start ≤ line.length) (index : Nat) :
    (((line.take start).map fun byte => if byte = 9 then 9 else 0x20) ++
      List.replicate (start - line.length) 0x20 ++ List.replicate width caret)[index]? =
        some caret ↔ start ≤ index ∧ index < start + width := by
  have none : start - line.length = 0 := by omega
  have length : ((line.take start).map fun byte => if byte = 9 then (9 : UInt8) else 0x20).length =
      start := by
    rw [List.length_map, List.length_take, Nat.min_eq_left inside]
  have plain : ∀ byte ∈ (line.take start).map fun byte => if byte = 9 then (9 : UInt8) else 0x20,
      byte ≠ caret := by
    intro byte member
    obtain ⟨_, _, rfl⟩ := List.mem_map.mp member
    split <;> decide
  rw [none, List.replicate_zero, List.append_nil, caret_at plain, length]

theorem underline_columns (low : 0 ≤ columns.first) (ordered : columns.first ≤ columns.last)
    (inside : columns.last < line.length) (index : Nat) :
    (underline line columns)[index]? = some caret ↔
      columns.first ≤ index ∧ (index : Int) ≤ columns.last := by
  have some : columns.isEmpty = false := by
    rw [Span.isEmpty, decide_eq_false_iff_not]
    omega
  have found := @underline_from line columns.first.toNat columns.size (by omega) index
  unfold underline
  simp only [some, Bool.false_eq_true, if_false]
  rw [caret] at found ⊢
  rw [found, Span.size]
  omega

theorem underline_end (empty : columns.isEmpty = true) (index : Nat) :
    (underline line columns)[index]? = some caret ↔ index = line.length := by
  have found := @underline_from line line.length 1 (Nat.le_refl _) index
  unfold underline
  simp only [empty, if_true]
  rw [caret] at found ⊢
  rw [found]
  omega

end Carets

section Shown

variable {source bytes line : Bytes} {position : Position}

theorem shown_of_line (found : sourceLine? (Text.lines source) position.line = some line)
    (carets : ∀ index : Nat, (underline line position.columns)[index]? = some caret ↔
      if position.columns.isEmpty then index = line.length
      else position.columns.first ≤ index ∧ (index : Int) ≤ position.columns.last) :
    position.IsShown source := by
  refine ⟨line, found, ?_, carets⟩
  intro colored text
  simp only [reportIssue, Issue.located, found]

theorem source_line_at {number : Nat} (stands : (Text.lines source)[number]? = some line)
    (here : position.line = number) :
    sourceLine? (Text.lines source) position.line = some (withoutCarriageReturns line) := by
  rw [sourceLine?, here, if_neg (by omega), Int.toNat_natCast, stands]
  rfl

theorem shown_of_marks (marks : position.Marks source bytes) : position.IsShown source := by
  obtain ⟨number, line, here, stands, low, ordered, inside, _⟩ := marks
  have some : position.columns.isEmpty = false := by
    rw [Span.isEmpty, decide_eq_false_iff_not]
    omega
  apply shown_of_line (source_line_at stands here)
  intro index
  rw [some]
  exact underline_columns low ordered inside index

theorem shown_of_marks_end (marks : position.MarksEnd source) : position.IsShown source := by
  obtain ⟨last, empty⟩ := marks
  have some : 0 < (Text.lines source).length := by
    rw [Text.lines_length]
    omega
  have below : (Text.lines source).length - 1 < (Text.lines source).length := by omega
  apply shown_of_line (source_line_at (List.getElem?_eq_getElem below) (by omega))
  intro index
  rw [empty]
  exact underline_end empty index

end Shown

/-- Where the errors of a failure point. An error of the lexer marks the bytes that no token can be
made of, one of the parser the lexeme of a token or the end of the source. Errors about code point
nowhere. -/
def PointsInto (source : Bytes) : CompileError → Prop
  | .lex errors => ∀ problem ∈ errors, ∃ before taken rest, source = before ++ (taken ++ rest) ∧
      Lexicon.Round before taken rest none (some problem) ∧
      problem.position.Marks source (problem.cause.marked taken)
  | .parse errors => ∀ problem ∈ errors, problem.token ∈ (lex source).tokens ∧
      (problem.token.kind ≠ .eof ∧ problem.position.Marks source problem.token.lexeme ∨
        problem.token.kind = .eof ∧ problem.position.MarksEnd source)
  | .codegen errors => ∀ problem ∈ errors, problem.issue.position = none

section Failures

variable {options : CompileOptions} {source : Bytes} {error : CompileError}

theorem failure_cases (failed : compile options source = .error error) :
    error = .lex (lex source).errors ∨
      (∃ problems, error = .parse problems ∧ ∀ problem ∈ problems,
        problem ∈ (parse (lex source).tokens).errors ∨
          singleExpression (lex source).tokens (parse (lex source).tokens).statements =
            .error problem) ∨
      ∃ problems, error = .codegen problems := by
  rw [compile, compileLogged] at failed
  dsimp only at failed
  split at failed
  · cases failed
    exact .inl rfl
  · split at failed
    · cases failed
      exact .inr (.inl ⟨_, rfl, fun problem member => .inl member⟩)
    · split at failed
      · rename_i problem single
        cases failed
        refine .inr (.inl ⟨_, rfl, ?_⟩)
        intro other member
        rw [List.mem_singleton.mp member]
        exact .inr single
      · rw [compileTree] at failed
        dsimp only at failed
        split at failed
        · cases failed
          exact .inr (.inr ⟨_, rfl⟩)
        · cases failed

theorem parse_error_token {problem : ParseError}
    (reported : problem ∈ (parse (lex source).tokens).errors ∨
      singleExpression (lex source).tokens (parse (lex source).tokens).statements =
        .error problem) : problem.token ∈ (lex source).tokens := by
  rcases reported with member | single
  · apply Grammar.parse_blames _ _ rfl problem member
    intro token inBody
    exact (tokens_from_shaped (pieces_shaped source) token inBody).1
  · apply Grammar.single_expression_blames _ single
    exact List.append_ne_nil_of_right_ne_nil _ (List.cons_ne_nil _ _)

theorem failure_points (failed : compile options source = .error error) :
    PointsInto source error := by
  rcases failure_cases failed with rfl | ⟨problems, rfl, reported⟩ | ⟨problems, rfl⟩
  · intro problem member
    exact lex_error_marks member
  · intro problem member
    have inTokens := parse_error_token (reported problem member)
    exact ⟨inTokens, token_marks inTokens⟩
  · exact fun problem _ => rfl

/-- Every error of a compilation that has a place points into the source, so that a report shows
its line and carets under just what it is about. -/
theorem compile_errors_point_inside (failed : compile options source = .error error) :
    PointsInto source error ∧
      ∀ issue ∈ error.issues, ∀ position, issue.position = some position →
        position.IsShown source := by
  have points := failure_points failed
  refine ⟨points, ?_⟩
  intro issue member position located
  cases error with
  | lex errors =>
      obtain ⟨problem, inErrors, rfl⟩ := List.mem_map.mp member
      cases located
      obtain ⟨_, _, _, _, _, marks⟩ := points problem inErrors
      exact shown_of_marks marks
  | parse errors =>
      obtain ⟨problem, inErrors, rfl⟩ := List.mem_map.mp member
      cases located
      rcases (points problem inErrors).2 with ⟨_, marks⟩ | ⟨_, marks⟩
      · exact shown_of_marks marks
      · exact shown_of_marks_end marks
  | codegen errors =>
      obtain ⟨problem, inErrors, rfl⟩ := List.mem_map.mp member
      cases located

/-- A parenthesis that is still open at the end of the last line. -/
theorem open_group_points_to_end :
    ∃ problem, compile {} (utf8 "(1 +\r\n2\r") = .error (.parse [problem]) ∧
      problem.position = ⟨1, .empty⟩ ∧ problem.position.IsShown (utf8 "(1 +\r\n2\r") := by
  have lexed : (lex (utf8 "(1 +\r\n2\r")).errors = [] := by decide +kernel
  have parsed : parse (lex (utf8 "(1 +\r\n2\r")).tokens =
      ⟨[], [⟨.endOfInput 1, .closingParenExpected⟩]⟩ := by decide +kernel
  have failed : compile {} (utf8 "(1 +\r\n2\r") =
      .error (.parse [⟨.endOfInput 1, .closingParenExpected⟩]) := by
    simp [compile, compileLogged, lexed, parsed]
  obtain ⟨_, shown⟩ := compile_errors_point_inside failed
  exact ⟨_, failed, rfl, shown _ (List.mem_singleton_self _) _ rfl⟩

end Failures

end ExprCompiler
