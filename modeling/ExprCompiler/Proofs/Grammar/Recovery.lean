import ExprCompiler.Proofs.Grammar.Boundary
import ExprCompiler.Proofs.Grammar.Program

/-!
Recovery from errors. A program is cut at its semicolons. As long as nothing but a semicolon can
start a new statement, each part gives one statement or one error, and it is the one that the part
gives alone.
-/

namespace ExprCompiler

def Parsed.followedBy (first second : Parsed) : Parsed :=
  ⟨first.statements ++ second.statements, first.errors ++ second.errors⟩

def Parsed.joined (parts : List Parsed) : Parsed := parts.foldr Parsed.followedBy ⟨[], []⟩

/-- One statement or one error, and nothing else. -/
def Parsed.IsSingle (parsed : Parsed) : Prop :=
  parsed.statements.length + parsed.errors.length = 1

instance (parsed : Parsed) : Decidable parsed.IsSingle := inferInstanceAs (Decidable (_ = _))

def Parsed.single : Except ParseError Expr → Parsed
  | .ok expr => ⟨[expr], []⟩
  | .error error => ⟨[], [error]⟩

theorem Parsed.is_single_single (result : Except ParseError Expr) : (single result).IsSingle := by
  cases result <;> rfl

@[simp] theorem Parsed.followed_by_empty (parsed : Parsed) :
    parsed.followedBy ⟨[], []⟩ = parsed := by
  simp [Parsed.followedBy]

namespace Grammar

/-- A token that neither ends a statement nor starts one. -/
def IsPlain (token : Token) : Prop :=
  token.kind ∉ [TokenKind.eof, .semicolon, .ifWord, .whileWord, .repeatWord, .print, .println,
    .leftBrace]

instance (token : Token) : Decidable (IsPlain token) := inferInstanceAs (Decidable (¬_))

structure Segment where
  body : List Token
  semicolon : Token
  plain : ∀ token ∈ body, IsPlain token
  isSemicolon : semicolon.kind = .semicolon

def Segment.tokens (segment : Segment) : List Token := segment.body ++ [segment.semicolon]

theorem IsPlain.not_eof {token : Token} (plain : IsPlain token) : token.kind ≠ .eof := by
  intro kind
  exact plain (by simp [kind])

theorem IsPlain.not_semicolon {token : Token} (plain : IsPlain token) :
    token.kind ≠ .semicolon := by
  intro kind
  exact plain (by simp [kind])

theorem IsPlain.not_start {token : Token} (plain : IsPlain token) :
    startsStatement token.kind = false := by
  rw [startsStatement, List.contains_eq_mem, decide_eq_false_iff_not]
  intro starts
  apply plain
  simp only [List.mem_cons] at starts ⊢
  exact .inr (.inr starts)

theorem Segment.tokens_not_eof (segment : Segment) :
    ∀ token ∈ segment.tokens, token.kind ≠ .eof := by
  intro token member
  rcases List.mem_append.mp member with inBody | isLast
  · exact (segment.plain token inBody).not_eof
  · rw [List.mem_singleton.mp isLast, segment.isSemicolon]
    decide

variable {finish : Token} {body left tail : List Token}

theorem skip_past_semicolon {semicolon : Token} (isSemicolon : semicolon.kind = .semicolon)
    (rest : List Token) : skipPast semicolon rest = rest := by
  cases rest with
  | nil => rfl
  | cons next later => rw [skipPast, if_pos (by simp [isSemicolon])]

theorem skip_plain {previous : Token} (notSemicolon : previous.kind ≠ .semicolon)
    (plain : ∀ token ∈ left, IsPlain token) (boundary : IsBoundary tail) :
    skipPast previous (left ++ tail) = tail.tail := by
  induction left generalizing previous with
  | nil =>
      cases tail with
      | nil => rfl
      | cons semicolon rest =>
          have isSemicolon := boundary semicolon rfl
          have goesOn : ¬(decide (previous.kind = .semicolon) ||
              startsStatement semicolon.kind) = true := by
            rw [isSemicolon]
            simp [notSemicolon, startsStatement]
          rw [List.nil_append, skipPast, if_neg goesOn, skip_past_semicolon isSemicolon,
            List.tail_cons]
  | cons token left induction =>
      have here := plain token (by simp)
      have goesOn : ¬(decide (previous.kind = .semicolon) ||
          startsStatement token.kind) = true := by
        simp [notSemicolon, here.not_start]
      rw [List.cons_append, skipPast, if_neg goesOn]
      exact induction here.not_semicolon fun other member => plain other (by simp [member])

/-- Recovery goes on behind the semicolon, wherever in front of it or at it the error was. -/
theorem synchronize_plain (plain : ∀ token ∈ left, IsPlain token) (boundary : IsBoundary tail) :
    synchronize (left ++ tail) = tail.tail := by
  cases left with
  | cons token left =>
      exact skip_plain (plain token (by simp)).not_semicolon
        (fun other member => plain other (by simp [member])) boundary
  | nil =>
      cases tail with
      | nil => rfl
      | cons semicolon rest => exact skip_past_semicolon (boundary semicolon rfl) rest

/-- A statement of plain tokens is read up to its boundary, or fails in front of it. -/
theorem statement_local (plain : ∀ token ∈ body, IsPlain token) :
    (∃ expr, ∀ finish tail, IsBoundary tail →
        (parseStatement finish (body ++ tail)).outcome = (.ok expr, tail.tail)) ∨
      ∃ (error : Token → ParseError) (left : List Token), (∀ token ∈ left, IsPlain token) ∧
        ∀ finish tail, IsBoundary tail → (parseStatement finish (body ++ tail)).outcome =
          (.error (error (tail.headD finish)), left ++ tail) := by
  cases bounded body Tier.all with
  | failed error left isSuffix same =>
      -- The tokens that are left are some of the body's, so recovery finds no keyword among them.
      refine .inr ⟨error, left, fun token member => plain token (isSuffix.subset member), ?_⟩
      intro finish tail boundary
      rw [outcome_parse_statement, same finish tail boundary]
      rfl
  | parsed expr left isSuffix same =>
      cases left with
      | nil =>
          refine .inl ⟨expr, ?_⟩
          intro finish tail boundary
          rw [outcome_parse_statement, same finish tail boundary]
          cases tail with
          | nil => rfl
          | cons semicolon rest => exact if_pos (boundary semicolon rfl)
      | cons token left =>
          have leftPlain : ∀ other ∈ token :: left, IsPlain other :=
            fun other member => plain other (isSuffix.subset member)
          refine .inr ⟨fun _ => ⟨token, .semicolonExpected⟩, token :: left, leftPlain, ?_⟩
          intro finish tail boundary
          rw [outcome_parse_statement, same finish tail boundary]
          exact if_neg (leftPlain token (by simp)).not_semicolon

/-- One part of a program gives one result, and reading goes on behind its semicolon. -/
theorem one_result (plain : ∀ token ∈ body, IsPlain token) :
    ∃ result : Token → Except ParseError Expr, ∀ finish tail, IsBoundary tail →
      body ++ tail ≠ [] → parseStatements finish (body ++ tail) =
        (Parsed.single (result (tail.headD finish))).followedBy
          (parseStatements finish tail.tail) := by
  rcases statement_local plain with ⟨expr, read⟩ | ⟨error, left, leftPlain, read⟩
  · refine ⟨fun _ => .ok expr, ?_⟩
    intro finish tail boundary some
    exact statements_of_outcome some (read finish tail boundary)
  · refine ⟨fun mark => .error (error mark), ?_⟩
    intro finish tail boundary some
    rw [statements_of_failure some (read finish tail boundary),
      synchronize_plain leftPlain boundary]
    rfl

theorem statements_nil : parseStatements finish [] = ⟨[], []⟩ := by
  rw [parseStatements]

theorem segment_first (segment : Segment) :
    ∃ result, (∀ mark : Token, mark.kind = .eof →
        parse (segment.tokens ++ [mark]) = Parsed.single result) ∧
      ∀ finish rest, parseStatements finish (segment.tokens ++ rest) =
        (Parsed.single result).followedBy (parseStatements finish rest) := by
  obtain ⟨result, read⟩ := one_result segment.plain
  have first (finish : Token) (rest : List Token) :
      parseStatements finish (segment.tokens ++ rest) =
        (Parsed.single (result segment.semicolon)).followedBy (parseStatements finish rest) := by
    have boundary : IsBoundary (segment.semicolon :: rest) := by
      simpa [IsBoundary] using segment.isSemicolon
    have whole := read finish (segment.semicolon :: rest) boundary (by simp)
    rw [Segment.tokens, List.append_assoc, List.singleton_append]
    exact whole
  refine ⟨result segment.semicolon, ?_, first⟩
  intro mark isMark
  have alone := first mark []
  rw [List.append_nil, statements_nil, Parsed.followed_by_empty] at alone
  rw [parse_before_end segment.tokens_not_eof isMark, alone]

theorem last_single (plain : ∀ token ∈ body, IsPlain token) (some : body ≠ []) :
    (parseStatements finish body).IsSingle := by
  obtain ⟨result, read⟩ := one_result plain
  have whole := read finish [] (by simp [IsBoundary]) (by simpa using some)
  rw [List.append_nil, List.tail_nil, statements_nil, Parsed.followed_by_empty] at whole
  rw [whole]
  exact Parsed.is_single_single _

theorem statements_of_segments {mark : Token} (isMark : mark.kind = .eof) (segments : List Segment)
    (last : List Token) :
    parseStatements finish (segments.flatMap Segment.tokens ++ last) =
      Parsed.joined ((segments.map fun segment => parse (segment.tokens ++ [mark])) ++
        [parseStatements finish last]) := by
  induction segments with
  | nil =>
      rw [List.flatMap_nil, List.nil_append]
      exact (Parsed.followed_by_empty _).symm
  | cons segment segments induction =>
      obtain ⟨result, alone, first⟩ := segment_first segment
      rw [List.flatMap_cons, List.append_assoc, first, induction, List.map_cons, alone mark isMark]
      rfl

/-- A program of segments, perhaps with a last part that no semicolon ends, is read as its parts
are: each gives one statement or one error, the same as alone. -/
theorem parse_segments (segments : List Segment) (last : List Token) (finish mark : Token)
    (plain : ∀ token ∈ last, IsPlain token) (isEnd : finish.kind = .eof)
    (isMark : mark.kind = .eof) :
    parse (segments.flatMap Segment.tokens ++ last ++ [finish]) =
        Parsed.joined ((segments.map fun segment => parse (segment.tokens ++ [mark])) ++
          [parse (last ++ [finish])]) ∧
      (∀ segment ∈ segments, (parse (segment.tokens ++ [mark])).IsSingle) ∧
      (last = [] → parse (last ++ [finish]) = ⟨[], []⟩) ∧
      (last ≠ [] → (parse (last ++ [finish])).IsSingle) := by
  have noEnd : ∀ token ∈ last, token.kind ≠ .eof := fun token member => (plain token member).not_eof
  have noEndBefore : ∀ token ∈ segments.flatMap Segment.tokens ++ last, token.kind ≠ .eof := by
    intro token member
    rcases List.mem_append.mp member with inSegments | inLast
    · obtain ⟨segment, _, inSegment⟩ := List.mem_flatMap.mp inSegments
      exact segment.tokens_not_eof token inSegment
    · exact noEnd token inLast
  rw [parse_before_end noEndBefore isEnd, parse_before_end noEnd isEnd]
  refine ⟨statements_of_segments isMark segments last, ?_, ?_, last_single plain⟩
  · intro segment _
    obtain ⟨result, alone, _⟩ := segment_first segment
    rw [alone mark isMark]
    exact Parsed.is_single_single result
  · rintro rfl
    exact statements_nil

def semicolonToken : Token := ⟨.semicolon, utf8 ";", .absent, ⟨1, .empty⟩, .empty⟩

def brokenSegment : Segment :=
  ⟨[numberToken 9, numberToken 3], semicolonToken, by decide, rfl⟩

def emptySegment : Segment := ⟨[], semicolonToken, by decide, rfl⟩

def differenceSegment : Segment :=
  ⟨[numberToken 9, minusToken, numberToken 3], semicolonToken, by decide, rfl⟩

/-- In `9 3 ; ; 9 - 3 ; 9 -` one statement is read and three parts fail, each at its own token. -/
theorem three_errors_kept_apart :
    parse ([brokenSegment, emptySegment, differenceSegment].flatMap Segment.tokens ++
        [numberToken 9, minusToken] ++ [.endOfInput 1]) =
      ⟨[.binary (.literal (.int 9)) minusToken (.literal (.int 3))],
        [⟨numberToken 3, .semicolonExpected⟩, ⟨semicolonToken, .unexpectedExpression⟩,
          ⟨.endOfInput 1, .unexpectedExpression⟩]⟩ := by
  rw [(parse_segments _ _ _ (.endOfInput 1) (by decide) rfl rfl).1]
  decide +kernel

end Grammar
end ExprCompiler
