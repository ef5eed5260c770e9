import ExprCompiler.Proofs.Grammar.Boundary
import ExprCompiler.Proofs.Grammar.Exchange
import ExprCompiler.Proofs.Grammar.Follow

/-!
Progress. A cursor that starts in front of some words comes to what is read off the list of them,
and never looks behind the mark for their end. Every statement and every recovery passes a token, so
there are no more results than words, and an error is behind the one before it.
-/

namespace ExprCompiler.Indexed

open Grammar

variable {input tokens : List Token} {finish : Token} {stop depth index : Nat}

theorem failed_inside {rest : List Token} {error : ParseError}
    (read : (parseStatement finish tokens).outcome = (.error error, rest)) :
    ∃ used, tokens = used ++ rest ∧ ∀ token ∈ used, token.kind ≠ .semicolon := by
  let body := tokens.takeWhile (·.kind ≠ .semicolon)
  let tail := tokens.dropWhile (·.kind ≠ .semicolon)
  have whole : body ++ tail = tokens := List.takeWhile_append_dropWhile
  have boundary : IsBoundary tail := by
    intro token isFirst
    have stops := List.head?_dropWhile_not (·.kind ≠ TokenKind.semicolon) tokens
    rw [isFirst] at stops
    simpa using stops
  have inside (left : List Token) (isSuffix : left <:+ body) :
      ∃ used, tokens = used ++ (left ++ tail) ∧ ∀ token ∈ used, token.kind ≠ .semicolon := by
    obtain ⟨used, split⟩ := isSuffix
    refine ⟨used, by rw [← whole, ← split, List.append_assoc], ?_⟩
    intro token member
    have inBody : token ∈ body := by
      rw [← split]
      exact List.mem_append_left _ member
    simpa using List.all_eq_true.mp List.all_takeWhile token inBody
  rw [outcome_parse_statement] at read
  cases bounded body Tier.all with
  | failed error' left isSuffix same =>
      rw [← whole, same finish tail boundary] at read
      cases read
      exact inside left isSuffix
  | parsed expr left isSuffix same =>
      rw [← whole, same finish tail boundary] at read
      have ended : endStatement expr (left ++ tail) = (.error error, rest) := read
      obtain ⟨used, split, noSemicolon⟩ := inside left isSuffix
      refine ⟨used, ?_, noSemicolon⟩
      rw [split]
      cases more : left ++ tail with
      | nil =>
          rw [more] at ended
          cases ended
      | cons token after =>
          rw [more, endStatement] at ended
          split at ended <;> cases ended
          rfl

/-- So there is always something to recover from behind a failure. -/
theorem reaches_amid {used rest : List Token} {next : Nat}
    (stands : Stands input finish stop (used ++ rest) index)
    (standsNext : Stands input finish stop rest next)
    (inside : ∀ token ∈ used, token.kind ≠ .semicolon) :
    Reaches (isAmid input index) next true next := by
  have here := stands.stop
  have later := standsNext.stop
  rw [List.length_append] at here
  obtain rfl : next = index + used.length := by omega
  rw [isAmid]
  apply reaches_here.bind
  cases last : used.getLast? with
  | none =>
      rw [List.getLast?_eq_none_iff.mp last, List.length_nil, Nat.add_zero, if_pos rfl]
      exact .pure _ _
  | some token =>
      obtain ⟨before, rfl⟩ := List.getLast?_eq_some_iff.mp last
      have passed : input[index + before.length]? = some token := by
        rw [stands.ahead_at (by simp)]
        simp
      rw [List.length_append, List.length_singleton, if_neg (by omega)]
      apply (reaches_previous passed).bind
      rw [decide_eq_true (inside token (by simp))]
      exact .pure _ _

theorem reaches_skip {passed : Token} (under : input[index]? = some passed)
    (deep : tokens.length < depth) (stands : Stands input finish stop tokens (index + 1)) :
    ∃ next, index < next ∧ Stands input finish stop (skipPast passed tokens) next ∧
      Reaches (skip input depth) (index + 1) () next := by
  induction tokens generalizing passed depth index with
  | nil =>
      obtain ⟨below, rfl⟩ := Nat.exists_eq_add_one_of_ne_zero (Nat.ne_zero_of_lt deep)
      refine ⟨index + 1, by omega, stands, ?_⟩
      rw [skip]
      exact stands.reaches_at_end.bind (.pure _ _)
  | cons token rest induction =>
      obtain ⟨below, rfl⟩ := Nat.exists_eq_add_one_of_ne_zero (Nat.ne_zero_of_lt deep)
      rw [List.length_cons] at deep
      rw [skip, skipPast]
      have atEnd := stands.reaches_at_end
      have looksBack := reaches_previous under
      by_cases stops : passed.kind = .semicolon ∨ startsStatement token.kind
      · rw [if_pos (by simpa using stops)]
        refine ⟨index + 1, by omega, stands, ?_⟩
        apply atEnd.bind
        apply looksBack.bind
        split
        · exact .pure _ _
        · apply stands.reaches_peek.bind
          rw [List.headD_cons, if_pos (stops.resolve_left ‹_›)]
          exact .pure _ _
      · rw [if_neg (by simpa using stops)]
        obtain ⟨notSemicolon, startsNone⟩ := not_or.mp stops
        obtain ⟨next, onward, standsNext, reaches⟩ := induction stands.under (Nat.lt_of_succ_lt_succ deep) stands.behind
        refine ⟨next, by omega, standsNext, ?_⟩
        apply atEnd.bind
        apply looksBack.bind
        rw [if_neg notSemicolon]
        apply stands.reaches_peek.bind
        rw [List.headD_cons, if_neg startsNone]
        exact stands.reaches_advance.bind reaches

theorem reaches_recover {start : Nat} (amid : Reaches (isAmid input start) index true index)
    (deep : tokens.length < depth) (stands : Stands input finish stop tokens index) :
    ∃ next, (tokens ≠ [] → index < next) ∧
      Stands input finish stop (synchronize tokens) next ∧
      Reaches (recover input depth start) index () next := by
  cases tokens with
  | nil =>
      obtain ⟨below, rfl⟩ := Nat.exists_eq_add_one_of_ne_zero (Nat.ne_zero_of_lt deep)
      refine ⟨index, fun some => absurd rfl some, stands, ?_⟩
      rw [recover, skip]
      apply amid.bind
      apply stands.reaches_stay.bind
      exact stands.reaches_at_end.bind (.pure _ _)
  | cons token rest =>
      obtain ⟨next, onward, standsNext, reaches⟩ :=
        reaches_skip stands.under (Nat.lt_of_succ_lt deep) stands.behind
      refine ⟨next, fun _ => onward, standsNext, ?_⟩
      rw [recover]
      apply amid.bind
      exact stands.reaches_advance.bind reaches

/-- Errors at some tokens of the input, from the first to the last of them. -/
structure Orderly (input : List Token) (first last : Nat) (errors : List PlacedError) : Prop where
  increasing : errors.Pairwise (·.place < ·.place)
  within : ∀ error ∈ errors, first ≤ error.place ∧ error.place ≤ last
  named : ∀ error ∈ errors, input[error.place]? = some error.error.token

namespace Orderly

variable {first between last : Nat} {errors : List PlacedError}

theorem none : Orderly input first last [] := ⟨.nil, by simp, by simp⟩

theorem later (orderly : Orderly input between last errors) (onward : first ≤ between) :
    Orderly input first last errors where
  increasing := orderly.increasing
  within := by
    intro error member
    have within := orderly.within error member
    omega
  named := orderly.named

theorem cons {place : Nat} {error : ParseError} (orderly : Orderly input between last errors)
    (onward : first ≤ place) (stays : place ≤ last) (named : input[place]? = some error.token)
    (behind : errors ≠ [] → place < between) :
    Orderly input first last (⟨place, error⟩ :: errors) where
  increasing := by
    refine .cons ?_ orderly.increasing
    intro other member
    have less := behind (List.ne_nil_of_mem member)
    exact Nat.lt_of_lt_of_le less (orderly.within other member).1
  within := by
    rw [List.forall_mem_cons]
    refine ⟨⟨onward, stays⟩, ?_⟩
    intro other member
    have less := behind (List.ne_nil_of_mem member)
    have within := orderly.within other member
    omega
  named := List.forall_mem_cons.mpr ⟨named, orderly.named⟩

end Orderly

theorem reaches_parsed {expr : Expr} {found : PlacedParsed} {next last : Nat} (some : tokens ≠ [])
    (stands : Stands input finish stop tokens index)
    (reaches : Reaches (readStatement input depth).run index (.ok expr) next)
    (later : Reaches (readStatements input depth) next found last) :
    Reaches (readStatements input (depth + 1)) index ⟨expr :: found.statements, found.errors⟩ last := by
  rw [readStatements]
  apply stands.reaches_at_end.bind
  rw [if_neg (by simpa using some)]
  apply reaches_here.bind
  apply reaches.bind
  exact later.bind (.pure _ _)

theorem reaches_failed {error : PlacedError} {found : PlacedParsed} {between next last : Nat}
    (some : tokens ≠ []) (stands : Stands input finish stop tokens index)
    (reaches : Reaches (readStatement input depth).run index (.error error) between)
    (recovers : Reaches (recover input depth index) between () next)
    (later : Reaches (readStatements input depth) next found last) :
    Reaches (readStatements input (depth + 1)) index ⟨found.statements, error :: found.errors⟩ last := by
  rw [readStatements]
  apply stands.reaches_at_end.bind
  rw [if_neg (by simpa using some)]
  apply reaches_here.bind
  apply reaches.bind
  apply recovers.bind
  exact later.bind (.pure _ _)

/-- The cursor comes to the mark behind the words, with the results that are read off the list. -/
theorem statements_reached (deep : 20 * tokens.length + 20 < depth)
    (stands : Stands input finish stop tokens index) :
    ∃ found, Reaches (readStatements input depth) index found stop ∧
      found.parsed = parseStatements finish tokens ∧ Orderly input index stop found.errors := by
  revert depth index
  apply @by_statements finish _ _ _ _ tokens
  · intro depth index deep stands
    obtain ⟨below, rfl⟩ := Nat.exists_eq_add_one_of_ne_zero (Nat.ne_zero_of_lt deep)
    have atMark := stands.stop
    rw [List.length_nil, Nat.add_zero] at atMark
    refine ⟨⟨[], []⟩, ?_, ?_, .none⟩
    · rw [readStatements, ← atMark]
      exact stands.reaches_at_end.bind (.pure _ _)
    · rw [parseStatements]
      rfl
  · intro tokens expr rest some read restReached depth index deep stands
    obtain ⟨below, rfl⟩ := Nat.exists_eq_add_one_of_ne_zero (Nat.ne_zero_of_lt deep)
    have less := statement_shorter read
    have follows := statement_follows (Nat.le_of_lt_succ deep) stands
    rw [read] at follows
    cases follows with
    | parsed expr rest next onward standsNext reaches =>
        obtain ⟨found, reachesRest, parsed, orderly⟩ := @restReached below next (by omega) standsNext
        refine ⟨_, reaches_parsed some stands reaches reachesRest, ?_, orderly.later onward⟩
        rw [statements_of_outcome some read, ← parsed]
        rfl
  · intro tokens error rest some read restReached depth index deep stands
    obtain ⟨below, rfl⟩ := Nat.exists_eq_add_one_of_ne_zero (Nat.ne_zero_of_lt deep)
    have nonempty := List.length_pos_iff.mpr some
    have less := (rest_of_statement read).length_le
    have fewer := synchronize_length_le rest
    have follows := statement_follows (Nat.le_of_lt_succ deep) stands
    rw [read] at follows
    obtain ⟨used, rfl, inside⟩ := failed_inside read
    cases follows with
    | failed error rest place next onward near standsNext names reaches =>
        obtain ⟨last, further, standsLast, recovers⟩ := @reaches_recover _ _ _ _ below _ _
          (reaches_amid stands standsNext inside) (by omega) standsNext
        obtain ⟨found, reachesRest, parsed, orderly⟩ := @restReached below last (by omega) standsLast
        refine ⟨_, reaches_failed some stands reaches recovers reachesRest, ?_, ?_⟩
        · rw [statements_of_failure some read, ← parsed]
          rfl
        · have inRange := standsNext.stop
          apply orderly.cons onward (by omega) names
          intro more
          -- Another error needs another token, which recovery then had to pass.
          have someLeft : rest ≠ [] := by
            rintro rfl
            rw [synchronize, parseStatements] at parsed
            exact more (List.map_eq_nil_iff.mp (congrArg Parsed.errors parsed))
          have passed := further someLeft
          omega

theorem results_bounded (tokens : List Token) :
    (parseStatements finish tokens).statements.length +
      (parseStatements finish tokens).errors.length ≤ tokens.length := by
  apply @by_statements finish _ _ _ _ tokens
  · rw [parseStatements]
    exact Nat.le_refl 0
  · intro tokens expr rest some read bounded
    have shorter := statement_shorter read
    rw [statements_of_outcome some read]
    dsimp only [List.length_cons]
    omega
  · intro tokens error rest some read bounded
    have nonempty := List.length_pos_iff.mpr some
    have left := (rest_of_statement read).length_le
    have fewer := synchronize_length_le rest
    rw [statements_of_failure some read]
    dsimp only [List.length_cons]
    omega

/-- The list that is read: one that does not end with a mark gets one. -/
def closed (tokens : List Token) : List Token :=
  if tokens.getLast?.map Token.kind = some .eof then tokens else tokens ++ [.endOfInput 0]

theorem closed_starts (tokens : List Token) :
    words tokens ++ [endMark tokens] <+: closed tokens := by
  have whole : words tokens ++ tokens.dropWhile (·.kind ≠ .eof) = tokens :=
    List.takeWhile_append_dropWhile
  rw [endMark, closed]
  cases behind : tokens.dropWhile (·.kind ≠ .eof) with
  | nil =>
      rw [behind, List.append_nil] at whole
      rw [whole, if_neg]
      · exact List.prefix_refl _
      · intro last
        obtain ⟨token, isLast, isEnd⟩ := Option.map_eq_some_iff.mp last
        have member := List.mem_of_getLast? isLast
        rw [← whole] at member
        exact words_no_end tokens token member isEnd
  | cons mark others =>
      rw [behind] at whole
      rw [List.headD_cons]
      have begins : words tokens ++ [mark] <+: tokens := ⟨others, by simpa using whole⟩
      split
      · exact begins
      · exact begins.trans (List.prefix_append _ _)

theorem stands_first (tokens : List Token) :
    Stands (closed tokens) (endMark tokens) (words tokens).length (words tokens) 0 where
  ahead := closed_starts tokens
  stop := Nat.zero_add _
  words := words_no_end tokens
  isEnd := end_mark_is_end tokens

def endingAt (mark : Token) (error : ParseError) : ParseError :=
  ⟨if error.token.kind = .eof then mark else error.token, error.cause⟩

theorem parse_same_words {other tokens : List Token} (same : words other = words tokens) :
    parse other =
      ⟨(parse tokens).statements, (parse tokens).errors.map (endingAt (endMark other))⟩ := by
  let exchange : Exchange := ⟨id, endMark other, fun _ => rfl, fun _ => rfl⟩
  have read := @Exchange.statements exchange (endMark tokens) (words tokens)
    (end_mark_is_end tokens) (words_no_end tokens)
  have trees : Expr.exchange exchange.word = id := funext Expr.exchange_id
  rw [List.map_id] at read
  rw [parse_words, parse_words, same, read, Exchange.parsed, trees, List.map_id]
  rfl

theorem ending_at_issue {tokens : List Token} {mark : Token}
    (position : mark.position = (endMark tokens).position) {error : ParseError}
    (member : error ∈ (parse tokens).errors) : (endingAt mark error).issue = error.issue := by
  rw [parse_words] at member
  rcases List.mem_append.mp (statements_blame _ error member) with isWord | atEnd
  · rw [endingAt, if_neg (words_no_end tokens _ isWord)]
  · have isMark := List.mem_singleton.mp atEnd
    rw [endingAt, if_pos (by rw [isMark]; exact end_mark_is_end tokens), ParseError.issue,
      ParseError.issue, ParseError.position, ParseError.position, position, isMark]

/-- Reading always ends, and at a depth that the number of words bounds. On any list of tokens the
cursor comes to the first mark for an end, without a look outside the list, and what it has found
then is what is read off the list. There are no more results than words, the errors are at places
further and further on, and nothing but the words and that mark has a part in the result; of the
mark, errors show the position. -/
theorem reading_progresses (tokens : List Token) :
    (∀ depth, 20 * (words tokens).length + 20 < depth →
      ∃ found, Reaches (readStatements (closed tokens) depth) 0 found (words tokens).length ∧
        found.parsed = parse tokens ∧ found.errors.Pairwise (·.place < ·.place) ∧
        ∀ error ∈ found.errors,
          (words tokens ++ [endMark tokens])[error.place]? = some error.error.token) ∧
    (parse tokens).statements.length + (parse tokens).errors.length ≤ (words tokens).length ∧
    ∀ other, words other = words tokens →
      parse other =
        ⟨(parse tokens).statements, (parse tokens).errors.map (endingAt (endMark other))⟩ ∧
      ((endMark other).position = (endMark tokens).position →
        (parse other).errors.map ParseError.issue =
          (parse tokens).errors.map ParseError.issue) := by
  refine ⟨?_, ?_, ?_⟩
  · intro depth deep
    have stands := stands_first tokens
    obtain ⟨found, reaches, parsed, orderly⟩ := statements_reached deep stands
    refine ⟨found, reaches, parsed.trans (parse_words tokens).symm, orderly.increasing, ?_⟩
    intro error member
    rw [← stands.ahead_at (orderly.within error member).2, Nat.zero_add]
    exact orderly.named error member
  · rw [parse_words]
    exact results_bounded (words tokens)
  · intro other same
    refine ⟨parse_same_words same, ?_⟩
    intro position
    rw [parse_same_words same, List.map_map]
    apply List.map_congr_left
    intro error member
    exact ending_at_issue position member

def unfinished : List Token :=
  [numberToken 9, minusToken, .endOfInput 1, numberToken 3, .endOfInput 7]

/-- The error is at the first mark and on its line, whatever stands behind that. -/
theorem unfinished_at_mark :
    (∃ found, Reaches (readStatements (closed unfinished) 100) 0 found 2 ∧
      found.parsed = ⟨[], [⟨.endOfInput 1, .unexpectedExpression⟩]⟩) ∧
    parse [numberToken 9, minusToken, .endOfInput 2] =
      ⟨[], [⟨.endOfInput 2, .unexpectedExpression⟩]⟩ ∧
    (parse [numberToken 9, minusToken, .endOfInput 1]).errors.map ParseError.issue =
      (parse unfinished).errors.map ParseError.issue := by
  obtain ⟨ends, _, depends⟩ := reading_progresses unfinished
  have shown : parse unfinished = ⟨[], [⟨.endOfInput 1, .unexpectedExpression⟩]⟩ := by
    decide +kernel
  obtain ⟨found, reaches, parsed, _⟩ := ends 100 (by decide)
  obtain ⟨moved, _⟩ := depends [numberToken 9, minusToken, .endOfInput 2] rfl
  obtain ⟨_, reported⟩ := depends [numberToken 9, minusToken, .endOfInput 1] rfl
  refine ⟨⟨found, reaches, parsed.trans shown⟩, ?_, reported rfl⟩
  rw [moved, shown]
  rfl

end ExprCompiler.Indexed
