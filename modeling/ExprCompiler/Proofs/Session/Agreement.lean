import ExprCompiler.Proofs.Codegen.FoldedRun
import ExprCompiler.Proofs.Codegen.UnsignedDividend
import ExprCompiler.Proofs.Codegen.Unplaced
import ExprCompiler.Proofs.Session.Commands
import ExprCompiler.Proofs.Session.Input

/-!
Running an expression in a session agrees with evaluating it. Both commands get the same trimmed
argument. Evaluation reads the tree at its front, and a source that compiles is nothing but that
tree; the program is fed the values that evaluation finds under the names. What is left to tell
apart is the one quotient that evaluation wraps and hardware refuses.
-/

namespace ExprCompiler

/-- What code does next to an evaluation that meets some divisions: it computes the same word, or it
stops where evaluation has wrapped the quotient of the least word by minus one, or both stop at a
division by zero. -/
inductive Tracks (divisions : List (Word × Word)) :
    Except EvalError Value → Except Fault Word → Prop where
  | computed (word : Word) : Tracks divisions (.ok (.int word)) (.ok word)
  | overflowed {fault : Fault} (word : Word) (isDivide : fault.IsDivide)
      (met : (Word.least, -1) ∈ divisions) : Tracks divisions (.ok (.int word)) (.error fault)
  | stopped {fault : Fault} (token : Token) (isDivide : fault.IsDivide) :
      Tracks divisions (.error (.located token .divisionByZero)) (.error fault)

namespace Tracks

variable {divisions all : List (Word × Word)} {evaluated : Except EvalError Value}
  {result : Except Fault Word}

theorem within (tracks : Tracks divisions evaluated result)
    (sub : ∀ pair ∈ divisions, pair ∈ all) : Tracks all evaluated result := by
  cases tracks with
  | computed word => exact .computed word
  | overflowed word isDivide met => exact .overflowed word isDivide (sub _ met)
  | stopped token isDivide => exact .stopped token isDivide

/-- Code that has stopped at an overflow does not see what evaluation does next. -/
theorem behind_overflow {fault : Fault} (tracks : Tracks divisions evaluated result)
    (isDivide : fault.IsDivide) (met : (Word.least, -1) ∈ all) :
    Tracks all evaluated (.error fault) := by
  cases tracks with
  | computed word | overflowed word _ _ => exact .overflowed word isDivide met
  | stopped token _ => exact .stopped token isDivide

theorem negation {op : Token} (isMinus : op.kind = .minus)
    (tracks : Tracks divisions evaluated result) :
    Tracks divisions (evaluated.bind (applyUnary op))
      (result.map fun word => if op.kind = .minus then -word else word) := by
  have applied (word : Word) : applyUnary op (.int word) = .ok (.int (-word)) := by
    rw [applyUnary, isMinus]
    rfl
  cases tracks with
  | computed word =>
      rw [Except.bind, applied, Except.map, if_pos isMinus]
      exact .computed (-word)
  | overflowed word isDivide met =>
      rw [Except.bind, applied]
      exact .overflowed (-word) isDivide met
  | stopped token isDivide => exact .stopped token isDivide

/-- An operator that cannot be folded is a division by zero or the one that overflows. -/
theorem operator {op : Token} (hasCode : isArithmetic op.kind = true) (left right : Word) :
    Tracks (divisionOf op (.int left) (.int right)) (applyBinary op (.int left) (.int right))
      (DivisionMode.sign.operate op.kind left right) := by
  cases folded : foldWords? op.kind left right with
  | some word =>
      rw [Expr.apply_binary_of_fold_words op left right word folded,
        DivisionMode.operate_of_fold_words folded]
      exact .computed word
  | none =>
      have division : (op.kind = .slash ∨ op.kind = .percent) ∧
          Word.divisionFaults left right = true := by
        rcases arithmetic_kinds hasCode with kind | kind | kind | kind | kind
        all_goals simp [foldWords?, kind] at folded
        · exact ⟨.inl kind, folded⟩
        · exact ⟨.inr kind, folded⟩
      obtain ⟨kinds, faults⟩ := division
      rw [Expr.apply_binary_words op left right (by rcases kinds with kind | kind <;> simp [kind])
        (by rcases kinds with kind | kind <;> simp [kind])]
      by_cases isZero : right = 0
      · have applied : applyWords op left right = .error (.located op .divisionByZero) := by
          rcases kinds with kind | kind <;> simp [applyWords, kind, isZero]
        have operated : DivisionMode.sign.operate op.kind left right = .error .divisionByZero := by
          rcases kinds with kind | kind <;>
            simp [DivisionMode.operate, DivisionMode.divide, kind, isZero, Except.map]
        rw [applied, operated]
        exact .stopped op (.inl rfl)
      · simp only [Word.divisionFaults, Bool.or_eq_true, Bool.and_eq_true, beq_iff_eq, isZero,
          false_or] at faults
        obtain ⟨rfl, rfl⟩ := faults
        have applied : ∃ word, applyWords op Word.least (-1) = .ok (.int word) := by
          rcases kinds with kind | kind <;> simp [applyWords, kind]
        have operated :
            DivisionMode.sign.operate op.kind Word.least (-1) = .error .quotientOverflow := by
          rcases kinds with kind | kind <;> rw [kind] <;> rfl
        obtain ⟨word, applied⟩ := applied
        rw [applied, operated]
        exact .overflowed word (.inr rfl) (by simp [divisionOf, kinds])

end Tracks

section Trees

variable {names : List Bytes} {cells : Bytes → Word} {environment : Environment}

/-- The code of a tree tracks its evaluation, which leaves the environment alone. -/
theorem Expr.tracks {expr : Expr} (arithmetic : expr.Arithmetic names)
    (bound : ∀ name ∈ names, environment.find? name = some (.int (cells name))) :
    (expr.evaluate (some environment)).2 = some environment ∧
      Tracks (expr.divisions (some environment)) (expr.evaluate (some environment)).1
        (expr.word .sign cells) := by
  induction arithmetic with
  | literal word => exact ⟨rfl, .computed word⟩
  | reference name known =>
      have found : Scope.find? (some environment) name.lexeme = some (.int (cells name.lexeme)) :=
        bound name.lexeme known
      simp only [evaluate, found]
      exact ⟨trivial, .computed _⟩
  | grouping _ inner => exact inner
  | @negation op right isMinus _ rightTracks =>
      have evaluated : (unary op right).evaluate (some environment) =
          ((right.evaluate (some environment)).1.bind (applyUnary op),
            (right.evaluate (some environment)).2) := by
        rw [evaluate]
        split <;> rename_i same <;> rw [same] <;> rfl
      rw [evaluated]
      exact ⟨rightTracks.1, rightTracks.2.negation isMinus⟩
  | @binary left right op hasCode _ _ leftTracks rightTracks =>
      obtain ⟨sameLeft, leftTracks⟩ := leftTracks
      obtain ⟨sameRight, rightTracks⟩ := rightTracks
      cases leftEvaluated : left.evaluate (some environment) with
      | mk leftResult between =>
          cases rightEvaluated : right.evaluate (some environment) with
          | mk rightResult behind =>
              rw [leftEvaluated] at sameLeft leftTracks
              rw [rightEvaluated] at sameRight rightTracks
              dsimp only at sameLeft sameRight leftTracks rightTracks
              subst sameLeft sameRight
              simp only [evaluate, Expr.divisions, Expr.word, leftEvaluated]
              generalize left.word .sign cells = leftWord at leftTracks ⊢
              generalize right.word .sign cells = rightWord at rightTracks ⊢
              cases leftTracks with
              | stopped token isDivide => exact ⟨rfl, .stopped token isDivide⟩
              | computed first =>
                  simp only [rightEvaluated]
                  cases rightTracks with
                  | stopped token isDivide => exact ⟨rfl, .stopped token isDivide⟩
                  | computed second =>
                      refine ⟨rfl, (Tracks.operator hasCode first second).within ?_⟩
                      intro pair member
                      exact List.mem_append_right _ (List.mem_append_right _ member)
                  | overflowed second isDivide met =>
                      refine ⟨rfl, (Tracks.operator hasCode first second).behind_overflow isDivide ?_⟩
                      exact List.mem_append_right _ (List.mem_append_left _ met)
              | overflowed first isDivide met =>
                  simp only [rightEvaluated]
                  cases rightTracks with
                  | stopped token _ => exact ⟨rfl, .stopped token isDivide⟩
                  | computed second | overflowed second _ _ =>
                      refine ⟨rfl, (Tracks.operator hasCode first second).behind_overflow isDivide ?_⟩
                      exact List.mem_append_left _ met

end Trees

namespace Session

section Lines

variable {session : Session} {source listing : Bytes} {tree : Expr} {output : Output}
  {loaded : Loaded}

theorem read_tree_of_source (hasTree : HasTree source tree) : readTree source = .ok tree := by
  obtain ⟨words, finish, tokens, isEnd, noEnd⟩ := lex_words source
  have split := Grammar.split_at_end words noEnd isEnd
  have parsed := hasTree.parsed
  rw [tokens, parse, split] at parsed
  dsimp only at parsed
  have read : ∃ rest, (parseTiers finish Tier.all words).outcome = (.ok tree, rest) := by
    cases words with
    | nil =>
        rw [parseStatements] at parsed
        cases parsed
    | cons token words =>
        obtain ⟨expr, rest, later, readFirst, _, _, trees⟩ := Grammar.outcome_of_statements parsed
        obtain ⟨rfl, _⟩ := List.cons.inj trees
        rcases Grammar.statement_cases readFirst with ⟨_, readExpr⟩ | ⟨_, _, readExpr⟩
        · exact ⟨_, readExpr⟩
        · exact ⟨_, readExpr⟩
  obtain ⟨rest, read⟩ := read
  have parsedExpression : parseExpression (lex source).tokens = .ok tree := by
    rw [parseExpression, tokens, split]
    dsimp only
    split <;> rename_i step <;> rw [step] at read <;> cases read
    rfl
  rw [readTree, if_neg (Decidable.not_not.mpr hasTree.lexed), parsedExpression]

def storedWord (environment : Environment) (name : Bytes) : Word :=
  match environment.find? name with
  | some (.int word) => word
  | _ => 0

theorem stored_word {name : Bytes} {environment : Environment}
    (stored : ∃ word, environment.find? name = some (.int word)) :
    environment.find? name = some (.int (storedWord environment name)) := by
  obtain ⟨word, found⟩ := stored
  rw [storedWord, found]

theorem mem_zip_map {names : List Bytes} {name : Bytes} (cells : Bytes → Word)
    (member : name ∈ names) : (name, cells name) ∈ names.zip (names.map cells) := by
  induction names with
  | nil => cases member
  | cons first names induction =>
      rw [List.map_cons, List.zip_cons_cons]
      rcases List.mem_cons.mp member with rfl | later
      · exact List.mem_cons_self
      · exact List.mem_cons_of_mem _ (induction later)

inductive Told (session : Session) : Option Fault → Bytes → Prop where
  | nothing : Told session none []
  | fault (error : RunError) :
      Told session (some error.fault) (session.failureLine "runtime error:" error.message)

theorem Told.quiet {errors : Bytes} (told : session.Told none errors) : errors = [] := by
  cases told
  rfl

theorem Told.stopped {errors : Bytes} {fault : Fault} (told : session.Told (some fault) errors) :
    ∃ error : RunError, error.fault = fault ∧
      errors = session.failureLine "runtime error:" error.message := by
  cases told with
  | fault error => exact ⟨error, rfl, rfl⟩

theorem run_line_reports {input : Bytes} (compiled : compile session.options source = .ok output)
    (written : variableInput session.environment output.variableNames = .ok input)
    (text : output.assembly.text session.options.charsets = .ok listing)
    (load : loadListing listing { input := input } = .ok loaded) :
    (session.runLine source).output = loaded.report.output ∧
      session.Told loaded.report.fault (session.runLine source).errors := by
  cases logged : compileLogged session.options source with
  | mk result log =>
      rw [compile, logged] at compiled
      cases compiled
      simp only [runLine, logged, written, text, runListing, load]
      refine ⟨rfl, ?_⟩
      rw [Loaded.report]
      cases (loaded.machine.run loaded.image).2 with
      | none => exact .nothing
      | some error => exact .fault error

theorem run_line_shows (division : session.options.division = .sign)
    (lawful : session.options.charsets.Lawful)
    (compiled : compile session.options source = .ok output)
    (held : output.assembly.Holds session.options.charsets listing)
    (stored : ∀ name ∈ output.variableNames,
      ∃ word, session.environment.find? name = some (.int word))
    (load : loadListing listing {} = .ok loaded) (enough : Suffices output loaded) :
    ∃ cells, (∀ name ∈ output.variableNames,
        session.environment.find? name = some (.int (cells name))) ∧
      (session.runLine source).output = output.variableNames.flatMap promptText ++
        (answerOf (output.tree.word .sign cells)).flatten ∧
      session.Told (faultOf (output.tree.word .sign cells)) (session.runLine source).errors := by
  have bound := fun name member => stored_word (stored name member)
  obtain ⟨input, written, scanned⟩ := scan_variable_input bound
  generalize storedWord session.environment = stores at bound scanned
  obtain ⟨_, distinct⟩ := compiled_names compiled
  -- The program looks its numbers up by name, which gives back what the session has stored.
  have reread :=
    @read_number_of_pair output.variableNames (output.variableNames.map stores) distinct (by simp)
  refine ⟨readNumber output.variableNames (output.variableNames.map stores), ?_, ?_⟩
  · intro name member
    rw [reread _ (mem_zip_map stores member)]
    exact bound name member
  · obtain ⟨fed, loadFed, enoughFed⟩ : ∃ fed,
        loadListing listing { input := input } = .ok fed ∧ Suffices output fed :=
      ⟨_, load_other_input load input, ⟨enough.room, enough.limit⟩⟩
    have shown := report_compiled lawful compiled held loadFed rfl enoughFed
    rw [Expr.report, scanned] at shown
    dsimp only at shown
    rw [division, word_of_target compiled] at shown
    have text := loaded_text lawful compiled held load
    have reports := run_line_reports compiled written text loadFed
    rw [shown] at reports
    exact reports

theorem evaluate_line_shows (read : readTree source = .ok tree)
    (kept : (tree.evaluate (some session.environment)).2 = some session.environment) :
    session.evaluateLine source =
      (match (tree.evaluate (some session.environment)).1 with
        | .error error => { errors := session.reportOf source [error.issue] }
        | .ok value => { output := value.plain ++ [10] }, session) := by
  cases evaluated : tree.evaluate (some session.environment) with
  | mk result scope =>
      rw [evaluated] at kept
      cases kept
      rw [evaluateLine, read]
      simp only [evaluated, Option.getD_some]
      cases result <;> rfl

end Lines

section Agreement

variable {options : CompileOptions} {reporting : ReportOptions} {lines : List Bytes}
  {session : Session} {source listing : Bytes} {output : Output} {loaded : Loaded}

/-- In a session whose dividends keep their sign, running an expression shows the prompts for its
variables and then what evaluating it shows. Where evaluation meets a division by zero, the program
shows the prompts alone and stops with a fault of a division. The one quotient that evaluation wraps
is left out. Running logs nothing but records for debugging. Neither command changes the session,
and no line does but one that evaluates. -/
theorem run_agrees_with_evaluation (division : options.division = .sign)
    (lawful : options.charsets.Lawful)
    (reached : session = (fresh options reporting).after lines)
    (compiled : compile options source = .ok output)
    (held : output.assembly.Holds options.charsets listing)
    (stored : ∀ name ∈ output.variableNames,
      ∃ word, session.environment.find? name = some (.int word))
    (load : loadListing listing {} = .ok loaded) (enough : Suffices output loaded) :
    (∃ tree, readTree (Text.trim source) = .ok tree ∧
      ((∃ word,
          (tree.evaluate (some session.environment)).1 = .ok (.int word) ∧
          (session.handle (commandLine ":eval" source)).1 = { output := word.text ++ [10] } ∧
          ((Word.least, -1) ∉ tree.divisions (some session.environment) →
            (session.handle (commandLine ":run" source)).1.output =
              output.variableNames.flatMap promptText ++ (word.text ++ [10]) ∧
            (session.handle (commandLine ":run" source)).1.errors = [])) ∨
        ∃ token,
          (tree.evaluate (some session.environment)).1 =
            .error (.located token .divisionByZero) ∧
          (session.handle (commandLine ":eval" source)).1 =
            { errors := session.reportOf (Text.trim source)
                [(EvalError.located token .divisionByZero).issue] } ∧
          (session.handle (commandLine ":run" source)).1.output =
            output.variableNames.flatMap promptText ∧
          ∃ error : RunError, error.fault.IsDivide ∧
            (session.handle (commandLine ":run" source)).1.errors =
              session.failureLine "runtime error:" error.message)) ∧
    (∀ record ∈ (session.handle (commandLine ":run" source)).1.log, record.level = .debug) ∧
    Text.Increasing output.variableNames ∧
    (session.handle (commandLine ":eval" source)).2 = session ∧
    (session.handle (commandLine ":run" source)).2 = session ∧
    session = (fresh options reporting).after (lines.filter isEvaluation) ∧
    ∀ line, isEvaluation line = false → (session.handle line).2 = session := by
  have sameOptions : session.options = options := by
    rw [reached]
    exact (after_options _ _).1
  obtain ⟨hasSource, _⟩ := compile_cases compiled
  have plain := source_plain hasSource.lexed (hasSource.without_text (tree_arithmetic compiled))
  have ascii : Text.Ascii source := fun byte member => (plain byte member).1
  have evaluates : session.handle (commandLine ":eval" source) =
      session.evaluateLine (Text.trim source) :=
    @handle_command session source (":eval", .evaluate) (by decide) ascii
  have runs : session.handle (commandLine ":run" source) =
      (session.runLine (Text.trim source), session) :=
    @handle_command session source (":run", .run) (by decide) ascii
  -- Both commands get the trimmed source, which compiles to the same program.
  obtain ⟨trimmed, compiledTrimmed, sameNames, sameAssembly, sameDepth⟩ := compile_trim compiled
  obtain ⟨hasTree, _⟩ := compile_cases compiledTrimmed
  have read := read_tree_of_source hasTree
  have arithmetic := tree_arithmetic compiledTrimmed
  rw [← sameOptions] at division lawful compiledTrimmed held
  rw [← sameNames] at stored
  rw [← sameAssembly] at held
  obtain ⟨cells, bound, shown, told⟩ := run_line_shows division lawful compiledTrimmed held stored
    load ⟨sameDepth ▸ enough.room, enough.limit⟩
  obtain ⟨kept, tracks⟩ := Expr.tracks arithmetic bound
  have evaluated := evaluate_line_shows read kept
  have logged := handle_log_debug session (commandLine ":run" source)
  rw [runs] at logged
  rw [evaluates, runs]
  refine ⟨⟨trimmed.tree, read, ?_⟩, logged, (compiled_variables compiled).2.1, ?_, rfl, ?_, ?_⟩
  · rw [evaluated, ← sameNames]
    dsimp only
    rw [shown]
    generalize (trimmed.tree.evaluate (some session.environment)).1 = value at tracks ⊢
    generalize trimmed.tree.word .sign cells = result at tracks told ⊢
    cases tracks with
    | computed word => exact .inl ⟨word, rfl, rfl, fun _ => ⟨by simp [answerOf], told.quiet⟩⟩
    | overflowed word isDivide met => exact .inl ⟨word, rfl, rfl, fun quiet => absurd met quiet⟩
    | stopped token isDivide =>
        obtain ⟨error, rfl, failure⟩ := told.stopped
        exact .inr ⟨token, rfl, rfl, by simp [answerOf], error, isDivide, failure⟩
  · rw [evaluated]
  · rw [reached]
    exact after_evaluations _ lines
  · exact fun line other => handle_keeps session other

def storingLines : List Bytes := [utf8 ":eval a := -7", utf8 ":run a", utf8 ":EVAL b := 2"]

def twoWords : Session := (fresh {} {}).after storingLines

/-- A quotient of what the session has stored, in white space. -/
theorem stored_quotient_agrees :
    (twoWords.handle (commandLine ":eval" (utf8 " a/b "))).1.output = utf8 "-3\n" ∧
    (twoWords.handle (commandLine ":run" (utf8 " a/b "))).1.output = utf8 "a = b = -3\n" ∧
    (twoWords.handle (commandLine ":run" (utf8 " a/b "))).1.errors = [] := by
  have first : twoWords.environment.find? (utf8 "a") = some (.int (-7)) := by decide +kernel
  have second : twoWords.environment.find? (utf8 "b") = some (.int 2) := by decide +kernel
  have stored : ∀ name ∈ [utf8 "a", utf8 "b"],
      ∃ word, twoWords.environment.find? name = some (.int word) := by
    simp only [List.forall_mem_cons]
    exact ⟨⟨_, first⟩, ⟨_, second⟩, fun _ member => nomatch member⟩
  obtain ⟨output, loaded, compiled, load, enough, names⟩ := @loaded_of_check {}
    (utf8 " a/b ") {} (fun output => decide (output.variableNames = [utf8 "a", utf8 "b"]))
    (CharsetRegistry.resolve_canonical .utf8) (by decide +kernel)
  rw [decide_eq_true_eq] at names
  rw [← names] at stored
  obtain ⟨⟨tree, read, outcome⟩, _⟩ := @run_agrees_with_evaluation {} {} storingLines twoWords _ _ _ _
    rfl CharsetRegistry.common_lawful rfl compiled (.inl rfl) stored load enough
  have evaluates : ((readTree (Text.trim (utf8 " a/b "))).toOption.any fun tree =>
      (tree.evaluate (some twoWords.environment)).1.toOption == some (.int (-3)) &&
        !(tree.divisions (some twoWords.environment)).contains (Word.least, -1)) = true := by
    decide +kernel
  rw [read] at evaluates
  simp only [Except.toOption, Option.any_some, Bool.and_eq_true, beq_iff_eq, Bool.not_eq_true',
    ← Bool.not_eq_true, List.contains_iff_mem] at evaluates
  obtain ⟨isValue, quiet⟩ := evaluates
  rw [names] at outcome
  rcases outcome with ⟨word, value, shown, agrees⟩ | ⟨token, value, _⟩
  · rw [value] at isValue
    cases isValue
    obtain ⟨output, errors⟩ := agrees quiet
    rw [shown, output, errors]
    exact ⟨by decide +kernel, by decide +kernel, rfl⟩
  · rw [value] at isValue
    cases isValue

end Agreement

end Session

end ExprCompiler
