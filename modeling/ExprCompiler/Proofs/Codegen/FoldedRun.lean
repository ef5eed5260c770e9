import ExprCompiler.Proofs.Codegen.Correctness

/-!
Folding on the machine. What a run shows, its output and the fault that ends it, can be told from
the tree that code was generated for and from the input. Folding divides as if the sign of every
dividend were extended, so it leaves reports alone where programs do the same, and also where they
take dividends as unsigned, as long as no dividend that it meets is negative.
-/

namespace ExprCompiler

/-- What a run shows: its output, and the fault that ended it early. -/
structure Report where
  fault : Option Fault
  output : Bytes
  deriving DecidableEq, Repr

def Loaded.report (loaded : Loaded) : Report :=
  ⟨(loaded.machine.run loaded.image).2.map RunError.fault,
    (loaded.machine.run loaded.image).1.output⟩

/-- What the program for a tree shows: a prompt for every number that it tries to read, and the
word of the tree if all of them can be read. -/
def Expr.report (mode : DivisionMode) (names : List Bytes) (input : Bytes) (expr : Expr) : Report :=
  match scanWords names.length input with
  | ⟨values, some problem⟩ =>
      ⟨some (.input problem), (names.take (values.length + 1)).flatMap promptText⟩
  | ⟨values, none⟩ =>
      let result := expr.word mode (readNumber names values)
      ⟨faultOf result, names.flatMap promptText ++ (answerOf result).flatten⟩

section Reports

variable {options : CompileOptions} {source listing : Bytes} {output : Output}
variable {machine : MachineOptions} {loaded : Loaded}

theorem output_of_written {core : Core} {texts : List Bytes} (written : core.written = texts.reverse) :
    core.output = texts.flatten := by
  rw [Core.output, written, List.reverse_reverse]

/-- A number that cannot be read ends the program at its question. -/
theorem report_of_failed_scan (lawful : options.charsets.Lawful)
    (compiled : compile options source = .ok output)
    (held : output.assembly.Holds options.charsets listing)
    (load : loadListing listing machine = .ok loaded)
    (limit : loaded.image.program.instructions.size ≤ loaded.image.stepLimit) {place floor : Nat}
    (prepared : Prepared loaded.image output.variableNames place floor loaded.machine.toCore)
    {values : List Word} {problem : ScanError}
    (scanned : scanWords output.variableNames.length machine.input = ⟨values, some problem⟩) :
    loaded.report =
      ⟨some (.input problem),
        (output.variableNames.take (values.length + 1)).flatMap promptText⟩ := by
  obtain ⟨_, _, _, _, _, unread, fresh⟩ := loaded_program (load_compiled lawful compiled held load)
  have runs := runs_compiled lawful compiled held load limit
  have reads := prepared.reads
  rw [mainLines, Image.perform_all_append] at runs
  cases asked : loaded.image.performAll (output.variableNames.flatMap readLines)
      loaded.machine.toCore with
  | mk core fault =>
      rw [asked] at reads runs
      have ending := reads.fault
      have written := reads.written
      rw [unread, scanned] at ending written
      rw [fresh, List.append_nil] at written
      cases ending
      rw [Loaded.report, runs.fault, output_of_written (runs.core ▸ written)]
      rfl

theorem report_compiled (lawful : options.charsets.Lawful)
    (compiled : compile options source = .ok output)
    (held : output.assembly.Holds options.charsets listing)
    (load : loadListing listing machine = .ok loaded)
    (standard : machine.routines = standardRoutines) (enough : Suffices output loaded) :
    loaded.report =
      output.folded.report options.division output.variableNames machine.input := by
  cases scanned : scanWords output.variableNames.length machine.input with
  | mk values problem =>
      cases problem with
      | some problem =>
          rw [Expr.report, scanned]
          obtain ⟨_, prepared⟩ := prepared_compiled lawful compiled held load standard enough.room
          exact report_of_failed_scan lawful compiled held load enough.limit prepared scanned
      | none =>
          have count := @scan_words_length output.variableNames.length machine.input
            (by rw [scanned])
          rw [scanned] at count
          obtain ⟨_, distinct⟩ := compiled_names compiled
          obtain ⟨_, _, _, _, _, _, fresh⟩ := loaded_program (load_compiled lawful compiled held load)
          have answers := answers_compiled lawful compiled held load standard enough.room scanned
            (read_number_of_pair distinct count)
          have runs := runs_compiled lawful compiled held load enough.limit
          have written := answers.written
          rw [fresh, List.append_nil] at written
          rw [Expr.report, scanned]
          unfold Loaded.report
          congr 1
          · exact runs.fault.trans answers.fault
          · rw [Core.output, runs.core, written]
            cases output.folded.word options.division
                (readNumber output.variableNames values) with
            | error fault => simp [answerOf, List.flatMap]
            | ok word => simp [answerOf, List.flatMap]

end Reports

namespace DivisionMode

theorem dividend_of_nonnegative (mode : DivisionMode) {word : Word} (natural : 0 ≤ word.toInt) :
    mode.dividend word = word.toInt := by
  cases mode with
  | sign => rfl
  | zero =>
      have bound := word.isLt
      rw [dividend]
      rw [BitVec.toInt_eq_toNat_cond] at natural ⊢
      split at natural
      · rw [if_pos (by assumption)]
      · omega

theorem operate_of_dividend {mode : DivisionMode} {left : Word}
    (same : mode.dividend left = left.toInt) (kind : TokenKind) (right : Word) :
    mode.operate kind left right = sign.operate kind left right := by
  have divide : mode.divide left right = sign.divide left right := by
    simp only [DivisionMode.divide, same]
    rfl
  unfold operate
  rw [divide]

end DivisionMode

namespace Expr

def foldedDivision (op : Token) : Expr → Expr → List (Word × Word)
  | literal (.int left), literal (.int right) =>
      if (op.kind = .slash || op.kind = .percent) && !Word.divisionFaults left right then
        [(left, right)]
      else []
  | _, _ => []

/-- The divisions that folding carries out, each as dividend and divisor. -/
def foldedDivisions : Expr → List (Word × Word)
  | grouping inner => inner.foldedDivisions
  | unary _ right => right.foldedDivisions
  | binary left op right =>
      left.foldedDivisions ++ right.foldedDivisions ++ foldedDivision op left.fold right.fold
  | logical left _ right => left.foldedDivisions ++ right.foldedDivisions
  | assign _ value => value.foldedDivisions
  | _ => []

variable {mode : DivisionMode} {cells : Bytes → Word}

theorem operate_of_folded_division {op : Token} {left right word : Word}
    (folded : foldWords? op.kind left right = some word)
    (natural : ∀ pair ∈ foldedDivision op (literal (.int left)) (literal (.int right)),
      mode.dividend pair.1 = pair.1.toInt) :
    mode.operate op.kind left right = .ok word := by
  rw [← DivisionMode.operate_of_fold_words folded]
  by_cases division : op.kind = .slash ∨ op.kind = .percent
  · apply DivisionMode.operate_of_dividend
    apply natural (left, right)
    have quiet : Word.divisionFaults left right = false := by
      apply Bool.eq_false_iff.mpr
      intro faults
      rcases division with kind | kind
      · simp [foldWords?, kind, faults] at folded
      · simp [foldWords?, kind, faults] at folded
    simp [foldedDivision, division, quiet]
  · rw [not_or] at division
    unfold DivisionMode.operate
    split
    · rfl
    · rfl
    · rfl
    · rename_i kind
      exact absurd kind division.1
    · rename_i kind
      exact absurd kind division.2
    · rfl

theorem word_fold_binary_of_dividends {left right : Expr} {op : Token}
    (natural : ∀ pair ∈ foldedDivision op left right, mode.dividend pair.1 = pair.1.toInt) :
    (foldBinary left op right).word mode cells = (binary left op right).word mode cells := by
  unfold foldBinary
  split
  · split
    · rename_i first second result folded
      simp only [word]
      rw [operate_of_folded_division folded natural]
    · rfl
  · rfl

/-- Where no dividend changes its sign, folding does not change what the code computes. -/
theorem word_fold_of_dividends {expr : Expr}
    (natural : ∀ pair ∈ expr.foldedDivisions, mode.dividend pair.1 = pair.1.toInt) :
    expr.fold.word mode cells = expr.word mode cells := by
  induction expr with
  | literal value => rfl
  | reference name => rfl
  | grouping inner induction => rw [fold, word_fold_grouping, induction natural, word]
  | unary op right induction => rw [fold, word_fold_unary, word, word, induction natural]
  | binary left op right leftInduction rightInduction =>
      simp only [foldedDivisions, List.mem_append] at natural
      rw [fold, word_fold_binary_of_dividends fun pair member => natural pair (.inr member), word,
        word, leftInduction fun pair member => natural pair (.inl (.inl member)),
        rightInduction fun pair member => natural pair (.inl (.inr member))]
  | logical left op right _ _ => rfl
  | assign name value _ => rfl
  | absent => rfl

end Expr

section Folding

variable {options : CompileOptions} {source : Bytes} {output : Output} {machine : MachineOptions}
variable {loaded : Loaded}

theorem word_target {mode : DivisionMode} {cells : Bytes → Word} {tree : Expr}
    (natural : ∀ pair ∈ tree.foldedDivisions, mode.dividend pair.1 = pair.1.toInt)
    (options : CompileOptions) :
    (options.target tree).word mode cells = tree.word mode cells := by
  unfold CompileOptions.target
  split
  · exact Expr.word_fold_of_dividends natural
  · rfl

/-- Folding does not change what a program shows, unless dividends are taken as unsigned and
folding meets a negative one. -/
theorem folding_unobservable (fold : Bool) (lawful : options.charsets.Lawful)
    (compiled : compile options source = .ok output)
    (load : loadListing output.assembly.bytes machine = .ok loaded)
    (standard : machine.routines = standardRoutines) (enough : Suffices output loaded)
    (natural : options.division = .zero →
      ∀ pair ∈ output.tree.foldedDivisions, 0 ≤ pair.1.toInt) :
    ∃ other otherLoaded, compile { options with fold := fold } source = .ok other ∧
      loadListing other.assembly.bytes machine = .ok otherLoaded ∧
      (Suffices other otherLoaded → otherLoaded.report = loaded.report) := by
  let again : CompileOptions := { options with fold := fold }
  have lawfulAgain : again.charsets.Lawful := lawful
  obtain ⟨other, otherLoaded, compiledAgain, tree, target, names, loadAgain, _⟩ :=
    @load_again options again source output machine loaded lawful rfl rfl compiled load
  refine ⟨other, otherLoaded, compiledAgain, loadAgain, ?_⟩
  intro otherEnough
  obtain ⟨_, folded, _⟩ := compile_cases compiled
  have dividends : ∀ pair ∈ output.tree.foldedDivisions,
      options.division.dividend pair.1 = pair.1.toInt := by
    intro pair member
    cases division : options.division with
    | sign => rfl
    | zero => exact DivisionMode.dividend_of_nonnegative _ (natural division pair member)
  rw [report_compiled lawfulAgain compiledAgain (.inl rfl) loadAgain standard otherEnough,
    report_compiled lawful compiled (.inl rfl) load standard enough, names, target, folded]
  have same : again.division = options.division := rfl
  simp only [Expr.report, same, word_target dividends]

/-- An unsigned dividend that is negative is met at run time only, and the constant one is not. -/
theorem natural_dividend_unobservable :
    ∃ folded loaded plain plainLoaded,
      compile { division := .zero } (utf8 "a/2+7%3") = .ok folded ∧
      loadListing folded.assembly.bytes { input := utf8 "-9" } = .ok loaded ∧
      compile { division := .zero, fold := false } (utf8 "a/2+7%3") = .ok plain ∧
      loadListing plain.assembly.bytes { input := utf8 "-9" } = .ok plainLoaded ∧
      plainLoaded.report = loaded.report := by
  obtain ⟨folded, loaded, compiled, load, enough, natural⟩ := @loaded_of_check
    { division := .zero } (utf8 "a/2+7%3") { input := utf8 "-9" }
    (fun output => output.tree.foldedDivisions.all fun pair => decide (0 ≤ pair.1.toInt))
    (CharsetRegistry.resolve_canonical .utf8) (by decide +kernel)
  obtain ⟨plain, plainLoaded, compiledAgain, loadAgain, plainEnough, _⟩ := @loaded_of_check
    { division := .zero, fold := false } (utf8 "a/2+7%3") { input := utf8 "-9" } (fun _ => true)
    (CharsetRegistry.resolve_canonical .utf8) (by decide +kernel)
  obtain ⟨other, otherLoaded, again, otherLoad, same⟩ := folding_unobservable false
    CharsetRegistry.common_lawful compiled load rfl enough fun _ pair member => by
      simpa using List.all_eq_true.mp natural pair member
  cases compiledAgain.symm.trans again
  cases loadAgain.symm.trans otherLoad
  exact ⟨folded, loaded, plain, plainLoaded, compiled, load, compiledAgain, loadAgain,
    same plainEnough⟩

/-- Folding divides a negative number, and the machine divides the unsigned one. -/
theorem negative_quotient_shows_folding :
    ∃ plain plainLoaded folded foldedLoaded,
      compile { division := .zero, fold := false } (utf8 "-6/2") = .ok plain ∧
      loadListing plain.assembly.bytes {} = .ok plainLoaded ∧ Suffices plain plainLoaded ∧
      compile { division := .zero, fold := true } (utf8 "-6/2") = .ok folded ∧
      loadListing folded.assembly.bytes {} = .ok foldedLoaded ∧ Suffices folded foldedLoaded ∧
      plainLoaded.report = ⟨none, utf8 "2147483645\n"⟩ ∧
      foldedLoaded.report = ⟨none, utf8 "-3\n"⟩ := by
  obtain ⟨plain, plainLoaded, compiled, load, enough, shown⟩ := @loaded_of_check
    { division := .zero, fold := false } (utf8 "-6/2") {}
    (fun output => output.folded.report .zero output.variableNames [] =
      ⟨none, utf8 "2147483645\n"⟩) (CharsetRegistry.resolve_canonical .utf8) (by decide +kernel)
  obtain ⟨folded, foldedLoaded, compiledAgain, loadAgain, foldedEnough, foldedShown⟩ :=
    @loaded_of_check { division := .zero, fold := true } (utf8 "-6/2") {}
      (fun output => output.folded.report .zero output.variableNames [] =
        ⟨none, utf8 "-3\n"⟩) (CharsetRegistry.resolve_canonical .utf8) (by decide +kernel)
  refine ⟨plain, plainLoaded, folded, foldedLoaded, compiled, load, enough, compiledAgain,
    loadAgain, foldedEnough, ?_, ?_⟩
  · rw [report_compiled CharsetRegistry.common_lawful compiled (.inl rfl) load rfl enough]
    exact of_decide_eq_true shown
  · rw [report_compiled CharsetRegistry.common_lawful compiledAgain (.inl rfl) loadAgain rfl
      foldedEnough]
    exact of_decide_eq_true foldedShown

end Folding

end ExprCompiler
