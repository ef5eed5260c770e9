import ExprCompiler.Proofs.Codegen.FoldedRun
import ExprCompiler.Proofs.Codegen.Peephole

/-!
Programs whose dividends lose their sign. Such a program computes in wrapping words, except that it
divides the unsigned number of a dividend by a signed divisor. It stops at the first division whose
divisor is zero or whose quotient is no signed word, and at nothing else. Where no dividend is
negative, it shows what the program shows that keeps the sign.
-/

namespace ExprCompiler

/-- An unsigned dividend can be divided by a signed divisor: the divisor is not zero, and the
quotient toward zero is a signed word. -/
def Divides (left right : Word) : Prop :=
  right ≠ 0 ∧ -2147483648 ≤ (left.toNat : Int).tdiv right.toInt ∧
    (left.toNat : Int).tdiv right.toInt ≤ 2147483647

instance (left right : Word) : Decidable (Divides left right) :=
  inferInstanceAs (Decidable (_ ∧ _ ∧ _))

def unsignedDivision? (left right : Word) : Option (Word × Word) :=
  if Divides left right then
    some (BitVec.ofInt 32 ((left.toNat : Int).tdiv right.toInt),
      BitVec.ofInt 32 ((left.toNat : Int).tmod right.toInt))
  else none

def unsignedOperation? (kind : TokenKind) (left right : Word) : Option Word :=
  match kind with
  | .plus => some (left + right)
  | .minus => some (left - right)
  | .star => some (left * right)
  | .slash => (unsignedDivision? left right).map Prod.fst
  | .percent => (unsignedDivision? left right).map Prod.snd
  | _ => none

namespace Expr

/-- The value of an arithmetic tree whose divisions take the dividend as unsigned, if all of them
have a result. -/
def unsignedValue? (cells : Bytes → Word) : Expr → Option Word
  | literal (.int word) => some word
  | reference name => some (cells name.lexeme)
  | grouping inner => inner.unsignedValue? cells
  | unary _ right => (right.unsignedValue? cells).map fun word => -word
  | binary left op right => do
      let first ← left.unsignedValue? cells
      let second ← right.unsignedValue? cells
      unsignedOperation? op.kind first second
  | _ => none

/-- The divisions that this evaluation meets up to the first one without a result, each as dividend
and divisor, in order. -/
def unsignedDivisions (cells : Bytes → Word) : Expr → List (Word × Word)
  | grouping inner => inner.unsignedDivisions cells
  | unary _ right => right.unsignedDivisions cells
  | binary left op right =>
      left.unsignedDivisions cells ++ (left.unsignedValue? cells).elim [] fun first =>
        right.unsignedDivisions cells ++ (right.unsignedValue? cells).elim [] fun second =>
          if op.kind = .slash ∨ op.kind = .percent then [(first, second)] else []
  | _ => []

end Expr

def Fault.IsDivide (fault : Fault) : Prop := fault = .divisionByZero ∨ fault = .quotientOverflow

/-- Code computes the value of an evaluation, or stops with a fault at the one division among those
met that has no result. -/
inductive Unsigned : Option Word → List (Word × Word) → Except Fault Word → Prop where
  | valued {divisions : List (Word × Word)} (word : Word)
      (all : ∀ pair ∈ divisions, Divides pair.1 pair.2) :
      Unsigned (some word) divisions (.ok word)
  | stopped {divisions : List (Word × Word)} {fault : Fault} (isDivide : fault.IsDivide)
      (met : ∃ pair ∈ divisions, ¬Divides pair.1 pair.2) :
      Unsigned none divisions (.error fault)

namespace Unsigned

variable {value : Option Word} {divisions : List (Word × Word)} {result : Except Fault Word}

theorem follow {next : Word → Option Word} {later : Word → List (Word × Word)}
    {nextResult : Word → Except Fault Word} (first : Unsigned value divisions result)
    (second : ∀ word, value = some word → Unsigned (next word) (later word) (nextResult word)) :
    Unsigned (value.bind next) (divisions ++ value.elim [] later) (result.bind nextResult) := by
  cases first with
  | stopped isDivide met =>
      obtain ⟨pair, member, noResult⟩ := met
      exact .stopped isDivide ⟨pair, List.mem_append_left _ member, noResult⟩
  | valued word all =>
      change Unsigned (next word) (divisions ++ later word) (nextResult word)
      generalize isValue : next word = nextValue
      generalize isResult : nextResult word = lastResult
      have goesOn := second word rfl
      rw [isValue, isResult] at goesOn
      cases goesOn with
      | stopped isDivide met =>
          obtain ⟨pair, member, noResult⟩ := met
          exact .stopped isDivide ⟨pair, List.mem_append_right _ member, noResult⟩
      | valued other allLater =>
          refine .valued other ?_
          intro pair member
          rcases List.mem_append.mp member with inFirst | inLater
          · exact all pair inFirst
          · exact allLater pair inLater

theorem divided (left right : Word) (part : Word × Word → Word) :
    Unsigned ((unsignedDivision? left right).map part) [(left, right)]
      ((DivisionMode.zero.divide left right).map part) := by
  have divide : DivisionMode.zero.divide left right =
      if right = 0 then .error .divisionByZero
      else if (left.toNat : Int).tdiv right.toInt < -2147483648 ||
          2147483647 < (left.toNat : Int).tdiv right.toInt then .error .quotientOverflow
      else .ok (BitVec.ofInt 32 ((left.toNat : Int).tdiv right.toInt),
        BitVec.ofInt 32 ((left.toNat : Int).tmod right.toInt)) := rfl
  rw [divide, unsignedDivision?]
  by_cases divides : Divides left right
  · obtain ⟨notZero, low, high⟩ := divides
    rw [if_pos ⟨notZero, low, high⟩, if_neg notZero, if_neg]
    · exact .valued _ (by simpa using ⟨notZero, low, high⟩)
    · rw [Bool.or_eq_true, decide_eq_true_eq, decide_eq_true_eq]
      omega
  · rw [if_neg divides]
    by_cases isZero : right = 0
    · rw [if_pos isZero]
      exact .stopped (.inl rfl) ⟨_, List.mem_singleton_self _, divides⟩
    · rw [if_neg isZero, if_pos]
      · exact .stopped (.inr rfl) ⟨_, List.mem_singleton_self _, divides⟩
      · rw [Bool.or_eq_true, decide_eq_true_eq, decide_eq_true_eq]
        have outside : ¬(_ ∧ _) := fun both => divides ⟨isZero, both⟩
        omega

theorem computed {word : Word} (unsigned : Unsigned (some word) divisions result) :
    result = .ok word := by
  cases unsigned
  rfl

theorem failed (unsigned : Unsigned none divisions result) :
    ∃ fault : Fault, fault.IsDivide ∧ result = .error fault := by
  cases unsigned with
  | stopped isDivide _ => exact ⟨_, isDivide, rfl⟩

/-- There is a value as long as every division that is met has a result. -/
theorem valued_iff (unsigned : Unsigned value divisions result) :
    value.isSome = true ↔ ∀ pair ∈ divisions, Divides pair.1 pair.2 := by
  cases unsigned with
  | valued word all => exact iff_of_true rfl all
  | stopped _ met =>
      obtain ⟨pair, member, noResult⟩ := met
      exact iff_of_false (by simp) fun all => noResult (all pair member)

theorem stopped_iff (unsigned : Unsigned value divisions result) :
    value = none ↔ ∃ pair ∈ divisions, ¬Divides pair.1 pair.2 := by
  cases unsigned with
  | valued word all =>
      refine iff_of_false (by simp) ?_
      rintro ⟨pair, member, noResult⟩
      exact noResult (all pair member)
  | stopped _ met => exact iff_of_true rfl met

theorem operator {kind : TokenKind} (hasCode : isArithmetic kind = true) (left right : Word) :
    Unsigned (unsignedOperation? kind left right)
      (if kind = .slash ∨ kind = .percent then [(left, right)] else [])
      (DivisionMode.zero.operate kind left right) := by
  rcases arithmetic_kinds hasCode with rfl | rfl | rfl | rfl | rfl
  · exact .valued _ (by simp)
  · exact .valued _ (by simp)
  · exact .valued _ (by simp)
  · exact divided left right Prod.fst
  · exact divided left right Prod.snd

end Unsigned

namespace Expr

variable {names : List Bytes} {cells : Bytes → Word}

theorem unsigned_word {expr : Expr} (arithmetic : expr.Arithmetic names) :
    Unsigned (expr.unsignedValue? cells) (expr.unsignedDivisions cells)
      (expr.word .zero cells) := by
  induction arithmetic with
  | literal word => exact .valued word (by simp [unsignedDivisions])
  | reference name _ => exact .valued _ (by simp [unsignedDivisions])
  | grouping _ inner => exact inner
  | @negation op right isMinus _ rightUnsigned =>
      have negated : (unary op right).word .zero cells =
          (right.word .zero cells).bind fun word => .ok (-word) := by
        rw [Expr.word]
        cases right.word .zero cells <;> simp [Except.map, Except.bind, isMinus]
      have divisions : (unary op right).unsignedDivisions cells =
          right.unsignedDivisions cells ++ (right.unsignedValue? cells).elim [] fun _ => [] := by
        rw [unsignedDivisions]
        cases right.unsignedValue? cells <;> simp
      have value : (unary op right).unsignedValue? cells =
          (right.unsignedValue? cells).bind fun word => some (-word) := by
        rw [unsignedValue?]
        cases right.unsignedValue? cells <;> rfl
      rw [negated, divisions, value]
      exact rightUnsigned.follow fun word _ => .valued (-word) (by simp)
  | @binary left right op hasCode _ _ leftUnsigned rightUnsigned =>
      have value : (binary left op right).word .zero cells =
          (left.word .zero cells).bind fun first => (right.word .zero cells).bind fun second =>
            DivisionMode.zero.operate op.kind first second := by
        rw [Expr.word]
        cases left.word .zero cells <;> cases right.word .zero cells <;> rfl
      rw [value]
      exact leftUnsigned.follow fun first _ => rightUnsigned.follow fun second _ =>
        Unsigned.operator hasCode first second

theorem sign_operate_of_natural {kind : TokenKind} (hasCode : isArithmetic kind = true)
    {left right : Word} (natural : kind = .slash ∨ kind = .percent → 0 ≤ left.toInt) :
    DivisionMode.sign.operate kind left right = DivisionMode.zero.operate kind left right := by
  have same (isDivision : kind = .slash ∨ kind = .percent) :
      DivisionMode.sign.operate kind left right = DivisionMode.zero.operate kind left right :=
    (DivisionMode.operate_of_dividend
      (DivisionMode.dividend_of_nonnegative .zero (natural isDivision)) kind right).symm
  rcases arithmetic_kinds hasCode with kind | kind | kind | kind | kind
  · rw [kind]; rfl
  · rw [kind]; rfl
  · rw [kind]; rfl
  · exact same (.inl kind)
  · exact same (.inr kind)

/-- Where no dividend is negative, the sign makes no difference. -/
theorem word_sign_of_natural {expr : Expr} (arithmetic : expr.Arithmetic names)
    (natural : ∀ pair ∈ expr.unsignedDivisions cells, 0 ≤ pair.1.toInt) :
    expr.word .sign cells = expr.word .zero cells := by
  induction arithmetic with
  | literal word => rfl
  | reference name _ => rfl
  | grouping _ inner => exact inner natural
  | negation _ _ right => rw [word, word, right natural]
  | @binary left right op hasCode leftPart rightPart leftSame rightSame =>
      have inLeft := leftSame fun pair member => natural pair (by simp [unsignedDivisions, member])
      have leftUnsigned := @unsigned_word _ cells _ leftPart
      rw [word, word, inLeft]
      cases firstValue : left.unsignedValue? cells with
      | none =>
          rw [firstValue] at leftUnsigned
          obtain ⟨fault, _, failed⟩ := leftUnsigned.failed
          rw [failed]
      | some first =>
          rw [firstValue] at leftUnsigned
          have inRight := rightSame fun pair member =>
            natural pair (by simp [unsignedDivisions, firstValue, member])
          have rightUnsigned := @unsigned_word _ cells _ rightPart
          rw [leftUnsigned.computed, inRight]
          cases secondValue : right.unsignedValue? cells with
          | none =>
              rw [secondValue] at rightUnsigned
              obtain ⟨fault, _, failed⟩ := rightUnsigned.failed
              rw [failed]
          | some second =>
              rw [secondValue] at rightUnsigned
              rw [rightUnsigned.computed]
              apply sign_operate_of_natural hasCode
              intro isDivision
              exact natural (first, second)
                (by simp [unsignedDivisions, firstValue, secondValue, isDivision])

end Expr

section Size

/-- What the peephole pass looks at in a line. -/
def Line.shape (line : Line) : Bool × Bool := (line.isPush, line.isPop)

theorem Line.merge_some_iff (first second : Line) :
    (first.merge? second).isSome = (first.isPush && second.isPop) := by
  cases merge : first.merge? second with
  | some merged =>
      obtain ⟨source, target, rfl, rfl, _⟩ := Line.merge_cases merge
      rfl
  | none =>
      unfold Line.merge? at merge
      unfold Line.isPush Line.isPop
      split at merge
      · cases merge
      · rename_i noPair
        split
        · split
          · exact absurd rfl (noPair _ _ rfl)
          · rfl
        · rfl

theorem Line.merges_congr {first second first' second' : Line}
    (firstSame : first'.shape = first.shape) (secondSame : second'.shape = second.shape) :
    (first'.merge? second').isSome = (first.merge? second).isSome := by
  rw [merge_some_iff, merge_some_iff, (Prod.mk.inj firstSame).1, (Prod.mk.inj secondSame).2]

theorem Line.merge_pairs_length_congr {lines others : List Line}
    (same : others.map Line.shape = lines.map Line.shape) :
    (Line.mergePairs others).length = (Line.mergePairs lines).length := by
  fun_induction Line.mergePairs lines generalizing others with
  | case1 first second rest merged merge induction =>
      obtain ⟨first', tail, rfl, firstSame, tailSame⟩ := List.map_eq_cons_iff.mp same
      obtain ⟨second', rest', rfl, secondSame, restSame⟩ := List.map_eq_cons_iff.mp tailSame
      have merges := Line.merges_congr firstSame secondSame
      rw [merge] at merges
      obtain ⟨merged', merge'⟩ := Option.isSome_iff_exists.mp merges
      rw [Line.mergePairs, merge', List.length_cons, List.length_cons, induction restSame]
  | case2 first second rest noMerge induction =>
      obtain ⟨first', tail, rfl, firstSame, tailSame⟩ := List.map_eq_cons_iff.mp same
      obtain ⟨second', rest', rfl, secondSame, _⟩ := List.map_eq_cons_iff.mp tailSame
      have merges := Line.merges_congr firstSame secondSame
      rw [noMerge, Option.isSome_none, Option.isSome_eq_false_iff, Option.isNone_iff_eq_none]
        at merges
      rw [Line.mergePairs, merges, List.length_cons, List.length_cons, induction tailSame]
  | case3 lines short =>
      have length := congrArg List.length same
      rw [List.length_map, List.length_map] at length
      cases others with
      | nil => exact length
      | cons first others =>
          cases others with
          | nil => exact length
          | cons second others =>
              obtain ⟨first', tail, rfl, _, tailSame⟩ := List.map_eq_cons_iff.mp same.symm
              obtain ⟨second', rest', rfl, _⟩ := List.map_eq_cons_iff.mp tailSame
              exact absurd rfl (short first' second' rest')

variable {names : List Bytes}

theorem code_shape (mode other : DivisionMode) (expr : Expr) :
    (expr.code mode).map Line.shape = (expr.code other).map Line.shape := by
  have operators (kind : TokenKind) : (operatorLines mode kind).map Line.shape =
      (operatorLines other kind).map Line.shape := by
    unfold operatorLines
    split <;> cases mode <;> cases other <;> rfl
  induction expr with
  | grouping inner induction => exact induction
  | unary op right induction => simp only [Expr.code, List.map_append, induction]
  | binary left op right leftInduction rightInduction =>
      simp only [Expr.code, List.map_append, leftInduction, rightInduction, operators]
  | literal value => cases value <;> rfl
  | _ => rfl

theorem tree_lines_length (options : CompileOptions) (division : DivisionMode) (expr : Expr) :
    (treeLines { options with division := division }.toCodegenOptions expr).length =
      (treeLines options.toCodegenOptions expr).length := by
  have shape := code_shape division options.division expr
  cases peephole : options.peephole with
  | false =>
      have length := congrArg List.length shape
      rw [List.length_map, List.length_map] at length
      simpa [treeLines, peephole] using length
  | true => simpa [treeLines, peephole] using Line.merge_pairs_length_congr shape

theorem data_end_congr {image other : Image} (symbols : other.symbols = image.symbols)
    (same : (other.program.constants ++ other.program.reservations).map DataItem.visible =
      (image.program.constants ++ image.program.reservations).map DataItem.visible) :
    other.dataEnd = image.dataEnd := by
  have ends (image : Image) : image.dataEnd =
      match ((image.program.constants ++ image.program.reservations).map
        DataItem.visible).getLast? with
      | some item => ((image.symbols.find? item.1).getD 0).toNat + item.2.size
      | none => 0 := by
    rw [Image.dataEnd, List.getLast?_map]
    cases (image.program.constants ++ image.program.reservations).getLast? <;> rfl
  rw [ends, ends, same, symbols]

end Size

section Programs

variable {options : CompileOptions} {source : Bytes} {output : Output} {machine : MachineOptions}
variable {loaded : Loaded}

/-- A program that divides in another way takes as much room and as many steps. -/
theorem suffices_other_division (lawful : options.charsets.Lawful) (division : DivisionMode)
    (compiled : compile options source = .ok output)
    (load : loadListing output.assembly.bytes machine = .ok loaded)
    (enough : Suffices output loaded) :
    ∃ other otherLoaded, compile { options with division := division } source = .ok other ∧
      loadListing other.assembly.bytes machine = .ok otherLoaded ∧ Suffices other otherLoaded ∧
      other.folded = output.folded ∧ other.variableNames = output.variableNames := by
  let again : CompileOptions := { options with division := division }
  have lawfulAgain : again.charsets.Lawful := lawful
  obtain ⟨other, otherLoaded, compiledAgain, folded, names, loadAgain, image, _⟩ :=
    @load_other options source output machine loaded lawful again rfl rfl rfl compiled load
  refine ⟨other, otherLoaded, compiledAgain, loadAgain, ?_, folded, names⟩
  have symbols : otherLoaded.image.symbols = loaded.image.symbols := by rw [image]
  have top : otherLoaded.image.stackTop = loaded.image.stackTop := by rw [image]
  have steps : otherLoaded.image.stepLimit = loaded.image.stepLimit := by rw [image]
  obtain ⟨program, _⟩ := loaded_program (load_compiled lawful compiled (.inl rfl) load)
  obtain ⟨otherProgram, _⟩ :=
    loaded_program (load_compiled lawfulAgain compiledAgain (.inl rfl) loadAgain)
  have dataEnd : otherLoaded.image.dataEnd = loaded.image.dataEnd := by
    apply data_end_congr symbols
    rw [program, otherProgram, names, List.map_append, List.map_append,
      visible_constants, visible_reservations]
  have size : otherLoaded.image.program.instructions.size =
      loaded.image.program.instructions.size := by
    rw [compiled_size lawful compiled (.inl rfl) load,
      compiled_size lawfulAgain compiledAgain (.inl rfl) loadAgain, names, folded]
    have length : (treeLines again.toCodegenOptions output.folded).length =
        (treeLines options.toCodegenOptions output.folded).length :=
      tree_lines_length options division output.folded
    simp only [mainLines, List.length_append] at length ⊢
    omega
  constructor
  · rw [dataEnd, folded, top]
    exact enough.room
  · rw [size, steps]
    exact enough.limit

theorem report_unsigned (lawful : options.charsets.Lawful)
    (division : options.division = .zero) (plain : options.fold = false)
    (compiled : compile options source = .ok output)
    (load : loadListing output.assembly.bytes machine = .ok loaded)
    (standard : machine.routines = standardRoutines) (enough : Suffices output loaded)
    {values : List Word}
    (scanned : scanWords output.variableNames.length machine.input = ⟨values, none⟩) :
    loaded.report =
      ⟨faultOf (output.tree.word .zero (readNumber output.variableNames values)),
        output.variableNames.flatMap promptText ++
          (answerOf (output.tree.word .zero (readNumber output.variableNames values))).flatten⟩ := by
  obtain ⟨_, folded, _⟩ := compile_cases compiled
  have same : output.folded = output.tree := by
    rw [folded, CompileOptions.target, plain]
    rfl
  rw [report_compiled lawful compiled (.inl rfl) load standard enough, Expr.report, scanned, same,
    division]

/-- A program without signs prints the value of its source, or stops at the first division that has
no result. Where it meets no negative dividend, the program with signs shows the same. -/
theorem unsigned_dividend_program (lawful : options.charsets.Lawful)
    (division : options.division = .zero) (plain : options.fold = false)
    (compiled : compile options source = .ok output)
    (load : loadListing output.assembly.bytes machine = .ok loaded)
    (standard : machine.routines = standardRoutines) (enough : Suffices output loaded)
    {values : List Word}
    (scanned : scanWords output.variableNames.length machine.input = ⟨values, none⟩) :
    let prompts := output.variableNames.flatMap promptText
    let cells := readNumber output.variableNames values
    ((∃ word, output.tree.unsignedValue? cells = some word ∧
        loaded.report = ⟨none, prompts ++ word.text ++ [10]⟩) ↔
      ∀ pair ∈ output.tree.unsignedDivisions cells, Divides pair.1 pair.2) ∧
    ((∃ fault : Fault, fault.IsDivide ∧ loaded.report = ⟨some fault, prompts⟩) ↔
      ∃ pair ∈ output.tree.unsignedDivisions cells, ¬Divides pair.1 pair.2) ∧
    ((∀ pair ∈ output.tree.unsignedDivisions cells, 0 ≤ pair.1.toInt) →
      ∃ signed signedLoaded, compile { options with division := .sign } source = .ok signed ∧
        loadListing signed.assembly.bytes machine = .ok signedLoaded ∧
        Suffices signed signedLoaded ∧ signedLoaded.report = loaded.report) := by
  intro prompts cells
  have arithmetic := tree_arithmetic compiled
  have unsigned := @Expr.unsigned_word _ cells _ arithmetic
  have shown := report_unsigned lawful division plain compiled load standard enough scanned
  refine ⟨?_, ?_, ?_⟩
  · rw [← unsigned.valued_iff]
    constructor
    · rintro ⟨word, value, _⟩
      rw [value]
      rfl
    · intro valued
      obtain ⟨word, value⟩ := Option.isSome_iff_exists.mp valued
      rw [value] at unsigned
      refine ⟨word, value, ?_⟩
      rw [shown, unsigned.computed]
      simp [faultOf, answerOf, prompts]
  · rw [← unsigned.stopped_iff]
    constructor
    · rintro ⟨fault, _, failed⟩
      apply Option.eq_none_iff_forall_ne_some.mpr
      intro word value
      rw [value] at unsigned
      rw [shown, unsigned.computed] at failed
      cases failed
    · intro noValue
      rw [noValue] at unsigned
      obtain ⟨fault, isDivide, failed⟩ := unsigned.failed
      refine ⟨fault, isDivide, ?_⟩
      rw [shown, failed]
      simp [faultOf, answerOf, prompts]
  · intro natural
    obtain ⟨signed, signedLoaded, compiledAgain, loadAgain, signedEnough, folded, names⟩ :=
      suffices_other_division lawful .sign compiled load enough
    refine ⟨signed, signedLoaded, compiledAgain, loadAgain, signedEnough, ?_⟩
    obtain ⟨_, target, _⟩ := compile_cases compiled
    have same : signed.folded = output.tree := by
      rw [folded, target, CompileOptions.target, plain]
      rfl
    have lawfulSigned : ({ options with division := .sign } : CompileOptions).charsets.Lawful :=
      lawful
    rw [report_compiled lawfulSigned compiledAgain (.inl rfl) loadAgain standard signedEnough,
      shown, Expr.report, names, scanned, same]
    simp only [Expr.word_sign_of_natural arithmetic natural, cells]

/-- A negative dividend, divided as the large number that its bits are without a sign. -/
theorem negative_dividend_quotient :
    ∃ output loaded,
      compile { division := .zero, fold := false } (utf8 "a/b+7%3") = .ok output ∧
      loadListing output.assembly.bytes { input := utf8 "-9 2" } = .ok loaded ∧
      loaded.report = ⟨none, utf8 "a = b = 2147483644\n"⟩ := by
  obtain ⟨output, loaded, compiled, load, enough, checked⟩ := @loaded_of_check
    { division := .zero, fold := false } (utf8 "a/b+7%3") { input := utf8 "-9 2" }
    (fun output =>
      let cells := readNumber output.variableNames [BitVec.ofInt 32 (-9), 2]
      decide (output.variableNames = [utf8 "a", utf8 "b"]) &&
      (output.tree.unsignedDivisions cells).all (fun pair => decide (Divides pair.1 pair.2)) &&
      decide (output.tree.unsignedValue? cells = some 2147483644))
    (CharsetRegistry.resolve_canonical .utf8) (by decide +kernel)
  simp only [Bool.and_eq_true, decide_eq_true_eq, List.all_eq_true] at checked
  obtain ⟨⟨names, divides⟩, value⟩ := checked
  have scanned : scanWords 2 (utf8 "-9 2") = ⟨[BitVec.ofInt 32 (-9), 2], none⟩ := by
    decide +kernel
  have count : output.variableNames.length = 2 := by rw [names]; rfl
  obtain ⟨word, isValue, shown⟩ := (unsigned_dividend_program CharsetRegistry.common_lawful rfl
    rfl compiled load rfl enough (by rw [count]; exact scanned)).1.mpr divides
  cases value.symm.trans isValue
  refine ⟨output, loaded, compiled, load, ?_⟩
  rw [shown, names]
  decide +kernel

end Programs

end ExprCompiler
