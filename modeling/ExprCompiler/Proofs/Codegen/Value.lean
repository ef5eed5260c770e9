import ExprCompiler.Expr.Evaluate
import ExprCompiler.Machine.State
import ExprCompiler.Proofs.Codegen.Arithmetic
import ExprCompiler.Proofs.Folding

/-!
What the code of a tree computes, told on the tree. Words wrap, and a division gives the quotient
and the remainder of the prepared dividend or fails as the hardware does. With the sign extended
this is what folding and direct evaluation compute, as long as no division fails.
-/

namespace ExprCompiler

namespace DivisionMode

/-- The number that a hardware division takes a word for. -/
def dividend : DivisionMode → Word → Int
  | sign, word => word.toInt
  | zero, word => word.toNat

def divide (mode : DivisionMode) (left right : Word) : Except Fault (Word × Word) :=
  let quotient := (mode.dividend left).tdiv right.toInt
  let remainder := (mode.dividend left).tmod right.toInt
  if right = 0 then .error .divisionByZero
  else if quotient < -2147483648 || 2147483647 < quotient then .error .quotientOverflow
  else .ok (BitVec.ofInt 32 quotient, BitVec.ofInt 32 remainder)

/-- What the lines of an operator compute; an operator without lines leaves the left word. -/
def operate (mode : DivisionMode) (kind : TokenKind) (left right : Word) : Except Fault Word :=
  match kind with
  | .plus => .ok (left + right)
  | .minus => .ok (left - right)
  | .star => .ok (left * right)
  | .slash => (mode.divide left right).map Prod.fst
  | .percent => (mode.divide left right).map Prod.snd
  | _ => .ok left

theorem divide_sign_quiet {left right : Word} (quiet : Word.divisionFaults left right = false) :
    sign.divide left right = .ok (left.sdiv right, left.srem right) := by
  simp only [Word.divisionFaults, Word.least, Bool.or_eq_false_iff, Bool.and_eq_false_iff,
    beq_eq_false_iff_ne] at quiet
  obtain ⟨notZero, noOverflow⟩ := quiet
  have quotient : left.toInt.tdiv right.toInt = (left.sdiv right).toInt :=
    (BitVec.toInt_sdiv_of_ne_or_ne left right noOverflow).symm
  have remainder : left.toInt.tmod right.toInt = (left.srem right).toInt :=
    (BitVec.toInt_srem left right).symm
  have above := (left.sdiv right).le_toInt
  have below := (left.sdiv right).toInt_lt
  have inRange : ¬((left.sdiv right).toInt < -2147483648 ∨ 2147483647 < (left.sdiv right).toInt) := by
    omega
  simp only [divide, dividend, quotient, remainder, BitVec.ofInt_toInt]
  rw [if_neg notZero, if_neg (by simpa using inRange)]

/-- Folding gives what the hardware gives. -/
theorem operate_of_fold_words {kind : TokenKind} {left right word : Word}
    (folded : foldWords? kind left right = some word) :
    sign.operate kind left right = .ok word := by
  unfold foldWords? at folded
  split at folded
  · cases folded
    rfl
  · cases folded
    rfl
  · cases folded
    rfl
  · split at folded
    · cases folded
    · rename_i quiet
      cases folded
      rw [operate, divide_sign_quiet (by simpa using quiet)]
      rfl
  · split at folded
    · cases folded
    · rename_i quiet
      cases folded
      rw [operate, divide_sign_quiet (by simpa using quiet)]
      rfl
  · cases folded

end DivisionMode

namespace Expr

/-- The word that the code of a tree leaves, given the words in the cells of the variables. -/
def word (mode : DivisionMode) (cells : Bytes → Word) : Expr → Except Fault Word
  | literal (.int word) => .ok word
  | reference name => .ok (cells name.lexeme)
  | grouping inner => inner.word mode cells
  | unary op right => (right.word mode cells).map fun word => if op.kind = .minus then -word else word
  | binary left op right =>
      match left.word mode cells with
      | .error fault => .error fault
      | .ok first =>
          match right.word mode cells with
          | .error fault => .error fault
          | .ok second => mode.operate op.kind first second
  | _ => .ok 0

variable {names : List Bytes} {cells : Bytes → Word}

theorem word_fold_grouping (inner : Expr) (mode : DivisionMode) :
    (foldGrouping inner).word mode cells = inner.word mode cells := by
  unfold foldGrouping
  split
  · rfl
  · rfl

theorem word_fold_unary (op : Token) (right : Expr) (mode : DivisionMode) :
    (foldUnary op right).word mode cells = (unary op right).word mode cells := by
  unfold foldUnary
  split
  · split
    · rename_i isMinus
      simp [word, isMinus, Except.map]
    · rfl
  · rfl

theorem word_fold_binary (left : Expr) (op : Token) (right : Expr) :
    (foldBinary left op right).word .sign cells = (binary left op right).word .sign cells := by
  unfold foldBinary
  split
  · split
    · rename_i first second result folded
      simp only [word]
      rw [DivisionMode.operate_of_fold_words folded]
    · rfl
  · rfl

/-- With the sign extended, folding does not change what the code computes. -/
theorem word_fold (expr : Expr) : expr.fold.word .sign cells = expr.word .sign cells := by
  induction expr with
  | literal value => rfl
  | reference name => rfl
  | grouping inner induction => rw [fold, word_fold_grouping, induction, word]
  | unary op right induction => rw [fold, word_fold_unary, word, word, induction]
  | binary left op right leftInduction rightInduction =>
      rw [fold, word_fold_binary, word, word, leftInduction, rightInduction]
  | logical left op right _ _ => rfl
  | assign name value _ => rfl
  | absent => rfl

end Expr

def divisionOf (op : Token) : Value → Value → List (Word × Word)
  | .int left, .int right =>
      if op.kind = .slash || op.kind = .percent then [(left, right)] else []
  | _, _ => []

/-- The divisions that the evaluation of a tree meets, each as dividend and divisor, in order. -/
def Expr.divisions : Expr → Scope → List (Word × Word)
  | grouping inner, scope => inner.divisions scope
  | unary _ right, scope => right.divisions scope
  | binary left op right, scope =>
      left.divisions scope ++
        match left.evaluate scope with
        | (.error _, _) => []
        | (.ok first, between) =>
            right.divisions between ++
              match right.evaluate between with
              | (.error _, _) => []
              | (.ok second, _) => divisionOf op first second
  | logical left op right, scope =>
      left.divisions scope ++
        match left.evaluate scope with
        | (.error _, _) => []
        | (.ok first, between) =>
            match first.asBool op, Connective.ofKind? op.kind with
            | .ok flag, some (connective, _) =>
                if (connective.settled? flag).isNone then right.divisions between else []
            | _, _ => []
  | assign _ value, scope => value.divisions scope
  | _, _ => []

namespace Expr

variable {names : List Bytes} {cells : Bytes → Word} {environment : Environment}

theorem fold_words_quiet {op : Token} {left right : Word} (hasCode : isArithmetic op.kind = true)
    (quiet : ∀ pair ∈ divisionOf op (.int left) (.int right),
      Word.divisionFaults pair.1 pair.2 = false) :
    ∃ word, foldWords? op.kind left right = some word := by
  have divided (division : op.kind = .slash ∨ op.kind = .percent) :
      Word.divisionFaults left right = false := by
    apply quiet (left, right)
    simp [divisionOf, division]
  rcases arithmetic_kinds hasCode with kind | kind | kind | kind | kind
  · exact ⟨left + right, by rw [kind]; rfl⟩
  · exact ⟨left - right, by rw [kind]; rfl⟩
  · exact ⟨left * right, by rw [kind]; rfl⟩
  · exact ⟨left.sdiv right, by simp [foldWords?, kind, divided (.inl kind)]⟩
  · exact ⟨left.srem right, by simp [foldWords?, kind, divided (.inr kind)]⟩

/-- Evaluation without a division that fails gives the word that the code computes. -/
theorem evaluate_arithmetic {expr : Expr} (arithmetic : expr.Arithmetic names)
    (bound : ∀ name ∈ names, environment.find? name = some (.int (cells name)))
    (quiet : ∀ pair ∈ expr.divisions (some environment),
      Word.divisionFaults pair.1 pair.2 = false) :
    ∃ word, expr.word .sign cells = .ok word ∧
      expr.evaluate (some environment) = (.ok (.int word), some environment) := by
  induction arithmetic with
  | literal word => exact ⟨word, rfl, rfl⟩
  | reference name known =>
      refine ⟨cells name.lexeme, rfl, ?_⟩
      have found : Scope.find? (some environment) name.lexeme = some (.int (cells name.lexeme)) :=
        bound name.lexeme known
      simp only [evaluate, found]
  | grouping _ inner => exact inner quiet
  | @negation op right isMinus _ rightValue =>
      obtain ⟨value, rightWord, rightEvaluated⟩ := rightValue quiet
      refine ⟨-value, ?_, ?_⟩
      · simp [word, rightWord, isMinus, Except.map]
      · simp [evaluate, rightEvaluated, applyUnary, isMinus, Value.asWord, Except.map]
  | @binary left right op hasCode _ _ leftValue rightValue =>
      obtain ⟨first, leftWord, leftEvaluated⟩ := leftValue fun pair member =>
        quiet pair (List.mem_append_left _ member)
      simp only [divisions, leftEvaluated] at quiet
      obtain ⟨second, rightWord, rightEvaluated⟩ := rightValue fun pair member =>
        quiet pair (List.mem_append_right _ (List.mem_append_left _ member))
      simp only [rightEvaluated] at quiet
      obtain ⟨result, folded⟩ := fold_words_quiet hasCode fun pair member =>
        quiet pair (List.mem_append_right _ (List.mem_append_right _ member))
      have operated := DivisionMode.operate_of_fold_words folded
      have applied := apply_binary_of_fold_words op first second result folded
      refine ⟨result, ?_, ?_⟩
      · simp only [word, leftWord, rightWord, operated]
      · simp only [evaluate, leftEvaluated, rightEvaluated, applied]

end Expr
end ExprCompiler
