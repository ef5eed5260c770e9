import ExprCompiler.Proofs.Folding

/-!
The normal form of folding. One pass leaves no node that folding takes away, and a tree without such
a node is left as it is; a second pass therefore finds nothing to do.
-/

namespace ExprCompiler.Expr

def nodes : Expr → List Expr
  | literal value => [literal value]
  | reference name => [reference name]
  | grouping inner => grouping inner :: inner.nodes
  | unary op right => unary op right :: right.nodes
  | binary left op right => binary left op right :: (left.nodes ++ right.nodes)
  | logical left op right => logical left op right :: (left.nodes ++ right.nodes)
  | assign name value => assign name value :: value.nodes
  | absent => [absent]

/-- A node whose value is known before the program runs. A division by zero and one whose quotient
fits no word are left for the program to fail on. -/
inductive Foldable : Expr → Prop where
  | grouping (value : Value) : Foldable (grouping (literal value))
  | negation {op : Token} (isMinus : op.kind = .minus) (word : Word) :
      Foldable (unary op (literal (.int word)))
  | arithmetic {op : Token} (operator : op.kind = .plus ∨ op.kind = .minus ∨ op.kind = .star)
      (left right : Word) : Foldable (binary (literal (.int left)) op (literal (.int right)))
  | division {op : Token} (operator : op.kind = .slash ∨ op.kind = .percent) {left right : Word}
      (divides : right ≠ 0) (fits : ¬(left = Word.least ∧ right = -1)) :
      Foldable (binary (literal (.int left)) op (literal (.int right)))

def Settled (expr : Expr) : Prop := ∀ node ∈ expr.nodes, ¬node.Foldable

theorem division_faults_iff {left right : Word} :
    Word.divisionFaults left right = true ↔ right = 0 ∨ left = Word.least ∧ right = -1 := by
  simp [Word.divisionFaults]

theorem foldable_words_iff {op : Token} {left right : Word} :
    Foldable (binary (literal (.int left)) op (literal (.int right))) ↔
      (foldWords? op.kind left right).isSome = true := by
  have quietly {word : Word} :
      ((if Word.divisionFaults left right then none else some word).isSome = true) ↔
        right ≠ 0 ∧ ¬(left = Word.least ∧ right = -1) := by
    by_cases faults : Word.divisionFaults left right = true
    · rw [if_pos faults, ← not_or, ← division_faults_iff]
      simp [faults]
    · rw [if_neg faults, ← not_or, ← division_faults_iff]
      simp [faults]
  constructor
  · intro foldable
    cases foldable with
    | arithmetic operator => rcases operator with kind | kind | kind <;> rw [kind] <;> rfl
    | division operator divides fits =>
        rcases operator with kind | kind <;> rw [kind] <;> exact quietly.mpr ⟨divides, fits⟩
  · intro computed
    unfold foldWords? at computed
    split at computed
    case h_1 kind => exact .arithmetic (.inl kind) left right
    case h_2 kind => exact .arithmetic (.inr (.inl kind)) left right
    case h_3 kind => exact .arithmetic (.inr (.inr kind)) left right
    case h_4 kind =>
      obtain ⟨divides, fits⟩ := quietly.mp computed
      exact .division (.inl kind) divides fits
    case h_5 kind =>
      obtain ⟨divides, fits⟩ := quietly.mp computed
      exact .division (.inr kind) divides fits
    case h_6 => cases computed

section Nodes

variable {inner left right : Expr} {op name : Token}

theorem settled_leaf {leaf : Expr} (alone : leaf.nodes = [leaf]) (plain : ¬leaf.Foldable) :
    leaf.Settled := by
  rw [Settled, alone]
  exact List.forall_mem_singleton.mpr plain

theorem settled_literal (value : Value) : (literal value).Settled := by
  refine settled_leaf rfl ?_
  intro foldable
  cases foldable

theorem settled_grouping_iff :
    (grouping inner).Settled ↔ ¬(grouping inner).Foldable ∧ inner.Settled := List.forall_mem_cons

theorem settled_unary_iff :
    (unary op right).Settled ↔ ¬(unary op right).Foldable ∧ right.Settled := List.forall_mem_cons

theorem settled_binary_iff : (binary left op right).Settled ↔
    ¬(binary left op right).Foldable ∧ left.Settled ∧ right.Settled := by
  rw [Settled, nodes, List.forall_mem_cons, List.forall_mem_append]
  rfl

theorem settled_logical_iff :
    (logical left op right).Settled ↔ left.Settled ∧ right.Settled := by
  have plain : ¬(logical left op right).Foldable := by
    intro foldable
    cases foldable
  rw [Settled, nodes, List.forall_mem_cons, List.forall_mem_append, and_iff_right plain]
  rfl

theorem settled_assign_iff : (assign name right).Settled ↔ right.Settled := by
  have plain : ¬(assign name right).Foldable := by
    intro foldable
    cases foldable
  rw [Settled, nodes, List.forall_mem_cons, and_iff_right plain]
  rfl

/-- Each rewrite at a node settles the node, since its parts are settled and a literal that comes
of them is used up at once. -/
theorem settled_fold_grouping (settled : inner.Settled) : inner.foldGrouping.Settled := by
  unfold foldGrouping
  split
  · exact settled
  · rename_i noLiteral
    refine settled_grouping_iff.mpr ⟨?_, settled⟩
    intro foldable
    cases foldable with
    | grouping value => exact noLiteral value rfl

theorem settled_fold_unary (settled : right.Settled) : (foldUnary op right).Settled := by
  unfold foldUnary
  split
  · split
    · exact settled_literal _
    · rename_i noMinus
      refine settled_unary_iff.mpr ⟨?_, settled⟩
      intro foldable
      cases foldable with
      | negation isMinus => exact noMinus isMinus
  · rename_i noWord
    refine settled_unary_iff.mpr ⟨?_, settled⟩
    intro foldable
    cases foldable with
    | negation isMinus word => exact noWord word rfl

theorem settled_fold_binary (first : left.Settled) (second : right.Settled) :
    (foldBinary left op right).Settled := by
  unfold foldBinary
  split
  · split
    · exact settled_literal _
    · rename_i refused
      refine settled_binary_iff.mpr ⟨?_, first, second⟩
      rw [foldable_words_iff, refused]
      simp
  · rename_i noWords
    refine settled_binary_iff.mpr ⟨?_, first, second⟩
    intro foldable
    cases foldable with
    | arithmetic operator left right => exact noWords left right rfl rfl
    | division => exact noWords _ _ rfl rfl

end Nodes

theorem settled_fold (expr : Expr) : expr.fold.Settled := by
  induction expr with
  | literal value => exact settled_literal value
  | reference name =>
      refine settled_leaf rfl ?_
      intro foldable
      cases foldable
  | grouping inner settled => exact settled_fold_grouping settled
  | unary op right settled => exact settled_fold_unary settled
  | binary left op right first second => exact settled_fold_binary first second
  | logical left op right first second => exact settled_logical_iff.mpr ⟨first, second⟩
  | assign name value settled => exact settled_assign_iff.mpr settled
  | absent =>
      refine settled_leaf rfl ?_
      intro foldable
      cases foldable

theorem fold_of_settled {expr : Expr} (settled : expr.Settled) : expr.fold = expr := by
  induction expr with
  | literal value => rfl
  | reference name => rfl
  | grouping inner same =>
      obtain ⟨stays, inside⟩ := settled_grouping_iff.mp settled
      rw [fold, same inside]
      unfold foldGrouping
      split
      · exact absurd (.grouping _) stays
      · rfl
  | unary op right same =>
      obtain ⟨stays, inside⟩ := settled_unary_iff.mp settled
      rw [fold, same inside]
      unfold foldUnary
      split
      · split
        · rename_i isMinus
          exact absurd (.negation isMinus _) stays
        · rfl
      · rfl
  | binary left op right leftSame rightSame =>
      obtain ⟨stays, first, second⟩ := settled_binary_iff.mp settled
      rw [fold, leftSame first, rightSame second]
      unfold foldBinary
      split
      · split
        · rename_i computed
          refine absurd (foldable_words_iff.mpr ?_) stays
          rw [computed]
          rfl
        · rfl
      · rfl
  | logical left op right leftSame rightSame =>
      obtain ⟨first, second⟩ := settled_logical_iff.mp settled
      rw [fold, leftSame first, rightSame second]
  | assign name value same => rw [fold, same (settled_assign_iff.mp settled)]
  | absent => rfl

/-- The normal forms are the trees that folding leaves as they are. -/
theorem fold_eq_self_iff (expr : Expr) : expr.fold = expr ↔ expr.Settled := by
  constructor
  · intro same
    rw [← same]
    exact settled_fold expr
  · exact fold_of_settled

/-- One pass reaches a normal form, in which every name of the tree still occurs. -/
theorem fold_reaches_normal_form (expr : Expr) :
    (∀ node ∈ expr.fold.nodes, ¬node.Foldable) ∧ expr.fold.fold = expr.fold ∧
      expr.fold.names = expr.names :=
  ⟨settled_fold expr, (fold_eq_self_iff expr.fold).mpr (settled_fold expr), names_fold expr⟩

end ExprCompiler.Expr
