import ExprCompiler.Expr.Evaluate
import ExprCompiler.Proofs.Table
import ExprCompiler.Proofs.Text.SortedSet

/-!
What evaluation depends on and what it changes. Two runs of a tree that start with the same bindings
for its names give the same value or failure, and end with the same bindings for them. A run leaves
every name alone that the tree does not assign, also when it fails.
-/

namespace ExprCompiler

abbrev Outcome := Except EvalError Value × Scope

/-- Goes on with the value of a run. A failed run is final. -/
def Outcome.andThen (run : Outcome) (next : Value → Scope → Outcome) : Outcome :=
  match run with
  | (.error problem, after) => (.error problem, after)
  | (.ok value, after) => next value after

namespace Scope

/-- Two scopes with the same bindings for some names. Both can be assigned to, or neither. -/
structure Agree (names : List Bytes) (first second : Scope) : Prop where
  bindings : ∀ name ∈ names, first.find? name = second.find? name
  present : first.isSome = second.isSome

theorem find_set (environment : Environment) (key name : Bytes) (value : Value) :
    Scope.find? (some (environment.set key value)) name =
      if key = name then some value else Scope.find? (some environment) name :=
  Table.find_set environment key name value

theorem Agree.set {names : List Bytes} {first second : Environment}
    (agree : Agree names (some first) (some second)) (key : Bytes) (value : Value) :
    Agree names (some (first.set key value)) (some (second.set key value)) where
  bindings name member := by rw [find_set, find_set, agree.bindings name member]
  present := rfl

end Scope

namespace Outcome

/-- Two runs that end alike as far as some names are concerned. -/
structure Alike (names : List Bytes) (first second : Outcome) : Prop where
  result : first.1 = second.1
  scopes : Scope.Agree names first.2 second.2

theorem Alike.and_then {names : List Bytes} {first second : Outcome}
    {next : Value → Scope → Outcome} (alike : Alike names first second)
    (later : ∀ value left right, Scope.Agree names left right →
      Alike names (next value left) (next value right)) :
    Alike names (first.andThen next) (second.andThen next) := by
  obtain ⟨result, left⟩ := first
  obtain ⟨other, right⟩ := second
  obtain ⟨same, scopes⟩ := alike
  dsimp only at same scopes
  subst same
  cases result with
  | error problem => exact ⟨rfl, scopes⟩
  | ok value => exact later value left right scopes

structure Keeps (assigned : List Bytes) (before : Scope) (run : Outcome) : Prop where
  bindings : ∀ name, name ∉ assigned → run.2.find? name = before.find? name
  present : run.2.isSome = before.isSome

theorem Keeps.here (assigned : List Bytes) (scope : Scope) (result : Except EvalError Value) :
    Keeps assigned scope (result, scope) := ⟨fun _ _ => rfl, rfl⟩

theorem Keeps.and_then {assigned : List Bytes} {before : Scope} {run : Outcome}
    {next : Value → Scope → Outcome} (keeps : Keeps assigned before run)
    (later : ∀ value after, Keeps assigned after (next value after)) :
    Keeps assigned before (run.andThen next) := by
  obtain ⟨result, after⟩ := run
  cases result with
  | error problem => exact keeps
  | ok value =>
      have rest := later value after
      refine ⟨?_, rest.present.trans keeps.present⟩
      intro name untouched
      exact (rest.bindings name untouched).trans (keeps.bindings name untouched)

end Outcome

namespace Expr

def targets : Expr → List Bytes
  | literal _ => []
  | reference _ => []
  | grouping inner => inner.targets
  | unary _ right => right.targets
  | binary left _ right => left.targets ++ right.targets
  | logical left _ right => left.targets ++ right.targets
  | assign name value => name.lexeme :: value.targets
  | absent => []

/-- The rest of a connective whose left side has a value. -/
def connect (op : Token) (right : Expr) (first : Value) (scope : Scope) : Outcome :=
  match first.asBool op, Connective.ofKind? op.kind with
  | .error problem, _ => (.error problem, scope)
  | .ok _, none => (.error (.located op .unsupportedLogical), scope)
  | .ok flag, some (connective, negated) =>
      match connective.settled? flag with
      | some result => (.ok (.bool (result != negated)), scope)
      | none =>
          Outcome.andThen (right.evaluate scope) fun second after =>
            ((second.asBool op).map fun other =>
              .bool (connective.combine flag other != negated), after)

def store (name : Token) (result : Value) : Scope → Outcome
  | some environment => (.ok result, some (environment.set name.lexeme result))
  | none => (.error (.located name .noEnvironment), none)

section Parts

variable (left right value : Expr) (op name : Token) (scope : Scope)

theorem evaluate_unary : (unary op right).evaluate scope =
    Outcome.andThen (right.evaluate scope) fun value after => (applyUnary op value, after) := rfl

theorem evaluate_binary : (binary left op right).evaluate scope =
    Outcome.andThen (left.evaluate scope) fun first between =>
      Outcome.andThen (right.evaluate between) fun second after =>
        (applyBinary op first second, after) := rfl

theorem evaluate_logical : (logical left op right).evaluate scope =
    Outcome.andThen (left.evaluate scope) (connect op right) := rfl

theorem evaluate_assign : (assign name value).evaluate scope =
    Outcome.andThen (value.evaluate scope) (store name) := by
  rw [evaluate]
  rcases value.evaluate scope with ⟨problem | result, after⟩
  · rfl
  · cases after <;> rfl

end Parts

theorem evaluate_alike (expr : Expr) {names : List Bytes}
    (inside : ∀ name ∈ expr.nameList, name ∈ names) {first second : Scope}
    (agree : Scope.Agree names first second) :
    Outcome.Alike names (expr.evaluate first) (expr.evaluate second) := by
  induction expr generalizing first second with
  | literal value => exact ⟨rfl, agree⟩
  | reference name =>
      have same := agree.bindings name.lexeme (inside name.lexeme List.mem_cons_self)
      rw [evaluate, evaluate, same]
      split <;> exact ⟨rfl, agree⟩
  | grouping inner alike => exact alike inside agree
  | unary op right alike =>
      rw [evaluate_unary, evaluate_unary]
      exact (alike inside agree).and_then fun value left right scopes => ⟨rfl, scopes⟩
  | binary left op right leftAlike rightAlike =>
      rw [nameList, List.forall_mem_append] at inside
      rw [evaluate_binary, evaluate_binary]
      refine (leftAlike inside.1 agree).and_then fun value between between' scopes => ?_
      exact (rightAlike inside.2 scopes).and_then fun other after after' scopes => ⟨rfl, scopes⟩
  | logical left op right leftAlike rightAlike =>
      rw [nameList, List.forall_mem_append] at inside
      rw [evaluate_logical, evaluate_logical]
      refine (leftAlike inside.1 agree).and_then fun value between between' scopes => ?_
      unfold connect
      split
      · exact ⟨rfl, scopes⟩
      · exact ⟨rfl, scopes⟩
      · split
        · exact ⟨rfl, scopes⟩
        · exact (rightAlike inside.2 scopes).and_then fun other after after' scopes => ⟨rfl, scopes⟩
  | assign name value alike =>
      rw [nameList, List.forall_mem_cons] at inside
      rw [evaluate_assign, evaluate_assign]
      refine (alike inside.2 agree).and_then fun result after after' scopes => ?_
      cases after with
      | none =>
          cases after' with
          | none => exact ⟨rfl, scopes⟩
          | some environment => cases scopes.present
      | some environment =>
          cases after' with
          | none => cases scopes.present
          | some environment' => exact ⟨rfl, scopes.set name.lexeme result⟩
  | absent => exact ⟨rfl, agree⟩

theorem evaluate_keeps (expr : Expr) {assigned : List Bytes}
    (inside : ∀ name ∈ expr.targets, name ∈ assigned) (scope : Scope) :
    Outcome.Keeps assigned scope (expr.evaluate scope) := by
  induction expr generalizing scope with
  | literal value => exact .here assigned scope _
  | reference name =>
      rw [evaluate]
      split <;> exact .here assigned scope _
  | grouping inner keeps => exact keeps inside scope
  | unary op right keeps =>
      rw [evaluate_unary]
      exact (keeps inside scope).and_then fun value after => .here assigned after _
  | binary left op right leftKeeps rightKeeps =>
      rw [targets, List.forall_mem_append] at inside
      rw [evaluate_binary]
      refine (leftKeeps inside.1 scope).and_then fun value between => ?_
      exact (rightKeeps inside.2 between).and_then fun other after => .here assigned after _
  | logical left op right leftKeeps rightKeeps =>
      rw [targets, List.forall_mem_append] at inside
      rw [evaluate_logical]
      refine (leftKeeps inside.1 scope).and_then fun value between => ?_
      unfold connect
      split
      · exact .here assigned between _
      · exact .here assigned between _
      · split
        · exact .here assigned between _
        · exact (rightKeeps inside.2 between).and_then fun other after => .here assigned after _
  | assign target value keeps =>
      rw [targets, List.forall_mem_cons] at inside
      rw [evaluate_assign]
      refine (keeps inside.2 scope).and_then fun result after => ?_
      cases after with
      | none => exact .here assigned none _
      | some environment =>
          refine ⟨?_, rfl⟩
          intro name untouched
          rw [store, Scope.find_set, if_neg]
          rintro rfl
          exact untouched inside.1
  | absent => exact .here assigned scope _

theorem evaluate_environment (expr : Expr) (environment : Environment) :
    ∃ result after, expr.evaluate (some environment) = (result, some after) ∧
      ∀ name, name ∉ expr.targets → after.find? name = environment.find? name := by
  have keeps := expr.evaluate_keeps (fun name member => member) (some environment)
  obtain ⟨result, after, run⟩ :
      ∃ result after, expr.evaluate (some environment) = (result, after) := ⟨_, _, rfl⟩
  rw [run] at keeps
  cases after with
  | none => cases keeps.present
  | some after => exact ⟨result, after, run, keeps.bindings⟩

/-- Evaluation depends on the names of a tree only, and changes only those that it assigns. -/
theorem evaluate_own_names (expr : Expr) :
    (∀ first second : Environment,
      (∀ name ∈ expr.names, first.find? name = second.find? name) →
      ∃ result firstAfter secondAfter,
        expr.evaluate (some first) = (result, some firstAfter) ∧
        expr.evaluate (some second) = (result, some secondAfter) ∧
        ∀ name ∈ expr.names, firstAfter.find? name = secondAfter.find? name) ∧
    ∀ environment : Environment, ∃ result after,
      expr.evaluate (some environment) = (result, some after) ∧
      ∀ name, name ∉ expr.targets → after.find? name = environment.find? name := by
  refine ⟨?_, expr.evaluate_environment⟩
  intro first second same
  have inside : ∀ name ∈ expr.nameList, name ∈ expr.names := by
    intro name member
    exact (Text.mem_sorted_set name expr.nameList).mpr member
  have agree : Scope.Agree expr.names (some first) (some second) := ⟨same, rfl⟩
  have alike := expr.evaluate_alike inside agree
  obtain ⟨result, firstAfter, firstRun, _⟩ := expr.evaluate_environment first
  obtain ⟨other, secondAfter, secondRun, _⟩ := expr.evaluate_environment second
  rw [firstRun, secondRun] at alike
  obtain ⟨rfl, scopes⟩ := alike
  exact ⟨result, firstAfter, secondAfter, firstRun, secondRun, scopes.bindings⟩

section FailedRemainder

def bareToken (kind : TokenKind) (lexeme : Bytes) : Token :=
  ⟨kind, lexeme, .absent, ⟨0, .empty⟩, .empty⟩

def assignedRemainder : Expr :=
  binary
    (grouping (assign (bareToken .identifier (utf8 "x"))
      (reference (bareToken .identifier (utf8 "a")))))
    (bareToken .percent (utf8 "%")) (reference (bareToken .identifier (utf8 "b")))

def zeroDivisor : Environment := [(utf8 "a", .int 7), (utf8 "b", .int 0)]

def zeroDivisorAndMore : Environment :=
  [(utf8 "b", .int 0), (utf8 "c", .bool true), (utf8 "a", .int 7)]

/-- The remainder fails after the assignment, and the failure does not undo it. -/
theorem assigned_remainder_own_names :
    (∀ name ∈ assignedRemainder.names, zeroDivisor.find? name = zeroDivisorAndMore.find? name) ∧
      (∃ result firstAfter secondAfter,
        assignedRemainder.evaluate (some zeroDivisor) = (result, some firstAfter) ∧
        assignedRemainder.evaluate (some zeroDivisorAndMore) = (result, some secondAfter) ∧
        ∀ name ∈ assignedRemainder.names, firstAfter.find? name = secondAfter.find? name) ∧
      (∃ result after, assignedRemainder.evaluate (some zeroDivisorAndMore) = (result, some after) ∧
        after.find? (utf8 "c") = some (.bool true)) ∧
      assignedRemainder.evaluate (some zeroDivisor) =
        (.error (.located (bareToken .percent (utf8 "%")) .divisionByZero),
          some (zeroDivisor ++ [(utf8 "x", .int 7)])) := by
  have same : ∀ name ∈ assignedRemainder.names,
      zeroDivisor.find? name = zeroDivisorAndMore.find? name := by
    decide
  obtain ⟨dependence, frame⟩ := evaluate_own_names assignedRemainder
  obtain ⟨result, after, run, kept⟩ := frame zeroDivisorAndMore
  exact ⟨same, dependence _ _ same, ⟨result, after, run, kept (utf8 "c") (by decide)⟩, rfl⟩

end FailedRemainder

end Expr
end ExprCompiler
