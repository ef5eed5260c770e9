import ExprCompiler.Expr.Parse

/-!
Reading through an index. The same grammar is read here by a cursor that moves over a list of
tokens: it looks at the token under it and at the one before it, and nowhere else. A look outside
the list is a fault, and so is a call or a round of a loop below the depth that is given; a reader
that goes on for ever runs into it at every depth.
-/

namespace ExprCompiler

structure PlacedError where
  place : Nat
  error : ParseError
  deriving DecidableEq, Repr

structure PlacedParsed where
  statements : List Expr
  errors : List PlacedError
  deriving DecidableEq, Repr

def PlacedParsed.parsed (found : PlacedParsed) : Parsed :=
  ⟨found.statements, found.errors.map PlacedError.error⟩

namespace Indexed

inductive Fault where
  | outside
  | tooDeep
  deriving DecidableEq, Repr

abbrev Access := StateT Nat (Except Fault)

/-- What moves a cursor and can fail at a token; the cursor stays where it failed. -/
abbrev Attempt := ExceptT PlacedError Access

variable (input : List Token)

def here : Access Nat := get

def peek : Access Token := do
  match input[← here]? with
  | some token => return token
  | none => throw .outside

def previous : Access Token := do
  match ← here with
  | 0 => throw .outside
  | index + 1 =>
      match input[index]? with
      | some token => return token
      | none => throw .outside

def atEnd : Access Bool := do return (← peek input).kind = .eof

/-- Passes a token. The mark for the end is never passed. -/
def advance : Access Unit := do
  if !(← atEnd input) then modify (· + 1)

def accept (kinds : List TokenKind) : Access Bool := do
  if ← atEnd input then return false
  if kinds.contains (← peek input).kind then
    advance input
    return true
  return false

def fail {Value : Type} (place : Nat) (token : Token) (cause : ParseCause) : Attempt Value :=
  throw ⟨place, token, cause⟩

def expect (kind : TokenKind) (cause : ParseCause) : Attempt Unit := do
  let token ← peek input
  if token.kind = kind && !(← atEnd input) then advance input
  else fail (← here) token cause

mutual

def readTiers (depth : Nat) (tiers : List Tier) : Attempt Expr :=
  match depth, tiers with
  | 0, _ => ExceptT.lift (throw .tooDeep)
  | depth + 1, [] => readOperand depth
  | depth + 1, tier :: tighter => do
      let left ← readTiers depth tighter
      readOperators depth tier tighter left

def readOperators (depth : Nat) (tier : Tier) (tighter : List Tier) (left : Expr) :
    Attempt Expr :=
  match depth with
  | 0 => ExceptT.lift (throw .tooDeep)
  | depth + 1 => do
      if ← accept input tier.operators then
        let op ← previous input
        if !tier.takesLeft left then fail ((← here) - 1) op .invalidAssignmentTarget
        else if tier.groupsRight then
          let right ← readTiers depth (tier :: tighter)
          return tier.node left op right
        else
          let right ← readTiers depth tighter
          readOperators depth tier tighter (tier.node left op right)
      else return left

def readOperand (depth : Nat) : Attempt Expr :=
  match depth with
  | 0 => ExceptT.lift (throw .tooDeep)
  | depth + 1 => do
      if ← accept input [.not, .minus] then
        let op ← previous input
        let right ← readOperand depth
        return .unary op right
      else
        let token ← peek input
        match token.kind with
        | .trueWord =>
            advance input
            return .literal (.bool true)
        | .falseWord =>
            advance input
            return .literal (.bool false)
        | .number | .string =>
            advance input
            return .literal token.literal
        | .identifier =>
            advance input
            return .reference token
        | .leftParen =>
            advance input
            let inner ← readTiers depth Tier.all
            expect input .rightParen .closingParenExpected
            return .grouping inner
        | _ => fail (← here) token .unexpectedExpression

end

def readStatement (depth : Nat) : Attempt Expr := do
  let expr ← readTiers input depth Tier.all
  if ← atEnd input then return expr
  expect input .semicolon .semicolonExpected
  return expr

def skip (depth : Nat) : Access Unit :=
  match depth with
  | 0 => throw .tooDeep
  | depth + 1 => do
      if ← atEnd input then return
      if (← previous input).kind = .semicolon then return
      if startsStatement (← peek input).kind then return
      advance input
      skip depth

/-- Whether a statement that failed did so at its first token or behind anything but a semicolon. -/
def isAmid (start : Nat) : Access Bool := do
  if (← here) = start then return true
  return (← previous input).kind ≠ .semicolon

/-- Passes at least one token behind a failure amid a statement, and then all up to the next one. -/
def recover (depth start : Nat) : Access Unit := do
  if ← isAmid input start then
    advance input
    skip input depth

def readStatements (depth : Nat) : Access PlacedParsed :=
  match depth with
  | 0 => throw .tooDeep
  | depth + 1 => do
      if ← atEnd input then return ⟨[], []⟩
      let start ← here
      match ← (readStatement input depth).run with
      | .ok expr =>
          let later ← readStatements depth
          return ⟨expr :: later.statements, later.errors⟩
      | .error error =>
          recover input depth start
          let later ← readStatements depth
          return ⟨later.statements, error :: later.errors⟩

/-- The action comes to a value and leaves the cursor there. -/
def Reaches {Value : Type} (action : Access Value) (index : Nat) (value : Value) (next : Nat) :
    Prop :=
  action index = .ok (value, next)

section Reaches

variable {Value Other : Type} {index between next : Nat} {value : Value} {other : Other}

theorem Reaches.pure (value : Value) (index : Nat) :
    Reaches (Pure.pure value) index value index := rfl

theorem reaches_here : Reaches here index index index := rfl

theorem Reaches.bind {action : Access Value} {later : Value → Access Other}
    (first : Reaches action index value between)
    (second : Reaches (later value) between other next) :
    Reaches (action >>= later) index other next := by
  change Except.bind (action index) _ = _
  rw [first]
  exact second

theorem Reaches.attempt {action : Attempt Value} {later : Value → Attempt Other}
    {result : Except PlacedError Other} (first : Reaches action.run index (.ok value) between)
    (second : Reaches (later value).run between result next) :
    Reaches (action >>= later).run index result next :=
  Reaches.bind first second

theorem Reaches.failed {action : Attempt Value} {later : Value → Attempt Other}
    {error : PlacedError} (first : Reaches action.run index (.error error) next) :
    Reaches (action >>= later).run index (.error error) next :=
  Reaches.bind first rfl

theorem Reaches.lift {action : Access Value} (reaches : Reaches action index value next) :
    Reaches (liftM action : Attempt Value).run index (.ok value) next := by
  change Except.bind (action index) _ = _
  rw [reaches]
  rfl

theorem Reaches.first {action : Access Value} {later : Value → Attempt Other}
    {result : Except PlacedError Other} (first : Reaches action index value between)
    (second : Reaches (later value).run between result next) :
    Reaches (liftM action >>= later).run index result next :=
  first.lift.attempt second

end Reaches

theorem reaches_previous {input : List Token} {token : Token} {index : Nat}
    (passed : input[index]? = some token) :
    Reaches (previous input) (index + 1) token (index + 1) := by
  rw [previous]
  apply reaches_here.bind
  dsimp only
  rw [passed]
  exact .pure _ _

/-- The cursor stands in front of some words and the mark `finish` behind them, at `stop`. -/
structure Stands (input : List Token) (finish : Token) (stop : Nat) (rest : List Token)
    (index : Nat) : Prop where
  ahead : rest ++ [finish] <+: input.drop index
  stop : index + rest.length = stop
  words : ∀ token ∈ rest, token.kind ≠ .eof
  isEnd : finish.kind = .eof

namespace Stands

variable {input rest : List Token} {finish token : Token} {stop index : Nat}

theorem ahead_at (stands : Stands input finish stop rest index) {offset : Nat}
    (within : offset ≤ rest.length) : input[index + offset]? = (rest ++ [finish])[offset]? := by
  obtain ⟨others, split⟩ := stands.ahead
  rw [← List.getElem?_drop, ← split, List.getElem?_append_left]
  rw [List.length_append, List.length_singleton]
  omega

theorem under (stands : Stands input finish stop rest index) :
    input[index]? = some (rest.headD finish) := by
  have found := stands.ahead_at (Nat.zero_le _)
  rw [Nat.add_zero] at found
  cases rest <;> exact found

theorem behind (stands : Stands input finish stop (token :: rest) index) :
    Stands input finish stop rest (index + 1) where
  ahead := by
    obtain ⟨others, split⟩ := stands.ahead
    refine ⟨others, ?_⟩
    rw [← List.tail_drop, ← split]
    rfl
  stop := by
    rw [← stands.stop, List.length_cons]
    omega
  words := fun other member => stands.words other (List.mem_cons_of_mem token member)
  isEnd := stands.isEnd

theorem first_word (stands : Stands input finish stop (token :: rest) index) :
    token.kind ≠ .eof := stands.words token (by simp)

theorem reaches_peek (stands : Stands input finish stop rest index) :
    Reaches (peek input) index (rest.headD finish) index := by
  rw [peek]
  apply reaches_here.bind
  rw [stands.under]
  exact .pure _ _

theorem reaches_at_end (stands : Stands input finish stop rest index) :
    Reaches (atEnd input) index rest.isEmpty index := by
  rw [atEnd]
  apply stands.reaches_peek.bind
  cases rest with
  | nil =>
      rw [List.headD_nil, stands.isEnd]
      exact .pure _ _
  | cons token rest =>
      rw [List.headD_cons, decide_eq_false stands.first_word]
      exact .pure _ _

theorem reaches_stay (stands : Stands input finish stop [] index) :
    Reaches (advance input) index () index := by
  rw [advance]
  exact stands.reaches_at_end.bind (.pure _ _)

theorem reaches_advance (stands : Stands input finish stop (token :: rest) index) :
    Reaches (advance input) index () (index + 1) := by
  rw [advance]
  exact stands.reaches_at_end.bind rfl

theorem reaches_accept {kinds : List TokenKind}
    (stands : Stands input finish stop (token :: rest) index) (isOne : token.kind ∈ kinds) :
    Reaches (accept input kinds) index true (index + 1) := by
  rw [accept]
  apply stands.reaches_at_end.bind
  apply stands.reaches_peek.bind
  rw [List.headD_cons, if_pos (by simpa using isOne)]
  exact stands.reaches_advance.bind (.pure _ _)

theorem reaches_accept_none {kinds : List TokenKind}
    (stands : Stands input finish stop rest index)
    (others : ∀ token ∈ rest.head?, token.kind ∉ kinds) :
    Reaches (accept input kinds) index false index := by
  rw [accept]
  apply stands.reaches_at_end.bind
  cases rest with
  | nil => exact .pure _ _
  | cons token rest =>
      apply stands.reaches_peek.bind
      rw [List.headD_cons, if_neg (by simpa using others token rfl)]
      exact .pure _ _

theorem reaches_expect {kind : TokenKind} {cause : ParseCause}
    (stands : Stands input finish stop (token :: rest) index) (isOne : token.kind = kind) :
    Reaches (expect input kind cause).run index (.ok ()) (index + 1) := by
  rw [expect]
  apply stands.reaches_peek.first
  apply stands.reaches_at_end.first
  rw [if_pos (by simpa using isOne)]
  exact stands.reaches_advance.lift

theorem reaches_expect_none {kind : TokenKind} {cause : ParseCause}
    (stands : Stands input finish stop rest index)
    (others : ∀ token ∈ rest.head?, token.kind ≠ kind) :
    Reaches (expect input kind cause).run index (.error ⟨index, rest.headD finish, cause⟩)
      index := by
  rw [expect]
  apply stands.reaches_peek.first
  apply stands.reaches_at_end.first
  rw [if_neg]
  · rfl
  · cases rest with
    | nil => simp
    | cons token rest => simpa using others token rfl

end Stands

end Indexed

end ExprCompiler
