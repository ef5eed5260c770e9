import ExprCompiler.Proofs.Codegen.Value
import ExprCompiler.Proofs.Machine.Division
import ExprCompiler.Proofs.Machine.Stack

/-!
The code of a tree on the machine. Given room for its depth between the data and the stack pointer,
it leaves one word more on the stack, the one the tree stands for, or stops with the fault of a
division.
-/

namespace ExprCompiler

/-- The cells of the variables lie below the data's end and hold the given words. -/
def Cells (image : Image) (names : List Bytes) (cells : Bytes → Word) (floor : Nat)
    (memory : Memory) : Prop :=
  ∀ name ∈ names, ∃ address, image.symbols.find? (variableLabel name) = some address ∧
    address.toNat + 4 ≤ floor ∧ memory.load address = cells name

theorem Cells.congr {image : Image} {names : List Bytes} {cells : Bytes → Word} {floor : Nat}
    {memory other : Memory} (held : Cells image names cells floor memory)
    (same : ∀ index < floor, other.byte index = memory.byte index) :
    Cells image names cells floor other := by
  intro name declared
  obtain ⟨address, placed, below, loaded⟩ := held name declared
  refine ⟨address, placed, below, ?_⟩
  rw [← loaded]
  exact Memory.load_congr fun index _ inside => same index (by omega)

variable {image : Image} {core : Core}

theorem perform_push {source : Operand} {word : Word} (loaded : image.load core source = .ok word)
    (room : 4 ≤ core.top) (inside : core.top ≤ core.memory.size) :
    image.perform (Line.op .push [source]) core = ⟨core.pushed word, none⟩ := by
  have value : image.perform (Line.op .push [source]) core =
      image.withWord core source fun value => core.push value := rfl
  rw [value, Image.withWord, loaded]
  exact Core.push_effect room inside word

theorem perform_pop (target : Register) (inside : core.top + 4 ≤ core.memory.size) :
    image.perform (Line.pop target) core = ⟨core.popped target, none⟩ :=
  Core.pop_effect image target inside

theorem perform_pop_then (target : Register) (rest : List Line)
    (inside : core.top + 4 ≤ core.memory.size) :
    image.performAll (Line.pop target :: rest) core =
      image.performAll rest (core.popped target) :=
  Image.perform_all_cons (perform_pop target inside) rest

theorem load_cell {name : Bytes} {address : Word}
    (placed : image.symbols.find? (variableLabel name) = some address)
    (inside : address.toNat + 4 ≤ core.memory.size) :
    image.load core (.memory (some .dword) (.label (variableLabel name)) 0) =
      .ok (core.memory.load address) := by
  have here : image.address core (.label (variableLabel name)) 0 = .ok address := by
    have same : address + BitVec.ofInt 32 0 = address := BitVec.add_zero address
    simp only [Image.address, Image.resolve, placed, Except.map, same]
  have holds : core.memory.holdsWord address = true := by
    simp only [Memory.holdsWord, decide_eq_true_eq]
    exact inside
  simp only [Image.load, here, Core.read, holds, if_true]

def faultOf : Except Fault Word → Option Fault
  | .ok _ => none
  | .error fault => some fault

section Operators

/-- Work on the registers that generated code computes with. -/
structure Computes (before after : Core) : Prop where
  memory : after.memory = before.memory
  unread : after.unread = before.unread
  written : after.written = before.written
  esp : after.registers.esp = before.registers.esp
  ecx : after.registers.ecx = before.registers.ecx
  ebp : after.registers.ebp = before.registers.ebp
  esi : after.registers.esi = before.registers.esi
  edi : after.registers.edi = before.registers.edi

theorem Computes.keeps {before after : Core} (work : Computes before after) (floor : Nat) :
    Keeps floor before after where
  size := by rw [work.memory]
  unread := work.unread
  written := work.written
  ecx := work.ecx
  ebp := work.ebp
  esi := work.esi
  edi := work.edi
  data := fun _ _ => by rw [work.memory]
  stack := fun _ _ => by rw [work.memory]

def DivisionMode.high : DivisionMode → Word → Word
  | .sign, word => if word.slt 0 then BitVec.allOnes 32 else 0
  | .zero, _ => 0

theorem DivisionMode.dividend_eq (mode : DivisionMode) (word : Word) :
    (mode.high word ++ word : BitVec 64).toInt = mode.dividend word := by
  cases mode with
  | sign => exact dividend_sign word
  | zero => exact dividend_zero word

theorem perform_division_lines (mode : DivisionMode) :
    image.performAll (divisionLines mode) core =
      (core.set .edx (mode.high core.registers.eax)).divide core.registers.ebx := by
  cases mode with
  | sign => exact Effect.and_then_done _
  | zero => exact Effect.and_then_done _

theorem perform_division (mode : DivisionMode) :
    image.performAll (divisionLines mode) core =
      let prepared := core.set .edx (mode.high core.registers.eax)
      match mode.divide core.registers.eax core.registers.ebx with
      | .ok (quotient, remainder) =>
          ⟨(prepared.set .eax quotient).set .edx remainder, none⟩
      | .error fault => ⟨prepared, some fault⟩ := by
  have dividend : ((core.set .edx (mode.high core.registers.eax)).get .edx ++
      (core.set .edx (mode.high core.registers.eax)).get .eax : BitVec 64).toInt =
        mode.dividend core.registers.eax := mode.dividend_eq core.registers.eax
  rw [perform_division_lines, Core.divide, dividend]
  simp only [DivisionMode.divide]
  by_cases zero : core.registers.ebx = 0
  · rw [if_pos zero, if_pos zero]
  · rw [if_neg zero, if_neg zero]
    split
    · rfl
    · rfl

structure Operates (core : Core) (effect : Effect) (result : Except Fault Word) : Prop where
  fault : effect.fault = faultOf result
  computes : Computes core effect.core
  word : ∀ word, result = .ok word → effect.core.registers.eax = word

theorem perform_operator (mode : DivisionMode) {kind : TokenKind}
    (hasCode : isArithmetic kind = true) :
    Operates core (image.performAll (operatorLines mode kind) core)
      (mode.operate kind core.registers.eax core.registers.ebx) := by
  have computes (eax edx : Word) :
      Computes core { core with registers := { core.registers with eax := eax, edx := edx } } :=
    ⟨rfl, rfl, rfl, rfl, rfl, rfl, rfl, rfl⟩
  rcases arithmetic_kinds hasCode with rfl | rfl | rfl | rfl | rfl
  · exact ⟨rfl, computes _ core.registers.edx, fun word same => by cases same; rfl⟩
  · exact ⟨rfl, computes _ core.registers.edx, fun word same => by cases same; rfl⟩
  · exact ⟨rfl, computes _ core.registers.edx, fun word same => by cases same; rfl⟩
  · rw [operatorLines, perform_division, DivisionMode.operate]
    cases mode.divide core.registers.eax core.registers.ebx with
    | ok pair => exact ⟨rfl, computes _ _, fun word same => by cases same; rfl⟩
    | error fault => exact ⟨rfl, computes core.registers.eax _, fun word same => by cases same⟩
  · rw [operatorLines, Image.perform_all_append, perform_division, DivisionMode.operate]
    cases mode.divide core.registers.eax core.registers.ebx with
    | ok pair => exact ⟨rfl, computes _ _, fun word same => by cases same; rfl⟩
    | error fault => exact ⟨rfl, computes core.registers.eax _, fun word same => by cases same⟩

end Operators

/-- What the code of a tree leaves behind: its word, one more on the stack, or its fault. -/
structure Leaves (floor : Nat) (core : Core) (effect : Effect) (result : Except Fault Word) :
    Prop where
  fault : effect.fault = faultOf result
  keeps : Keeps floor core effect.core
  esp : ∀ word, result = .ok word → effect.core.registers.esp = core.registers.esp - 4
  word : ∀ word, result = .ok word → effect.core.memory.load effect.core.registers.esp = word

theorem Keeps.popped (floor : Nat) (core : Core) {target : Register}
    (work : target = .eax ∨ target = .ebx) : Keeps floor core (core.popped target) := by
  rcases work with rfl | rfl
  · exact ⟨rfl, rfl, rfl, rfl, rfl, rfl, rfl, fun _ _ => rfl, fun _ _ => rfl⟩
  · exact ⟨rfl, rfl, rfl, rfl, rfl, rfl, rfl, fun _ _ => rfl, fun _ _ => rfl⟩

theorem leaves_push {floor : Nat} {source : Operand} {word : Word}
    (loaded : image.load core source = .ok word) (room : floor + 4 ≤ core.top)
    (inside : core.top ≤ core.memory.size) :
    Leaves floor core (image.performAll [Line.op .push [source]] core) (.ok word) := by
  have pushed : image.performAll [Line.op .push [source]] core = ⟨core.pushed word, none⟩ :=
    Image.perform_all_cons (perform_push loaded (by omega) inside) []
  rw [pushed]
  refine ⟨rfl, Keeps.pushed room inside word, fun _ _ => rfl, ?_⟩
  intro other same
  cases same
  exact Core.load_pushed (by omega) inside word

section Sequences

variable {floor : Nat} {base : Core}

theorem leaves_fault {after : Core} (kept : Keeps floor core after) (fault : Fault) :
    Leaves floor core ⟨after, some fault⟩ (.error fault) where
  fault := rfl
  keeps := kept
  esp := fun _ same => nomatch same
  word := fun _ same => nomatch same

theorem Leaves.follow {before after : List Line} {result : Except Fault Word}
    {next : Word → Except Fault Word} (kept : Keeps floor base core) (lower : core.top ≤ base.top)
    (first : Leaves floor core (image.performAll before core) result)
    (later : ∀ word, result = .ok word →
      Leaves floor base (image.performAll after (image.performAll before core).core) (next word)) :
    Leaves floor base (image.performAll (before ++ after) core) (result.bind next) := by
  rw [Image.perform_all_append]
  have ending := first.fault
  have keeps := kept.trans first.keeps lower
  cases effect : image.performAll before core with
  | mk middle fault =>
      rw [effect] at ending keeps later
      cases result with
      | error problem =>
          cases ending
          exact leaves_fault keeps problem
      | ok word =>
          cases ending
          exact later word rfl

theorem leaves_work {ready : Core} {work : List Line} {result : Except Fault Word}
    (kept : Keeps floor core ready) (balanced : ready.registers.esp = core.registers.esp)
    (room : floor + 4 ≤ core.top) (inside : core.top ≤ core.memory.size)
    (operates : Operates ready (image.performAll work ready) result) :
    Leaves floor core (image.performAll (work ++ [Line.push .eax]) ready) result := by
  have readyTop : ready.top = core.top := congrArg BitVec.toNat balanced
  have keeps := kept.trans (operates.computes.keeps floor) (Nat.le_of_eq readyTop)
  have ending := operates.fault
  have back := operates.computes.esp.trans balanced
  have word := operates.word
  rw [Image.perform_all_append]
  cases effect : image.performAll work ready with
  | mk worked fault =>
      rw [effect] at keeps ending back word
      cases result with
      | error problem =>
          cases ending
          exact leaves_fault keeps problem
      | ok value =>
          cases ending
          have workedTop : worked.top = core.top := congrArg BitVec.toNat back
          have loaded : image.load worked (.register .eax) = .ok value :=
            congrArg Except.ok (word value rfl)
          have pushed := @leaves_push image worked floor _ _ loaded (by omega)
            (by rw [keeps.size]; omega)
          have lower : worked.top ≤ core.top := Nat.le_of_eq workedTop
          refine ⟨pushed.fault, keeps.trans pushed.keeps lower, ?_, pushed.word⟩
          intro other same
          rw [← back]
          exact pushed.esp other same

end Sequences

theorem load_top {floor : Nat} {before after : Core} (kept : Keeps floor before after) :
    after.memory.load before.registers.esp = before.memory.load before.registers.esp :=
  Memory.load_congr fun index above _ => kept.stack index above

/-- Two words are taken off the stack and what the operator makes of them is pushed. -/
theorem leaves_operator {floor : Nat} {middle : Core} {left right : Word} {kind : TokenKind}
    (hasCode : isArithmetic kind = true) (mode : DivisionMode) (kept : Keeps floor core middle)
    (top : middle.top + 8 = core.top) (room : floor + 4 ≤ core.top)
    (inside : core.top ≤ core.memory.size)
    (first : middle.memory.load (middle.registers.esp + 4) = left)
    (second : middle.memory.load middle.registers.esp = right) :
    Leaves floor core (image.performAll (Line.pop .ebx :: Line.pop .eax ::
      (operatorLines mode kind ++ [Line.push .eax])) middle) (mode.operate kind left right) := by
  have size := kept.size
  have nextEsp : (middle.popped .ebx).registers.esp = middle.registers.esp + 4 := rfl
  have nextTop : (middle.popped .ebx).top = middle.top + 4 := by
    unfold Core.top at top ⊢
    rw [nextEsp]
    bv_omega
  have balanced : ((middle.popped .ebx).popped .eax).registers.esp = core.registers.esp := by
    have esp : ((middle.popped .ebx).popped .eax).registers.esp = middle.registers.esp + 4 + 4 := rfl
    unfold Core.top at top
    rw [esp]
    bv_omega
  have afterFirst := kept.trans (Keeps.popped floor middle (.inr rfl)) (by omega)
  have ready := afterFirst.trans (Keeps.popped floor _ (.inl rfl)) (by omega)
  have operates := @perform_operator image ((middle.popped .ebx).popped .eax) mode kind hasCode
  have eax : ((middle.popped .ebx).popped .eax).registers.eax = left := first
  have ebx : ((middle.popped .ebx).popped .eax).registers.ebx = right := second
  rw [eax, ebx] at operates
  rw [perform_pop_then .ebx _ (by omega), perform_pop_then .eax _ (by rw [afterFirst.size]; omega)]
  exact leaves_work ready balanced room inside operates

theorem top_left {after : Core} (room : 4 ≤ core.top)
    (esp : after.registers.esp = core.registers.esp - 4) : after.top = core.top - 4 :=
  (congrArg BitVec.toNat esp).trans (Core.top_below room)

/-- The code of an arithmetic tree leaves the word of the tree. -/
theorem leaves_code {names : List Bytes} {cells : Bytes → Word} {floor : Nat}
    (mode : DivisionMode) {expr : Expr} (arithmetic : expr.Arithmetic names)
    (held : Cells image names cells floor core.memory)
    (room : floor + 4 * expr.stackDepth ≤ core.top) (inside : core.top ≤ core.memory.size) :
    Leaves floor core (image.performAll (expr.code mode) core) (expr.word mode cells) := by
  -- The core is general: the right part of an operator runs on the core that the left one leaves.
  induction arithmetic generalizing core with
  | literal word =>
      have loaded : image.load core (.immediate word.toInt) = .ok word :=
        congrArg Except.ok (BitVec.ofInt_toInt)
      exact leaves_push loaded room inside
  | reference name known =>
      obtain ⟨address, placed, below, cell⟩ := held name.lexeme known
      have loaded := @load_cell image core _ _ placed (by omega)
      rw [cell] at loaded
      exact leaves_push loaded room inside
  | grouping _ inner => exact inner held room inside
  | @negation op right isMinus part rightLeaves =>
      have positive := Expr.stack_depth_pos part
      simp only [Expr.stackDepth] at room
      have first := rightLeaves held room inside
      have value : (Expr.unary op right).word mode cells =
          (right.word mode cells).bind fun word => .ok (-word) := by
        rw [Expr.word]
        cases right.word mode cells with
        | error fault => rfl
        | ok word => simp [Except.map, Except.bind, isMinus]
      rw [Expr.code_negation mode right isMinus, value]
      apply first.follow (Keeps.refl core) (Nat.le_refl _)
      intro word computed
      have middleEsp := first.esp word computed
      have middleTop := top_left (by omega) middleEsp
      have popped := @perform_pop_then image (image.performAll (right.code mode) core).core .eax
        ([Line.op .neg [.register .eax]] ++ [Line.push .eax]) (by rw [first.keeps.size]; omega)
      rw [popped]
      refine leaves_work (first.keeps.trans (Keeps.popped floor _ (.inl rfl)) (by omega)) ?_
        (by omega) inside ?_
      · exact (congrArg (· + 4) middleEsp).trans (BitVec.sub_add_cancel _ _)
      · refine ⟨rfl, ⟨rfl, rfl, rfl, rfl, rfl, rfl, rfl, rfl⟩, ?_⟩
        intro other same
        cases same
        exact congrArg (- ·) (first.word word computed)
  | @binary left right op hasCode leftPart rightPart leftLeaves rightLeaves =>
      have positive := Expr.stack_depth_pos rightPart
      simp only [Expr.stackDepth] at room
      have first := leftLeaves held (by omega) inside
      have value : (Expr.binary left op right).word mode cells =
          (left.word mode cells).bind fun first =>
            (right.word mode cells).bind fun second => mode.operate op.kind first second := by
        rw [Expr.word]
        cases left.word mode cells <;> cases right.word mode cells <;> rfl
      rw [Expr.code_binary, value]
      apply first.follow (Keeps.refl core) (Nat.le_refl _)
      intro leftWord leftComputed
      -- The left word stays on the stack while the right part runs one word deeper.
      have leftEsp := first.esp leftWord leftComputed
      have leftTop := top_left (by omega) leftEsp
      have second := rightLeaves (held.congr first.keeps.data) (by omega)
        (by rw [first.keeps.size]; omega)
      apply second.follow first.keeps (by omega)
      intro rightWord rightComputed
      have rightEsp := second.esp rightWord rightComputed
      have rightTop := top_left (by omega) rightEsp
      have leftLoaded := (load_top second.keeps).trans (first.word leftWord leftComputed)
      have rightLoaded := second.word rightWord rightComputed
      have keeps := first.keeps.trans second.keeps (by omega)
      refine leaves_operator hasCode mode keeps (by omega) (by omega) inside ?_ rightLoaded
      rw [rightEsp, BitVec.sub_add_cancel]
      exact leftLoaded

end ExprCompiler
