import ExprCompiler.Proofs.Codegen.UnsignedDividend
import ExprCompiler.Proofs.Codegen.RuntimeFaults
import ExprCompiler.Proofs.Expr.Frame
import ExprCompiler.Proofs.Machine.Block

/-!
The stack discipline of the code of trees. Put in any place of any program and entered with any
stack, the code of a tree pushes the value of the tree and leaves everything else alone that the
code around it works with, or it stops at the division that fails.
-/

namespace ExprCompiler

section Value

variable {names : List Bytes} {cells : Bytes → Word} {environment : Environment}

theorem quiet_of_divide {left right : Word} {result : Word × Word}
    (divided : DivisionMode.sign.divide left right = .ok result) :
    Word.divisionFaults left right = false := by
  unfold DivisionMode.divide at divided
  dsimp only at divided
  split at divided
  · cases divided
  · rename_i notZero
    split at divided
    · cases divided
    · rename_i inside
      rw [← Bool.not_eq_true, Core.division_faults_of_words]
      rintro (zero | outside)
      · exact notZero zero
      · exact inside ((outside_iff _).mpr outside)

theorem quiet_of_operate {op : Token} {left right word : Word}
    (operated : DivisionMode.sign.operate op.kind left right = .ok word) :
    ∀ pair ∈ divisionOf op (.int left) (.int right),
      Word.divisionFaults pair.1 pair.2 = false := by
  have quiet {part : Word × Word → Word}
      (divided : (DivisionMode.sign.divide left right).map part = .ok word) :
      Word.divisionFaults left right = false := by
    cases result : DivisionMode.sign.divide left right with
    | ok pair => exact quiet_of_divide result
    | error fault =>
        rw [result] at divided
        cases divided
  intro pair member
  rw [divisionOf] at member
  split at member
  · rename_i division
    rw [List.mem_singleton.mp member]
    simp only [Bool.or_eq_true, decide_eq_true_eq] at division
    rcases division with kind | kind
    · rw [kind] at operated
      exact quiet operated
    · rw [kind] at operated
      exact quiet operated
  · cases member

theorem evaluate_of_word {expr : Expr} (arithmetic : expr.Arithmetic names)
    (bound : ∀ name ∈ names, environment.find? name = some (.int (cells name))) {word : Word}
    (computed : expr.word .sign cells = .ok word)
    (quiet : ∀ pair ∈ expr.divisions (some environment),
      Word.divisionFaults pair.1 pair.2 = false) :
    expr.evaluate (some environment) = (.ok (.int word), some environment) := by
  obtain ⟨value, computed', evaluated⟩ := Expr.evaluate_arithmetic arithmetic bound quiet
  obtain rfl := Except.ok.inj (computed'.symm.trans computed)
  exact evaluated

theorem quiet_of_word {expr : Expr} (arithmetic : expr.Arithmetic names)
    (bound : ∀ name ∈ names, environment.find? name = some (.int (cells name))) {word : Word}
    (computed : expr.word .sign cells = .ok word) :
    ∀ pair ∈ expr.divisions (some environment), Word.divisionFaults pair.1 pair.2 = false := by
  induction arithmetic generalizing word with
  | literal value => exact fun _ member => nomatch member
  | reference name _ => exact fun _ member => nomatch member
  | grouping _ inner => exact inner computed
  | @negation op right _ part rightQuiet =>
      cases value : right.word .sign cells with
      | ok word => exact rightQuiet value
      | error fault =>
          rw [Expr.word, value] at computed
          cases computed
  | @binary left right op _ first second leftQuiet rightQuiet =>
      rw [Expr.word] at computed
      split at computed
      · cases computed
      · rename_i leftWord leftComputed
        split at computed
        · cases computed
        · rename_i rightWord rightComputed
          have inLeft := leftQuiet leftComputed
          have inRight := rightQuiet rightComputed
          simp only [Expr.divisions, evaluate_of_word first bound leftComputed inLeft,
            evaluate_of_word second bound rightComputed inRight, List.forall_mem_append]
          exact ⟨inLeft, inRight, quiet_of_operate computed⟩

/-- The value of a tree under the division of a mode, where no division that is met fails: with the
sign of dividends that of the evaluation, else that of the evaluation without signs. -/
def Expr.HasValue (expr : Expr) (mode : DivisionMode) (environment : Environment)
    (cells : Bytes → Word) (word : Word) : Prop :=
  match mode with
  | .sign => expr.evaluate (some environment) = (.ok (.int word), some environment) ∧
      ∀ pair ∈ expr.divisions (some environment), Word.divisionFaults pair.1 pair.2 = false
  | .zero => expr.unsignedValue? cells = some word

theorem has_value_iff {expr : Expr} (arithmetic : expr.Arithmetic names) (mode : DivisionMode)
    (bound : ∀ name ∈ names, environment.find? name = some (.int (cells name))) (word : Word) :
    expr.HasValue mode environment cells word ↔ expr.word mode cells = .ok word := by
  cases mode with
  | sign =>
      constructor
      · rintro ⟨evaluated, quiet⟩
        obtain ⟨value, computed, evaluated'⟩ := Expr.evaluate_arithmetic arithmetic bound quiet
        rw [evaluated] at evaluated'
        cases evaluated'
        exact computed
      · intro computed
        have quiet := quiet_of_word arithmetic bound computed
        exact ⟨evaluate_of_word arithmetic bound computed quiet, quiet⟩
  | zero =>
      have unsigned := @Expr.unsigned_word names cells expr arithmetic
      rw [Expr.HasValue]
      generalize expr.word .zero cells = result at unsigned ⊢
      generalize expr.unsignedValue? cells = value at unsigned ⊢
      cases unsigned with
      | valued value _ => rw [Option.some.injEq, Except.ok.injEq]
      | stopped _ _ => exact iff_of_false (fun same => nomatch same) (fun same => nomatch same)

end Value

section Faults

theorem divide_error_of_divide {mode : DivisionMode} {left right : Word} {fault : Fault}
    (failed : mode.divide left right = .error fault) : fault.kind = .divideError := by
  unfold DivisionMode.divide at failed
  dsimp only at failed
  split at failed
  · cases failed
    rfl
  · split at failed
    · cases failed
      rfl
    · cases failed

theorem divide_error_of_operate {mode : DivisionMode} {kind : TokenKind} {left right : Word}
    {fault : Fault} (failed : mode.operate kind left right = .error fault) :
    fault.kind = .divideError := by
  unfold DivisionMode.operate at failed
  split at failed
  case h_4 => exact divide_error_of_divide (error_of_map failed)
  case h_5 => exact divide_error_of_divide (error_of_map failed)
  all_goals cases failed

/-- The code of a tree has no word only because of a division. -/
theorem divide_error_of_word {mode : DivisionMode} {cells : Bytes → Word} {expr : Expr}
    {fault : Fault} (failed : expr.word mode cells = .error fault) :
    fault.kind = .divideError := by
  induction expr with
  | literal value => cases value <;> cases failed
  | grouping inner innerFails => exact innerFails failed
  | unary op right rightFails => exact rightFails (error_of_map failed)
  | binary left op right leftFails rightFails =>
      rw [Expr.word] at failed
      split at failed
      · rename_i problem stopped
        cases failed
        exact leftFails stopped
      · split at failed
        · rename_i problem stopped
          cases failed
          exact rightFails stopped
        · exact divide_error_of_operate failed
  | _ => cases failed

/-- The line that divides by the word in ebx. -/
def Line.division : Line := .op .idiv [.register .ebx]

variable {image : Image} {core : Core} {fault : Fault}

theorem push_fails {word : Word} (failed : (core.push word).fault = some fault) :
    fault.kind = .memory :=
  write_fails failed

theorem pop_fails {target : Register}
    (failed : (image.popInto core (.register target)).fault = some fault) :
    fault.kind = .memory := by
  unfold Image.popInto at failed
  dsimp only at failed
  split at failed
  · cases failed
  · rename_i unread
    cases failed
    exact read_fails unread

theorem push_operand_fails {operand : Operand}
    (located : ∀ label ∈ operand.symbol?, ∃ address, image.symbols.find? label = some address)
    (failed : (image.perform (Line.op .push [operand]) core).fault = some fault) :
    fault.kind = .memory := by
  have value : image.perform (Line.op .push [operand]) core =
      image.withWord core operand fun word => core.push word := rfl
  rw [value, Image.withWord] at failed
  split at failed
  · exact push_fails failed
  · rename_i unread
    cases failed
    exact load_fails located unread

def Line.onRegisters : List Line :=
  [.op .neg [.register .eax], .op .add [.register .eax, .register .ebx],
    .op .sub [.register .eax, .register .ebx], .op .imul [.register .eax, .register .ebx],
    .op .cdq [], .op .mov [.register .edx, .immediate 0],
    .op .mov [.register .eax, .register .edx]]

theorem quiet_on_registers (core : Core) :
    ∀ line ∈ Line.onRegisters, (image.perform line core).fault = none := by
  intro line member
  simp only [Line.onRegisters, List.mem_cons, List.not_mem_nil, or_false] at member
  rcases member with rfl | rfl | rfl | rfl | rfl | rfl | rfl <;> rfl

theorem division_of_fault {names : List Bytes} (mode : DivisionMode) {expr : Expr}
    (arithmetic : expr.Arithmetic names)
    (located : ∀ name ∈ names, ∃ address, image.symbols.find? (variableLabel name) = some address) :
    ∀ line ∈ expr.code mode, ∀ core fault, (image.perform line core).fault = some fault →
      fault.kind = .divideError → line = Line.division := by
  have apart {fault : Fault} {line : Line} (memory : fault.kind = .memory)
      (division : fault.kind = .divideError) : line = Line.division := by
    rw [memory] at division
    cases division
  apply Expr.forall_code mode (fun line => ∀ core fault,
    (image.perform line core).fault = some fault → fault.kind = .divideError →
      line = Line.division) arithmetic
  · intro word core fault failed
    refine apart (push_operand_fails ?_ failed)
    intro label named
    cases named
  · intro name declared core fault failed
    refine apart (push_operand_fails ?_ failed)
    intro label named
    cases named
    exact located name declared
  · intro line member core fault failed
    have table : ∀ line ∈ Expr.workLines mode, line ∈ Line.onRegisters ∨
        line ∈ [Line.pop .eax, Line.pop .ebx, Line.push .eax, Line.division] := by
      cases mode <;> decide
    rcases table line member with onRegisters | others
    · rw [quiet_on_registers core line onRegisters] at failed
      cases failed
    · simp only [List.mem_cons, List.not_mem_nil, or_false] at others
      rcases others with rfl | rfl | rfl | rfl
      · exact apart (pop_fails failed)
      · exact apart (pop_fails failed)
      · exact apart (push_fails failed)
      · exact fun _ => rfl

end Faults

/-- What the code of a tree gives to the code behind it: one word more on the stack, and all else
as it was that such code may use. -/
structure Pushes (floor : Nat) (before after : Core) (word : Word) : Prop
    extends Keeps floor before after where
  top : after.top + 4 = before.top
  value : after.memory.load after.registers.esp = word

theorem Leaves.pushes {floor : Nat} {core : Core} {effect : Effect} {word : Word}
    (leaves : Leaves floor core effect (.ok word)) (room : 4 ≤ core.top) :
    effect = ⟨effect.core, none⟩ ∧ Pushes floor core effect.core word := by
  have lower := top_left room (leaves.esp word rfl)
  exact ⟨congrArg (Effect.mk effect.core) leaves.fault,
    ⟨leaves.keeps, by omega, leaves.word word rfl⟩⟩

theorem enters_code {image : Image} {names : List Bytes} {expr : Expr} {mode : DivisionMode}
    {place : Nat} {machine : Machine} (arithmetic : expr.Arithmetic names)
    (holds : image.program.HoldsAt place (expr.code mode)) (running : machine.halted = false)
    (here : machine.ip = place)
    (enough : machine.steps + (expr.code mode).length ≤ image.stepLimit) :
    machine.Enters image place (expr.code mode) := by
  have plain : ∀ line ∈ expr.code mode, line.isStraight = true ∧ line.routine? = none := by
    intro line member
    have isPlain := code_plain mode arithmetic line member
    rwa [Line.isPlain, Bool.and_eq_true, Option.isNone_iff_eq_none] at isPlain
  refine ⟨holds, fun line member => (plain line member).1, ?_, running, here, enough⟩
  intro line member name named
  rw [(plain line member).2] at named
  cases named

/-- The code of a tree in any place of any program, on a machine in any state with room for the
depth of the tree between the stack pointer and `floor`, which is the end of the data or any other
address that the cells of the variables lie below. -/
theorem code_stack_discipline {program : Program} {options : MachineOptions} {loaded : Loaded}
    (load : program.load options = .ok loaded) {names : List Bytes} {expr : Expr}
    (supported : expr.unsupported names = []) {mode : DivisionMode} {place : Nat}
    (placed : program.HoldsAt place (expr.code mode)) {machine : Machine}
    (sized : machine.memory.size = loaded.machine.memory.size) (running : machine.halted = false)
    (here : machine.ip = place) (below : machine.top ≤ loaded.image.stackTop) {floor : Nat}
    {cells : Bytes → Word} {environment : Environment}
    (bound : ∀ name ∈ names, environment.find? name = some (.int (cells name)))
    (held : Cells loaded.image names cells floor machine.memory)
    (room : floor + 4 * expr.stackDepth ≤ machine.top)
    (enough : machine.steps + (expr.code mode).length ≤ loaded.image.stepLimit) :
    (∀ word, expr.HasValue mode environment cells word →
      ∃ core, machine.stepMany loaded.image (expr.code mode).length =
          (machine.movedBy (expr.code mode).length core, none) ∧
        machine.run loaded.image =
          (machine.movedBy (expr.code mode).length core).run loaded.image ∧
        Pushes floor machine.toCore core word) ∧
    ((∀ word, ¬expr.HasValue mode environment cells word) →
      ∃ count idiv core fault, (expr.code mode)[count]? = some Line.division ∧
        loaded.image.fetch? (place + count : Nat) = some idiv ∧ idiv.asLine = Line.division ∧
        machine.run loaded.image =
          (machine.movedBy (count + 1) core, some ⟨some idiv, fault⟩) ∧
        fault.kind = .divideError ∧ Keeps floor machine.toCore core) := by
  have arithmetic := Expr.arithmetic_of_supported supported
  have depth := Expr.stack_depth_pos arithmetic
  obtain ⟨same, _, _, _, inMemory, _⟩ := loaded_program load
  have enters := enters_code arithmetic (same ▸ placed) running here enough
  have leaves := leaves_code mode arithmetic held room (by omega)
  have isValue := has_value_iff arithmetic mode bound
  cases computed : expr.word mode cells with
  | ok value =>
      rw [computed] at leaves
      obtain ⟨quiet, pushes⟩ := leaves.pushes (by omega)
      have reached := enters.passes quiet
      refine ⟨?_, fun none => absurd ((isValue value).mpr computed) (none value)⟩
      intro word hasValue
      obtain rfl := Except.ok.inj (computed.symm.trans ((isValue word).mp hasValue))
      exact ⟨_, reached, Machine.run_behind reached, pushes⟩
  | error fault =>
      rw [computed] at leaves
      refine ⟨?_, fun _ => ?_⟩
      · intro word hasValue
        cases computed.symm.trans ((isValue word).mp hasValue)
      · obtain ⟨count, before, idiv, there, fetched, failed, reached, stops⟩ :=
          enters.fails (congrArg (Effect.mk _) leaves.fault)
        have located : ∀ name ∈ names,
            ∃ address, loaded.image.symbols.find? (variableLabel name) = some address := by
          intro name declared
          obtain ⟨address, found, _⟩ := held name declared
          exact ⟨address, found⟩
        -- The fault tells the line: no other line of the tree fails with a divide error.
        have divides := divide_error_of_word computed
        have isDivision := division_of_fault mode arithmetic located idiv.asLine
          (List.mem_of_getElem? there) before fault (congrArg Effect.fault failed) divides
        rw [isDivision] at there
        exact ⟨count, idiv, _, fault, there, fetched, isDivision,
          (Machine.run_behind reached).trans (Machine.run_of_failed_step running stops), divides,
          leaves.keeps⟩

section Quotient

def quotientTree : Expr :=
  .binary (.reference (Expr.bareToken .identifier (utf8 "x"))) (Expr.bareToken .slash (utf8 "/"))
    (.grouping (.binary (.reference (Expr.bareToken .identifier (utf8 "x")))
      (Expr.bareToken .minus (utf8 "-")) (.literal (.int 1))))

/-- A program that has the code of the tree between a word on the stack and its return. -/
def quotientProgram : Program where
  instructions := (instructionsFrom 1 ([Line.op .push [.immediate 7]] ++
    quotientTree.code .sign ++ [Line.pop .eax, Line.op .ret []])).toArray
  reservations := [⟨20, variableLabel (utf8 "x"), .zeros 4⟩]

def enteredQuotient (loaded : Loaded) (value : Word) : Machine where
  registers := { esp := 4112, ecx := 5 }
  memory := loaded.machine.memory.store 4096 value
  written := [utf8 "x = "]
  ip := 1
  steps := 40
  frames := some [30]

/-- With three for `x` the quotient lies on the stack; with one the division stops the run. -/
theorem quotient_pushed_or_stopped :
    ∃ loaded, quotientProgram.load { memorySize := 8224 } = .ok loaded ∧
      (∃ core, (enteredQuotient loaded 3).stepMany loaded.image 12 =
          ((enteredQuotient loaded 3).movedBy 12 core, none) ∧
        Pushes loaded.image.dataEnd (enteredQuotient loaded 3).toCore core 1) ∧
      ∃ count core error, (enteredQuotient loaded 1).run loaded.image =
          ((enteredQuotient loaded 1).movedBy count core, some error) ∧
        error.fault.kind = .divideError := by
  have checked : (quotientProgram.load { memorySize := 8224 }).toOption.any (fun loaded =>
      decide (loaded.image.symbols.find? (variableLabel (utf8 "x")) = some 4096 ∧
        loaded.image.dataEnd = 4100 ∧ loaded.image.stackTop = 8224 ∧
          60 ≤ loaded.image.stepLimit)) = true := by decide +kernel
  cases load : quotientProgram.load { memorySize := 8224 } with
  | error problem =>
      rw [load] at checked
      cases checked
  | ok loaded =>
      rw [load] at checked
      obtain ⟨placed, ends, top, limit⟩ := of_decide_eq_true checked
      obtain ⟨_, _, _, _, inMemory, _⟩ := loaded_program load
      have inside : loaded.machine.memory.holdsWord 4096 = true := by
        have place : (4096 : Word).toNat = 4096 := rfl
        rw [Memory.holdsWord, decide_eq_true_eq, place]
        omega
      have stored (value : Word) : (enteredQuotient loaded value).memory =
          loaded.machine.memory.store 4096 value := by rw [enteredQuotient]
      have size (value : Word) : (enteredQuotient loaded value).memory.size =
          loaded.machine.memory.size := by rw [stored, Memory.size_store]
      have held (value : Word) : Cells loaded.image [utf8 "x"] (fun _ => value)
          loaded.image.dataEnd (enteredQuotient loaded value).memory := by
        intro name member
        rw [List.mem_singleton.mp member, ends, stored]
        exact ⟨4096, placed, by decide, Memory.load_store value inside⟩
      have supported : quotientTree.unsupported [utf8 "x"] = [] := by decide +kernel
      have placedCode : quotientProgram.HoldsAt 1 (quotientTree.code .sign) :=
        ⟨[Line.op .push [.immediate 7]], [Line.pop .eax, Line.op .ret []], by decide +kernel, rfl⟩
      have count : (quotientTree.code .sign).length = 12 := by decide +kernel
      have esp (value : Word) : (enteredQuotient loaded value).top = 4112 := rfl
      have steps (value : Word) : (enteredQuotient loaded value).steps = 40 := rfl
      have bound (value : Word) : ∀ name ∈ [utf8 "x"],
          Table.find? name [(utf8 "x", Value.int value)] = some (.int value) := by
        intro name member
        rw [List.mem_singleton.mp member]
        rfl
      have discipline (value : Word) := @code_stack_discipline quotientProgram
        { memorySize := 8224 } loaded load [utf8 "x"] quotientTree supported .sign 1 placedCode
        (enteredQuotient loaded value) (size value) rfl rfl (by rw [esp, top]; decide)
        loaded.image.dataEnd (fun _ => value) [(utf8 "x", .int value)] (bound value) (held value)
        (by rw [esp, ends]; decide) (by rw [steps, count]; omega)
      have quiet (value : Word) :
          (∀ pair ∈ quotientTree.divisions (some [(utf8 "x", .int value)]),
            Word.divisionFaults pair.1 pair.2 = false) ↔
            Word.divisionFaults value (value - 1) = false := List.forall_mem_singleton
      obtain ⟨core, reached, _, pushes⟩ := (discipline 3).1 1 ⟨rfl, (quiet 3).mpr (by decide)⟩
      obtain ⟨_, _, stoppedCore, fault, _, _, _, stopped, divides, _⟩ :=
        (discipline 1).2 fun _ hasValue => absurd ((quiet 1).mp hasValue.2) (by decide)
      exact ⟨loaded, rfl, ⟨core, reached, pushes⟩, _, stoppedCore, _, stopped, divides⟩

end Quotient

end ExprCompiler
