import ExprCompiler.Proofs.Assembly.Peephole
import ExprCompiler.Proofs.Codegen.Execute

/-!
The peephole pass on the machine. Code with and without merged pairs runs in step on two machines
that agree on everything but the bytes between the data and the stack pointer: a push with a pop
behind it leaves only those bytes different from the move that replaces it.
-/

namespace ExprCompiler

/-- Two cores that differ at most in the free part of memory, between the data and the stack. -/
structure Agrees (floor : Nat) (plain merged : Core) : Prop where
  registers : merged.registers = plain.registers
  unread : merged.unread = plain.unread
  written : merged.written = plain.written
  size : merged.memory.size = plain.memory.size
  bytes : ∀ index, index < floor ∨ plain.top ≤ index →
    merged.memory.byte index = plain.memory.byte index

theorem Agrees.refl (floor : Nat) (core : Core) : Agrees floor core core :=
  ⟨rfl, rfl, rfl, rfl, fun _ _ => rfl⟩

theorem Agrees.top {floor : Nat} {plain merged : Core} (agrees : Agrees floor plain merged) :
    merged.top = plain.top :=
  congrArg (fun registers : Registers => registers.esp.toNat) agrees.registers

structure Stands (floor base height : Nat) (plain merged : Core) : Prop where
  agrees : Agrees floor plain merged
  top : plain.top + 4 * height = base
  inside : base ≤ plain.memory.size

/-- Effects with the same fault on cores that agree; without a fault the stack has some height. -/
structure InStep (floor base height : Nat) (plain merged : Effect) : Prop where
  fault : merged.fault = plain.fault
  agrees : Agrees floor plain.core merged.core
  stands : plain.fault = none → Stands floor base height plain.core merged.core

theorem Stands.in_step {floor base height : Nat} {plain merged : Core}
    (stands : Stands floor base height plain merged) :
    InStep floor base height ⟨plain, none⟩ ⟨merged, none⟩ :=
  ⟨rfl, stands.agrees, fun _ => stands⟩

theorem InStep.and_then {floor base height last : Nat} {plain merged : Effect}
    {next after : Core → Effect} (inStep : InStep floor base height plain merged)
    (later : plain.fault = none → Stands floor base height plain.core merged.core →
      InStep floor base last (next plain.core) (after merged.core)) :
    InStep floor base last (plain.andThen next) (merged.andThen after) := by
  obtain ⟨plainCore, plainFault⟩ := plain
  obtain ⟨mergedCore, mergedFault⟩ := merged
  cases inStep.fault
  cases plainFault with
  | none => exact later rfl (inStep.stands rfl)
  | some fault => exact ⟨rfl, inStep.agrees, fun quiet => nomatch quiet⟩

section Lines

variable {image : Image} {floor capacity : Nat}

/-- An operand whose word does not depend on the free part of memory. -/
def Steady (image : Image) (floor : Nat) (source : Operand) : Prop :=
  ∀ plain merged, Agrees floor plain merged → floor ≤ plain.memory.size →
    ∃ word, image.load plain source = .ok word ∧ image.load merged source = .ok word

/-- A line that works on registers only and leaves the stack pointer alone. -/
def OnRegisters (image : Image) (line : Line) : Prop :=
  ∃ work : Registers → Registers × Option Fault,
    (∀ core, image.perform line core =
      ⟨{ core with registers := (work core.registers).1 }, (work core.registers).2⟩) ∧
    ∀ registers, (work registers).1.esp = registers.esp

/-- Lines that take the stack from one height to another, in words, and stay within a capacity. -/
inductive Stacks (image : Image) (floor capacity : Nat) : Nat → List Line → Nat → Prop where
  | done (height : Nat) : Stacks image floor capacity height [] height
  | push {height last : Nat} {source : Operand} {rest : List Line}
      (steady : Steady image floor source) (room : height < capacity)
      (later : Stacks image floor capacity (height + 1) rest last) :
      Stacks image floor capacity height (Line.op .push [source] :: rest) last
  | pop {height last : Nat} {target : Register} {rest : List Line}
      (work : target = .eax ∨ target = .ebx)
      (later : Stacks image floor capacity height rest last) :
      Stacks image floor capacity (height + 1) (Line.pop target :: rest) last
  | work {height last : Nat} {line : Line} {rest : List Line} (onRegisters : OnRegisters image line)
      (noPush : line.isPush = false) (noPop : line.isPop = false)
      (later : Stacks image floor capacity height rest last) :
      Stacks image floor capacity height (line :: rest) last

theorem Stacks.append {height middle last : Nat} {before after : List Line}
    (first : Stacks image floor capacity height before middle)
    (second : Stacks image floor capacity middle after last) :
    Stacks image floor capacity height (before ++ after) last := by
  induction first with
  | done height => exact second
  | push steady room _ induction => exact .push steady room (induction second)
  | pop work _ induction => exact .pop work (induction second)
  | work onRegisters noPush noPop _ induction =>
      exact .work onRegisters noPush noPop (induction second)

theorem Stacks.pair {height last : Nat} {source operand : Operand} {rest : List Line}
    (heights : Stacks image floor capacity height
      (.instruction .push [source] :: .instruction .pop [operand] :: rest) last) :
    ∃ target, operand = .register target ∧ (target = .eax ∨ target = .ebx) ∧
      Steady image floor source ∧ height < capacity ∧
      Stacks image floor capacity height rest last := by
  cases heights with
  | work _ noPush _ _ => cases noPush
  | push steady room later =>
      cases later with
      | work _ _ noPop _ => cases noPop
      | pop work later => exact ⟨_, rfl, work, steady, room, later⟩

variable {base height : Nat} {plain merged : Core}

theorem in_step_work {line : Line} (onRegisters : OnRegisters image line)
    (stands : Stands floor base height plain merged) :
    InStep floor base height (image.perform line plain) (image.perform line merged) := by
  obtain ⟨work, performed, balanced⟩ := onRegisters
  obtain ⟨agrees, top, inside⟩ := stands
  have same : (image.perform line plain).core.top = plain.top := by
    rw [performed]
    exact congrArg BitVec.toNat (balanced plain.registers)
  have after : Agrees floor (image.perform line plain).core (image.perform line merged).core := by
    rw [performed, performed, agrees.registers]
    refine ⟨rfl, agrees.unread, agrees.written, agrees.size, ?_⟩
    intro index place
    apply agrees.bytes index
    rwa [Core.top, balanced plain.registers] at place
  refine ⟨?_, after, fun _ => ⟨after, by rw [same, top], ?_⟩⟩
  · rw [performed, performed, agrees.registers]
  · rw [performed]
    exact inside

theorem agrees_pushed (agrees : Agrees floor plain merged) (room : floor + 4 ≤ plain.top)
    (inside : plain.top ≤ plain.memory.size) (word : Word) :
    Agrees floor (plain.pushed word) (merged.pushed word) := by
  have mergedTop := agrees.top
  have plainHolds := Core.holds_below (by omega) inside
  have mergedHolds := @Core.holds_below merged (by omega) (by rw [agrees.size]; omega)
  refine ⟨?_, agrees.unread, agrees.written, ?_, ?_⟩
  · simp only [Core.pushed, Core.set, Core.get, Registers.get, agrees.registers]
  · rw [Core.size_pushed, Core.size_pushed, agrees.size]
  · intro index place
    rw [Core.top_pushed (by omega)] at place
    have esp : merged.get .esp = plain.get .esp := by
      rw [Core.get, Core.get, agrees.registers]
    rw [esp] at mergedHolds
    have below := @Core.top_below plain (by omega)
    simp only [Core.pushed, esp]
    apply Memory.byte_store_congr word plainHolds mergedHolds
    intro outside
    exact agrees.bytes index (by omega)

theorem in_step_push {source : Operand} (steady : Steady image floor source)
    (stands : Stands floor base height plain merged) (room : floor + 4 * (height + 1) ≤ base) :
    InStep floor base (height + 1) (image.perform (Line.op .push [source]) plain)
      (image.perform (Line.op .push [source]) merged) := by
  obtain ⟨agrees, top, inside⟩ := stands
  have mergedTop := agrees.top
  obtain ⟨word, plainLoaded, mergedLoaded⟩ := steady plain merged agrees (by omega)
  have pushed := agrees_pushed agrees (by omega) (by omega) word
  have pushedTop := @Core.top_pushed plain (by omega) word
  rw [perform_push plainLoaded (by omega) (by omega),
    perform_push mergedLoaded (by omega) (by rw [agrees.size]; omega)]
  have after : Stands floor base (height + 1) (plain.pushed word) (merged.pushed word) :=
    ⟨pushed, by omega, by rw [Core.size_pushed]; exact inside⟩
  exact after.in_step

theorem top_popped {target : Register} (work : target = .eax ∨ target = .ebx) {core : Core}
    (narrow : core.top + 4 < 0x100000000) : (core.popped target).top = core.top + 4 := by
  have esp : (core.popped target).registers.esp = core.registers.esp + 4 := by
    rcases work with rfl | rfl
    · rfl
    · rfl
  unfold Core.top at narrow ⊢
  rw [esp]
  bv_omega

theorem in_step_pop {target : Register} (work : target = .eax ∨ target = .ebx)
    (stands : Stands floor base (height + 1) plain merged) (narrow : base < 0x100000000) :
    InStep floor base height (image.perform (Line.pop target) plain)
      (image.perform (Line.pop target) merged) := by
  obtain ⟨agrees, top, inside⟩ := stands
  have mergedTop := agrees.top
  have poppedTop := @top_popped target work plain (by omega)
  have loaded : merged.memory.load (plain.get .esp) = plain.memory.load (plain.get .esp) :=
    Memory.load_congr fun index above _ => agrees.bytes index (.inr above)
  have registers : (merged.popped target).registers = (plain.popped target).registers := by
    have same : merged.get .esp = plain.get .esp := by
      rw [Core.get, Core.get, agrees.registers]
    simp only [Core.popped, Core.set, same, loaded, agrees.registers]
  rw [perform_pop target (by omega), perform_pop target (by rw [agrees.size]; omega)]
  have after : Stands floor base height (plain.popped target) (merged.popped target) := by
    refine ⟨⟨registers, agrees.unread, agrees.written, agrees.size, ?_⟩, by omega, inside⟩
    intro index place
    exact agrees.bytes index (by omega)
  exact after.in_step

/-- A push with a pop behind it does what a move does. -/
theorem in_step_merge {source : Operand} {target : Register}
    (work : target = .eax ∨ target = .ebx) (steady : Steady image floor source)
    (stands : Stands floor base height plain merged) (room : floor + 4 * (height + 1) ≤ base) :
    InStep floor base height
      (image.performAll [Line.op .push [source], Line.pop target] plain)
      (image.perform (Line.op .mov [.register target, source]) merged) := by
  obtain ⟨agrees, top, inside⟩ := stands
  obtain ⟨word, plainLoaded, mergedLoaded⟩ := steady plain merged agrees (by omega)
  have pushed := @Keeps.pushed floor plain (by omega) (by omega) word
  have pushedTop := @Core.top_pushed plain (by omega) word
  have plainEffect : image.performAll [Line.op .push [source], Line.pop target] plain =
      ⟨{ plain.set target word with memory := (plain.pushed word).memory }, none⟩ := by
    rw [Image.perform_all_cons (perform_push plainLoaded (by omega) (by omega)),
      Image.perform_all_cons (perform_pop target (by rw [pushed.size]; omega)),
      Core.popped_pushed (by omega) (by omega)]
    rfl
  have mergedEffect : image.perform (Line.op .mov [.register target, source]) merged =
      ⟨merged.set target word, none⟩ := by
    have moved : image.perform (Line.op .mov [.register target, source]) merged =
        image.withWord merged source fun value => image.store merged (.register target) value := rfl
    rw [moved, Image.withWord, mergedLoaded]
    rfl
  have sameTop : (plain.set target word).top = plain.top := by
    rcases work with rfl | rfl
    · rfl
    · rfl
  have after : Stands floor base height
      { plain.set target word with memory := (plain.pushed word).memory }
      (merged.set target word) := by
    refine ⟨⟨?_, agrees.unread, agrees.written, ?_, ?_⟩, ?_, ?_⟩
    · rw [Core.set, Core.set, agrees.registers]
    · rw [Core.size_pushed]
      exact agrees.size
    · intro index place
      -- The word that was pushed is left behind below the stack pointer.
      have outside : index < floor ∨ plain.top ≤ index := by
        rwa [← sameTop]
      rw [Core.byte_pushed (by omega) (by omega) word (by omega)]
      exact agrees.bytes index outside
    · rw [← top, ← sameTop]
      rfl
    · rw [Core.size_pushed]
      exact inside
  rw [plainEffect, mergedEffect]
  exact after.in_step

theorem in_step_line {line : Line} {rest : List Line} {last : Nat}
    (heights : Stacks image floor capacity height (line :: rest) last)
    (stands : Stands floor base height plain merged) (deep : floor + 4 * capacity ≤ base)
    (narrow : base < 0x100000000) :
    ∃ middle, Stacks image floor capacity middle rest last ∧
      InStep floor base middle (image.perform line plain) (image.perform line merged) := by
  cases heights with
  | push steady room later => exact ⟨_, later, in_step_push steady stands (by omega)⟩
  | pop work later => exact ⟨_, later, in_step_pop work stands narrow⟩
  | work onRegisters _ _ later => exact ⟨_, later, in_step_work onRegisters stands⟩

/-- Code runs in step with what the peephole pass makes of it. -/
theorem in_step_merge_pairs {lines : List Line} {last : Nat}
    (heights : Stacks image floor capacity height lines last)
    (stands : Stands floor base height plain merged) (deep : floor + 4 * capacity ≤ base)
    (narrow : base < 0x100000000) :
    InStep floor base last (image.performAll lines plain)
      (image.performAll (Line.mergePairs lines) merged) := by
  -- Each step of the pass takes either a pair, for which one line runs on the other side, or the
  -- first line, which runs on both sides.
  fun_induction Line.mergePairs lines generalizing height plain merged with
  | case1 first second rest both merge induction =>
      obtain ⟨source, operand, rfl, rfl, rfl⟩ := Line.merge_cases merge
      obtain ⟨target, rfl, work, steady, room, later⟩ := heights.pair
      have pair := in_step_merge work steady stands (by omega)
      have split := image.perform_all_append
        [Line.op .push [source], Line.pop target] rest plain
      rw [List.cons_append, List.singleton_append] at split
      exact split ▸ pair.and_then fun _ between => induction later between
  | case2 first second rest noMerge induction =>
      obtain ⟨middle, later, inStep⟩ := in_step_line heights stands deep narrow
      exact inStep.and_then fun _ between => induction later between
  | case3 lines short =>
      cases lines with
      | nil =>
          cases heights with
          | done => exact stands.in_step
      | cons line rest =>
          cases rest with
          | cons second rest => exact absurd rfl (short line second rest)
          | nil =>
              obtain ⟨middle, later, inStep⟩ := in_step_line heights stands deep narrow
              cases later with
              | done => exact inStep.and_then fun _ between => between.in_step

end Lines

section Code

variable {image : Image} {floor capacity : Nat}

theorem steady_cell {name : Bytes} {address : Word}
    (placed : image.symbols.find? (variableLabel name) = some address)
    (below : address.toNat + 4 ≤ floor) :
    Steady image floor (.memory (some .dword) (.label (variableLabel name)) 0) := by
  intro plain merged agrees inside
  have same : merged.memory.load address = plain.memory.load address :=
    Memory.load_congr fun index _ within => agrees.bytes index (.inl (by omega))
  refine ⟨plain.memory.load address, load_cell placed (by omega), ?_⟩
  rw [load_cell placed (by rw [agrees.size]; omega), same]

theorem steady_eax : Steady image floor (.register .eax) := by
  intro plain merged agrees _
  refine ⟨plain.registers.eax, rfl, ?_⟩
  rw [← agrees.registers]
  rfl

theorem on_registers_set {line : Line} {target : Register} (value : Registers → Word)
    (work : target = .eax ∨ target = .edx)
    (performed : ∀ core, image.perform line core = ⟨core.set target (value core.registers), none⟩) :
    OnRegisters image line := by
  refine ⟨fun registers => (registers.set target (value registers), none), performed, ?_⟩
  intro registers
  rcases work with rfl | rfl
  · rfl
  · rfl

def divideRegisters (registers : Registers) : Registers × Option Fault :=
  let dividend := (registers.edx ++ registers.eax : BitVec 64).toInt
  let quotient := dividend.tdiv registers.ebx.toInt
  let remainder := dividend.tmod registers.ebx.toInt
  if registers.ebx = 0 then (registers, some .divisionByZero)
  else if quotient < -2147483648 || 2147483647 < quotient then (registers, some .quotientOverflow)
  else
    ({ registers with eax := BitVec.ofInt 32 quotient, edx := BitVec.ofInt 32 remainder }, none)

theorem on_registers_idiv : OnRegisters image (Line.op .idiv [.register .ebx]) := by
  refine ⟨divideRegisters, ?_, ?_⟩
  · intro core
    change core.divide core.registers.ebx = _
    have dividend : (core.get .edx ++ core.get .eax : BitVec 64).toInt =
        (core.registers.edx ++ core.registers.eax : BitVec 64).toInt := rfl
    rw [Core.divide, divideRegisters, dividend]
    generalize (core.registers.edx ++ core.registers.eax : BitVec 64).toInt = number
    by_cases zero : core.registers.ebx = 0
    · rw [if_pos zero, if_pos zero]
    · rw [if_neg zero, if_neg zero]
      split
      · rfl
      · rfl
  · intro registers
    rw [divideRegisters]
    split
    · rfl
    · split
      · rfl
      · rfl

theorem stacks_division (mode : DivisionMode) (height : Nat) :
    Stacks image floor capacity height (divisionLines mode) height := by
  have divide : Stacks image floor capacity height [Line.op .idiv [.register .ebx]] height :=
    .work on_registers_idiv rfl rfl (.done height)
  cases mode with
  | sign =>
      refine .work ?_ rfl rfl divide
      exact on_registers_set (fun registers => if registers.eax.slt 0 then BitVec.allOnes 32 else 0)
        (.inr rfl) fun _ => rfl
  | zero =>
      refine .work ?_ rfl rfl divide
      exact on_registers_set (fun _ => BitVec.ofInt 32 0) (.inr rfl) fun _ => rfl

theorem stacks_operator (mode : DivisionMode) {kind : TokenKind}
    (hasCode : isArithmetic kind = true) (height : Nat) :
    Stacks image floor capacity height (operatorLines mode kind) height := by
  rcases arithmetic_kinds hasCode with rfl | rfl | rfl | rfl | rfl
  · refine .work ?_ rfl rfl (.done height)
    exact on_registers_set (fun registers => registers.eax + registers.ebx) (.inl rfl) fun _ => rfl
  · refine .work ?_ rfl rfl (.done height)
    exact on_registers_set (fun registers => registers.eax - registers.ebx) (.inl rfl) fun _ => rfl
  · refine .work ?_ rfl rfl (.done height)
    exact on_registers_set (fun registers => registers.eax * registers.ebx) (.inl rfl) fun _ => rfl
  · exact stacks_division mode height
  · refine (stacks_division mode height).append (.work ?_ rfl rfl (.done height))
    exact on_registers_set (fun registers => registers.edx) (.inl rfl) fun _ => rfl

/-- The code of a tree adds one word to the stack and stays within the depth of the tree. -/
theorem stacks_code {names : List Bytes} (mode : DivisionMode) {expr : Expr}
    (arithmetic : expr.Arithmetic names)
    (cells : ∀ name ∈ names,
      Steady image floor (.memory (some .dword) (.label (variableLabel name)) 0))
    {height : Nat} (room : height + expr.stackDepth ≤ capacity) :
    Stacks image floor capacity height (expr.code mode) (height + 1) := by
  induction arithmetic generalizing height with
  | literal word =>
      simp only [Expr.stackDepth] at room
      refine .push ?_ (by omega) (.done _)
      exact fun _ _ _ _ => ⟨_, rfl, rfl⟩
  | reference name known =>
      simp only [Expr.stackDepth] at room
      exact .push (cells name.lexeme known) (by omega) (.done _)
  | grouping _ inner => exact inner room
  | @negation op right isMinus part rightStacks =>
      simp only [Expr.stackDepth] at room
      have positive := Expr.stack_depth_pos part
      have negate : OnRegisters image (Line.op .neg [.register .eax]) :=
        on_registers_set (fun registers => -registers.eax) (.inl rfl) fun _ => rfl
      rw [Expr.code_negation mode right isMinus]
      refine (rightStacks room).append (.pop (.inl rfl) (.work negate rfl rfl ?_))
      exact .push steady_eax (by omega) (.done _)
  | @binary left right op hasCode leftPart rightPart leftStacks rightStacks =>
      simp only [Expr.stackDepth] at room
      have positive := Expr.stack_depth_pos leftPart
      rw [Expr.code_binary]
      refine (leftStacks (by omega)).append ((rightStacks (by omega)).append ?_)
      refine .pop (.inr rfl) (.pop (.inl rfl) ((stacks_operator mode hasCode height).append ?_))
      exact .push steady_eax (by omega) (.done _)

end Code

end ExprCompiler
