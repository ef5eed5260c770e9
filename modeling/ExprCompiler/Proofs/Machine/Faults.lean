import ExprCompiler.Machine.Routine
import ExprCompiler.Machine.Step

/-!
What instructions and routines can fail of. A symbol is unresolved only where an operand refers to a
name without an address or where a name is called that is neither code nor imported, and nothing but
the machine itself minds the step limit.
-/

namespace ExprCompiler

inductive FaultKind where
  | divideError
  | input
  | stepLimit
  | memory
  | unknownInstruction
  | badOperand
  | unresolvedSymbol
  | unsupportedRoutine
  deriving DecidableEq, Repr

def Fault.kind : Fault → FaultKind
  | divisionByZero | quotientOverflow => .divideError
  | input _ => .input
  | stepLimit _ => .stepLimit
  | badRead _ | badWrite _ | unterminatedText _ => .memory
  | unknownInstruction _ => .unknownInstruction
  | operandCount _ _ _ | notWritable _ | callTarget _ => .badOperand
  | unresolvedSymbol _ => .unresolvedSymbol
  | unsupportedRoutine _ => .unsupportedRoutine

/-- Kinds of faults that are neither about names nor about the step limit. -/
def FaultKind.IsPlain (kind : FaultKind) : Prop := kind ≠ .unresolvedSymbol ∧ kind ≠ .stepLimit

instance (kind : FaultKind) : Decidable kind.IsPlain := inferInstanceAs (Decidable (_ ∧ _))

theorem Fault.plain_of_kind {fault : Fault} (kind : FaultKind) (same : fault.kind = kind)
    (plain : kind.IsPlain) : fault.kind.IsPlain := same ▸ plain

theorem error_of_map {first second : Type} {work : first → second} {attempt : Except Fault first}
    {fault : Fault} (failed : attempt.map work = .error fault) : attempt = .error fault := by
  cases attempt with
  | ok value => cases failed
  | error problem =>
      cases failed
      rfl

theorem error_of_bind {first second : Type} {attempt : Except Fault first}
    {next : first → Except Fault second} {fault : Fault}
    (failed : (attempt >>= next) = .error fault) :
    attempt = .error fault ∨ ∃ value, attempt = .ok value ∧ next value = .error fault := by
  cases attempt with
  | ok value => exact .inr ⟨value, rfl, failed⟩
  | error problem =>
      cases failed
      exact .inl rfl

section Memory

variable {core : Core} {fault : Fault}

theorem read_fails {address : Word} (failed : core.read address = .error fault) :
    fault.kind = .memory := by
  unfold Core.read at failed
  split at failed
  · cases failed
  · cases failed
    rfl

theorem read_text_fails {address : Word} (failed : core.readText address = .error fault) :
    fault.kind = .memory := by
  unfold Core.readText at failed
  split at failed
  · cases failed
  · cases failed
    rfl

theorem argument_fails {number : Nat} (failed : core.argument number = .error fault) :
    fault.kind = .memory :=
  read_fails failed

theorem write_fails {address value : Word}
    (failed : (core.write address value).fault = some fault) :
    fault.kind = .memory := by
  unfold Core.write at failed
  split at failed
  · cases failed
  · cases failed
    rfl

end Memory

section Routines

variable {core : Core} {fault : Fault}

theorem format_fails {next : Nat} {format : Bytes}
    (failed : formatWith core.argument next format = .error fault) : fault.kind = .memory := by
  fun_induction formatWith core.argument next format with
  | case1 => cases failed
  | case2 next letter rest _ problem unread =>
      cases failed
      exact argument_fails unread
  | case3 next letter rest _ value _ induction => exact induction (error_of_map failed)
  | case4 next rest _ induction => exact induction (error_of_map failed)
  | case5 next letter rest _ _ induction => exact induction (error_of_map failed)
  | case6 next byte rest _ induction => exact induction (error_of_map failed)

theorem print_fails (failed : (printRoutine core).fault = some fault) : fault.kind = .memory := by
  unfold printRoutine at failed
  dsimp only at failed
  split at failed
  · rename_i problem stopped
    cases failed
    rcases error_of_bind stopped with noAddress | ⟨address, _, afterAddress⟩
    · exact argument_fails noAddress
    · rcases error_of_bind afterAddress with noText | ⟨format, _, afterText⟩
      · exact read_text_fails noText
      · exact format_fails afterText
  · cases failed

theorem scan_argument_fails {number : Nat}
    (failed : (scanArgument core number).fault = some fault) :
    fault.kind = .memory ∨ fault.kind = .input := by
  unfold scanArgument at failed
  split at failed
  · rename_i stopped
    cases failed
    exact .inl (argument_fails stopped)
  · split at failed
    · cases failed
      exact .inr rfl
    · exact .inl (write_fails failed)

theorem scan_with_last (stored : Nat) (core : Core) (byte : UInt8) :
    scanWith stored core [byte] = scanWith stored core [] := by
  rw [scanWith]
  simp

theorem scan_with_passed (stored : Nat) (core : Core) {byte : UInt8} (letter : UInt8) (rest : Bytes)
    (other : byte ≠ 0x25) :
    scanWith stored core (byte :: letter :: rest) = scanWith stored core (letter :: rest) := by
  rw [scanWith]
  simp [other]

/-- The text of a format may be any, since the stack can have overwritten it. -/
theorem scan_with_fails (stored : Nat) (core : Core) (format : Bytes)
    (failed : (scanWith stored core format).fault = some fault) :
    fault.kind = .memory ∨ fault.kind = .input := by
  match format with
  | [] => cases failed
  | [byte] =>
      rw [scan_with_last] at failed
      cases failed
  | byte :: letter :: rest =>
      by_cases percent : byte = 0x25
      · subst percent
        rw [scanWith] at failed
        split at failed
        · split at failed
          · exact scan_with_fails (stored + 1) _ rest failed
          · rename_i after problem stopped
            rw [← stopped] at failed
            exact scan_argument_fails failed
        · exact scan_with_fails stored core (letter :: rest) failed
      · rw [scan_with_passed stored core letter rest percent] at failed
        exact scan_with_fails stored core (letter :: rest) failed

theorem scan_fails (failed : (scanRoutine core).fault = some fault) :
    fault.kind = .memory ∨ fault.kind = .input := by
  unfold scanRoutine at failed
  dsimp only at failed
  split at failed
  · rename_i problem stopped
    cases failed
    rcases error_of_bind stopped with noAddress | ⟨address, _, noText⟩
    · exact .inl (argument_fails noAddress)
    · exact .inl (read_text_fails noText)
  · exact scan_with_fails 0 core _ failed

theorem call_routine_fails {image : Image} {name : Bytes}
    (standard : image.routines = standardRoutines)
    (failed : (image.callRoutine name core).fault = some fault) : fault.kind.IsPlain := by
  unfold Image.callRoutine at failed
  rw [standard, standardRoutines, Table.find?, Table.find?, Table.find?] at failed
  by_cases prints : utf8 "printf" = name
  · rw [if_pos prints] at failed
    exact Fault.plain_of_kind _ (print_fails failed) (by decide)
  · rw [if_neg prints] at failed
    by_cases scans : utf8 "scanf" = name
    · rw [if_pos scans] at failed
      rcases scan_fails failed with kind | kind <;> exact Fault.plain_of_kind _ kind (by decide)
    · rw [if_neg scans] at failed
      cases failed
      exact Fault.plain_of_kind .unsupportedRoutine rfl (by decide)

end Routines

section Operands

/-- The faults of an instruction that works on operands: a name in one of them has no address, or
the fault is not about names at all. -/
inductive Image.Explains (image : Image) (operands : List Operand) : Fault → Prop where
  | name {operand : Operand} {name : Bytes} (member : operand ∈ operands)
      (refers : operand.symbol? = some name) (missing : image.symbols.find? name = none) :
      Explains image operands (.unresolvedSymbol name)
  | work {fault : Fault} (plain : fault.kind.IsPlain) : Explains image operands fault

def Effect.ExplainedBy (effect : Effect) (image : Image) (operands : List Operand) : Prop :=
  ∀ fault, effect.fault = some fault → image.Explains operands fault

variable {image : Image} {core : Core} {fault : Fault} {operands : List Operand}
  {operand target source : Operand}

theorem explained_quiet (core : Core) : (⟨core, none⟩ : Effect).ExplainedBy image operands :=
  fun _ failed => nomatch failed

theorem explained_kind (kind : FaultKind) (same : fault.kind = kind) (plain : kind.IsPlain) :
    image.Explains operands fault := .work (Fault.plain_of_kind kind same plain)

theorem explained_memory (kind : fault.kind = .memory) : image.Explains operands fault :=
  explained_kind _ kind (by decide)

theorem resolve_fails {name : Bytes} (failed : image.resolve name = .error fault) :
    image.symbols.find? name = none ∧ fault = .unresolvedSymbol name := by
  unfold Image.resolve at failed
  split at failed
  · cases failed
  · rename_i missing
    cases failed
    exact ⟨missing, rfl⟩

theorem address_explained {size : Option OperandSize} {base : AddressBase} {displacement : Int}
    (member : .memory size base displacement ∈ operands)
    (failed : image.address core base displacement = .error fault) :
    image.Explains operands fault := by
  cases base with
  | register source => cases failed
  | label name =>
      obtain ⟨missing, rfl⟩ := resolve_fails (error_of_map failed)
      exact .name member rfl missing

theorem load_explained (member : operand ∈ operands)
    (failed : image.load core operand = .error fault) : image.Explains operands fault := by
  cases operand with
  | register source => cases failed
  | immediate value => cases failed
  | label name =>
      obtain ⟨missing, rfl⟩ := resolve_fails failed
      exact .name member rfl missing
  | memory size base displacement =>
      rw [Image.load] at failed
      split at failed
      · exact explained_memory (read_fails failed)
      · rename_i problem stopped
        cases failed
        exact address_explained member stopped

theorem write_explained (address value : Word) :
    (core.write address value).ExplainedBy image operands :=
  fun _ failed => explained_memory (write_fails failed)

theorem store_explained (member : operand ∈ operands) (value : Word) :
    (image.store core operand value).ExplainedBy image operands := by
  intro fault failed
  unfold Image.store at failed
  split at failed
  · cases failed
  · split at failed
    · exact write_explained _ _ fault failed
    · rename_i problem stopped
      cases failed
      exact address_explained member stopped
  · cases failed
    exact explained_kind .badOperand rfl (by decide)

theorem with_word_explained {next : Word → Effect} (member : operand ∈ operands)
    (later : ∀ value, (next value).ExplainedBy image operands) :
    (image.withWord core operand next).ExplainedBy image operands := by
  unfold Image.withWord
  split
  · exact later _
  · rename_i problem stopped
    intro fault failed
    cases failed
    exact load_explained member stopped

theorem combine_explained (inTarget : target ∈ operands) (inSource : source ∈ operands)
    (operation : Word → Word → Word) :
    (image.combine core target source operation).ExplainedBy image operands := by
  apply with_word_explained inTarget
  intro first
  apply with_word_explained inSource
  intro second
  exact store_explained inTarget _

theorem pop_explained (member : target ∈ operands) :
    (image.popInto core target).ExplainedBy image operands := by
  unfold Image.popInto
  dsimp only
  split
  · exact store_explained member _
  · rename_i problem stopped
    intro fault failed
    cases failed
    exact explained_memory (read_fails stopped)

theorem divide_fails {divisor : Word} (failed : (core.divide divisor).fault = some fault) :
    fault.kind = .divideError := by
  unfold Core.divide at failed
  dsimp only at failed
  split at failed
  · cases failed
    rfl
  · split at failed
    · cases failed
      rfl
    · cases failed

theorem divide_explained (divisor : Word) : (core.divide divisor).ExplainedBy image operands := by
  intro fault failed
  exact explained_kind _ (divide_fails failed) (by decide)

theorem compute_explained (instruction : Instruction) (core : Core) :
    (image.compute instruction core).ExplainedBy image instruction.operands := by
  obtain ⟨line, mnemonic, operands⟩ := instruction
  unfold Image.compute
  dsimp only
  split
  · exact explained_quiet core
  · exact with_word_explained (by simp) fun value => store_explained (by simp) value
  · exact with_word_explained (by simp) fun value => write_explained _ value
  · exact pop_explained (by simp)
  · exact combine_explained (by simp) (by simp) _
  · exact combine_explained (by simp) (by simp) _
  · exact combine_explained (by simp) (by simp) _
  · exact with_word_explained (by simp) fun value => store_explained (by simp) _
  · exact explained_quiet _
  · exact with_word_explained (by simp) fun value => divide_explained value
  · intro fault failed
    cases failed
    exact explained_kind .unknownInstruction rfl (by decide)
  · intro fault failed
    cases failed
    exact explained_kind .badOperand rfl (by decide)

end Operands

section Steps

/-- The faults of an instruction of a program. An unresolved symbol is a name that an operand takes
for data, or one that is called and is neither code nor imported. -/
inductive Image.Blames (image : Image) (instruction : Instruction) : Fault → Prop where
  | operand {operand : Operand} {name : Bytes} (noCall : instruction.mnemonic ≠ .call)
      (member : operand ∈ instruction.operands) (refers : operand.symbol? = some name)
      (missing : image.symbols.find? name = none) :
      Blames image instruction (.unresolvedSymbol name)
  | callee {name : Bytes} (call : instruction.mnemonic = .call)
      (only : instruction.operands = [.label name])
      (noCode : image.program.labels.find? name = none)
      (noImport : image.program.isImported name = false) :
      Blames image instruction (.unresolvedSymbol name)
  | other {fault : Fault} (plain : fault.kind.IsPlain) : Blames image instruction fault

variable {image : Image} {machine : Machine} {fault : Fault} {instruction : Instruction}

theorem Image.Blames.no_limit (blamed : image.Blames instruction fault) :
    fault.kind ≠ .stepLimit := by
  cases blamed with
  | operand => exact fun same => nomatch same
  | callee => exact fun same => nomatch same
  | other plain => exact plain.2

/-- A call with other operands than one fails before it looks at them. -/
theorem compute_blames {core : Core}
    (failed : (image.compute instruction core).fault = some fault) :
    image.Blames instruction fault := by
  by_cases call : instruction.mnemonic = .call
  · have counted : image.compute instruction core =
        ⟨core, some (.operandCount instruction.mnemonic.text
          (Image.operandCount instruction.mnemonic) instruction.line)⟩ := by
      simp only [Image.compute, call]
    rw [counted] at failed
    cases failed
    exact .other (Fault.plain_of_kind .badOperand rfl (by decide))
  · cases compute_explained instruction core fault failed with
    | name member refers missing => exact .operand call member refers missing
    | work plain => exact .other plain

theorem execute_blames (standard : image.routines = standardRoutines)
    (failed : (machine.execute image instruction).2 = some fault) :
    image.Blames instruction fault := by
  unfold Machine.execute at failed
  split at failed
  · rename_i name call only
    unfold Machine.call at failed
    split at failed
    · cases failed
    · rename_i noCode
      split at failed
      · exact .other (call_routine_fails standard failed)
      · rename_i noImport
        cases failed
        exact .callee call only noCode (by simpa using noImport)
  · cases failed
    exact .other (Fault.plain_of_kind .badOperand rfl (by decide))
  · cases failed
  · exact compute_blames failed

/-- A step fails at the limit, where it changes nothing, or of the instruction that it takes. -/
theorem step_failed {after : Machine} {error : RunError}
    (standard : image.routines = standardRoutines)
    (step : machine.step image = (after, some error)) :
    (after = machine ∧ error = ⟨none, .stepLimit image.stepLimit⟩ ∧
        (image.stepLimit : Int) ≤ machine.steps) ∨
      ∃ instruction, image.fetch? machine.ip = some instruction ∧
        error.instruction = some instruction ∧ image.Blames instruction error.fault := by
  unfold Machine.step at step
  split at step
  · cases step
  · split at step
    · cases step
    · rename_i instruction fetched
      split at step
      · rename_i limited
        cases step
        exact .inl ⟨rfl, rfl, limited⟩
      · split at step
        · cases step
        · rename_i fault executed
          cases step
          exact .inr ⟨instruction, fetched, rfl, execute_blames standard (by rw [executed])⟩

end Steps

end ExprCompiler
