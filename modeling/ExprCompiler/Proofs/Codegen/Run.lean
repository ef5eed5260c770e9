import ExprCompiler.Proofs.Codegen.Encoding
import ExprCompiler.Proofs.Codegen.Merged
import ExprCompiler.Proofs.Codegen.Start

/-!
Whole runs of generated programs. A program is straight code with one return at its end, so its run
is the effect of its lines: the questions, the code of the tree and the answer.
-/

namespace ExprCompiler

/-- The lines of a program before its return, around the code of the tree. -/
def mainLines (names : List Bytes) (body : List Line) : List Line :=
  names.flatMap readLines ++ (body ++ answerLines)

def treeLines (options : CodegenOptions) (expr : Expr) : List Line :=
  if options.peephole then Line.mergePairs (expr.code options.division)
  else expr.code options.division

theorem program_code_eq (options : CodegenOptions) (names : List Bytes) (expr : Expr) :
    programCode options names expr =
      mainLines names (treeLines options expr) ++ [Line.op .ret []] := by
  have finish : finishLines = answerLines ++ [Line.op .ret []] := rfl
  rw [programCode, mainLines, treeLines, finish]
  simp only [List.append_assoc]

section Straight

theorem instructions_from_append (number : Nat) (before after : List Line) :
    instructionsFrom number (before ++ after) =
      instructionsFrom number before ++ instructionsFrom (number + before.length) after := by
  induction before generalizing number with
  | nil => rfl
  | cons line before induction =>
      have count : number + 1 + before.length = number + (line :: before).length := by
        rw [List.length_cons]
        omega
      have later := induction (number + 1)
      rw [count] at later
      cases line with
      | instruction mnemonic operands =>
          rw [List.cons_append, instructionsFrom, later, instructionsFrom, List.cons_append]
      | _ => exact later

theorem instructions_from_length {lines : List Line}
    (straight : ∀ line ∈ lines, line.isStraight = true) (number : Nat) :
    (instructionsFrom number lines).length = lines.length := by
  induction lines generalizing number with
  | nil => rfl
  | cons line lines induction =>
      have later := induction (fun other member => straight other (by simp [member])) (number + 1)
      cases line with
      | instruction mnemonic operands =>
          rw [instructionsFrom, List.length_cons, List.length_cons, later]
      | _ => cases straight _ List.mem_cons_self

def Line.isPlain (line : Line) : Bool := line.isStraight && line.routine?.isNone

theorem code_plain {names : List Bytes} (mode : DivisionMode) {expr : Expr}
    (arithmetic : expr.Arithmetic names) : ∀ line ∈ expr.code mode, line.isPlain = true := by
  apply Expr.forall_code mode (fun line => line.isPlain = true) arithmetic
  · intro word
    rfl
  · intro name _
    rfl
  · cases mode <;> decide

theorem tree_lines_plain {names : List Bytes} (options : CodegenOptions) {expr : Expr}
    (arithmetic : expr.Arithmetic names) :
    ∀ line ∈ treeLines options expr, line.isPlain = true := by
  have plain := code_plain options.division arithmetic
  unfold treeLines
  split
  · refine forall_merge_pairs ?_ plain
    intro first second merged merge _ _
    obtain ⟨source, target, _, _, rfl⟩ := Line.merge_cases merge
    rfl
  · exact plain

theorem main_lines_straight {names : List Bytes} {body : List Line}
    (plain : ∀ line ∈ body, line.isPlain = true) :
    ∀ line ∈ mainLines names body, line.isStraight = true ∧
      ∀ name ∈ line.routine?, name = utf8 "printf" ∨ name = utf8 "scanf" := by
  have quiet {line : Line} (isPlain : line.isPlain = true) : line.isStraight = true ∧
      ∀ name ∈ line.routine?, name = utf8 "printf" ∨ name = utf8 "scanf" := by
    simp only [Line.isPlain, Bool.and_eq_true, Option.isNone_iff_eq_none] at isPlain
    refine ⟨isPlain.1, ?_⟩
    intro name same
    rw [isPlain.2] at same
    cases same
  have print : ∀ name ∈ (Line.call (utf8 "printf")).routine?,
      name = utf8 "printf" ∨ name = utf8 "scanf" := fun _ same => .inl (Option.some.inj same).symm
  have scan : ∀ name ∈ (Line.call (utf8 "scanf")).routine?,
      name = utf8 "printf" ∨ name = utf8 "scanf" := fun _ same => .inr (Option.some.inj same).symm
  intro line member
  rcases List.mem_append.mp member with inReads | inRest
  · obtain ⟨name, _, inRead⟩ := List.mem_flatMap.mp inReads
    simp only [readLines, List.mem_cons, List.not_mem_nil, or_false] at inRead
    rcases inRead with rfl | rfl | rfl | rfl | rfl | rfl | rfl
    · exact quiet rfl
    · exact ⟨rfl, print⟩
    · exact quiet rfl
    · exact quiet rfl
    · exact quiet rfl
    · exact ⟨rfl, scan⟩
    · exact quiet rfl
  rcases List.mem_append.mp inRest with inBody | inAnswer
  · exact quiet (plain line inBody)
  · simp only [answerLines, List.mem_cons, List.not_mem_nil, or_false] at inAnswer
    rcases inAnswer with rfl | rfl | rfl | rfl
    · exact quiet rfl
    · exact ⟨rfl, print⟩
    · exact quiet rfl
    · exact quiet rfl

theorem calls_imported {image : Image} {code : List Line} {names : List Bytes} {line : Line}
    (program : image.program = generatedProgram code names)
    (known : ∀ name ∈ line.routine?, name = utf8 "printf" ∨ name = utf8 "scanf") :
    image.Calls line := by
  intro name called
  rw [program]
  rcases known name called with rfl | rfl
  · exact ⟨rfl, rfl⟩
  · exact ⟨rfl, rfl⟩

theorem program_instructions (names : List Bytes) (body : List Line) :
    (generatedProgram (mainLines names body ++ [Line.op .ret []]) names).instructions.toList =
      instructionsFrom 6 (mainLines names body) ++
        [⟨6 + (mainLines names body).length, .ret, []⟩] :=
  instructions_from_append 6 (mainLines names body) [Line.op .ret []]

theorem instruction_count {names : List Bytes} {body : List Line}
    (plain : ∀ line ∈ body, line.isPlain = true) :
    (generatedProgram (mainLines names body ++ [Line.op .ret []]) names).instructions.size =
      (mainLines names body).length + 1 := by
  have straight := fun line member => (@main_lines_straight names body plain line member).1
  rw [← Array.length_toList, program_instructions, List.length_append,
    instructions_from_length straight, List.length_singleton]

/-- A generated program runs to the effect of its lines. -/
theorem runs_main {names : List Bytes} {body : List Line} {options : MachineOptions}
    {loaded : Loaded} (plain : ∀ line ∈ body, line.isPlain = true)
    (load : (generatedProgram (mainLines names body ++ [Line.op .ret []]) names).load options =
      .ok loaded)
    (limit : loaded.image.program.instructions.size ≤ loaded.image.stepLimit) :
    loaded.machine.RunsTo loaded.image
      (loaded.image.performAll (mainLines names body) loaded.machine.toCore) := by
  obtain ⟨placed, _, _, image, machine⟩ := load_cases load
  have program : loaded.image.program =
      generatedProgram (mainLines names body ++ [Line.op .ret []]) names := by rw [image]
  have fine := @main_lines_straight names body plain
  have instructions : loaded.image.program.instructions.toList =
      [] ++ (instructionsFrom 6 (mainLines names body) ++
        [⟨6 + (mainLines names body).length, .ret, []⟩]) := by
    rw [program]
    exact program_instructions names body
  exact Machine.runs_to_straight instructions (fun line member => (fine line member).1)
    (fun line member => calls_imported program (fine line member).2) (by rw [machine])
    (by rw [machine]) (by rw [machine]; rfl) (by rw [machine]; rfl) limit

end Straight

/-- A machine core on which a program over some variables can start. -/
structure Prepared (image : Image) (names : List Bytes) (limit floor : Nat) (core : Core) : Prop where
  standard : image.routines = standardRoutines
  identifiers : ∀ name ∈ names, IsIdentifier name
  texts : Texts image names limit core.memory
  places : Places image names limit floor
  room : floor + 8 ≤ core.top
  inside : core.top ≤ core.memory.size

section Effects

variable {image : Image} {names : List Bytes} {limit floor : Nat} {core : Core}

theorem Prepared.reads (prepared : Prepared image names limit floor core) :
    Reads image floor names core (image.performAll (names.flatMap readLines) core) :=
  reads_lines prepared.standard prepared.identifiers prepared.texts prepared.places prepared.room
    prepared.inside

theorem Prepared.texts_after_reads (prepared : Prepared image names limit floor core) :
    Texts image names limit (image.performAll (names.flatMap readLines) core).core.memory := by
  apply prepared.texts.congr
  intro index below
  apply prepared.reads.data index (Nat.lt_of_lt_of_le below prepared.places.low)
  intro name member address placed
  obtain ⟨other, found, above, _⟩ := prepared.places.cell name member
  cases found.symm.trans placed
  exact .inl (by omega)

theorem Prepared.top_after_reads (prepared : Prepared image names limit floor core)
    (quiet : (image.performAll (names.flatMap readLines) core).fault = none) :
    (image.performAll (names.flatMap readLines) core).core.top = core.top :=
  congrArg BitVec.toNat (prepared.reads.esp quiet)

theorem Places.cells (places : Places image names limit floor) (memory : Memory) :
    ∃ cells, Cells image names cells floor memory := by
  refine ⟨fun name => memory.load ((image.symbols.find? (variableLabel name)).getD 0), ?_⟩
  intro name member
  obtain ⟨address, placed, _, below⟩ := places.cell name member
  have found : image.symbols.find? (variableLabel name) = some address := placed
  exact ⟨address, found, below, by simp only [found, Option.getD_some]⟩

theorem Places.steady (places : Places image names limit floor) :
    ∀ name ∈ names,
      Steady image floor (.memory (some .dword) (.label (variableLabel name)) 0) := by
  intro name member
  obtain ⟨address, placed, _, below⟩ := places.cell name member
  exact steady_cell placed below

theorem in_step_answer {base : Nat} {plain merged : Core}
    (standard : image.routines = standardRoutines)
    (texts : Texts image names limit plain.memory) (low : limit ≤ floor)
    (stands : Stands floor base 1 plain merged) (room : floor + 8 ≤ base)
    (narrow : base < 0x100000000) :
    InStep floor base 0 (image.performAll answerLines plain)
      (image.performAll answerLines merged) := by
  obtain ⟨agrees, top, inside⟩ := stands
  have mergedTop := agrees.top
  have mergedTexts := texts.congr fun index below => agrees.bytes index (.inl (by omega))
  obtain ⟨first, plainEffect⟩ := perform_answer standard texts.writeFormat low (by omega)
    (by omega)
  obtain ⟨second, mergedEffect⟩ := perform_answer standard mergedTexts.writeFormat low (by omega)
    (by rw [agrees.size]; omega)
  have loaded : merged.memory.load plain.registers.esp = plain.memory.load plain.registers.esp :=
    Memory.load_congr fun index above _ => agrees.bytes index (.inr above)
  have afterTop : (plain.registers.esp + 4).toNat = plain.top + 4 := by
    unfold Core.top at top ⊢
    bv_omega
  rw [plainEffect, mergedEffect]
  refine Stands.in_step ⟨⟨?_, agrees.unread, ?_, ?_, ?_⟩, ?_, ?_⟩
  · rw [agrees.registers]
  · rw [agrees.registers, loaded, agrees.written]
  · rw [Core.size_pushed, Core.size_pushed, agrees.size]
  · intro index place
    have outside : index < floor ∨ plain.top + 4 ≤ index := by rwa [← afterTop]
    rw [Core.byte_pushed (by omega) (by rw [agrees.size]; omega) second (by omega),
      Core.byte_pushed (by omega) (by omega) first (by omega)]
    exact agrees.bytes index (by omega)
  · rw [Nat.mul_zero, Nat.add_zero]
    exact afterTop.trans top
  · rw [Core.size_pushed]
    exact inside

/-- A whole program runs in step with its form after the peephole pass. -/
theorem in_step_main {expr : Expr} (prepared : Prepared image names limit floor core)
    (mode : DivisionMode) (arithmetic : expr.Arithmetic names)
    (deep : floor + 4 * expr.stackDepth ≤ core.top) :
    InStep floor core.top 0 (image.performAll (mainLines names (expr.code mode)) core)
      (image.performAll (mainLines names (Line.mergePairs (expr.code mode))) core) := by
  have narrow : core.top < 0x100000000 := core.registers.esp.isLt
  have texts := prepared.texts_after_reads
  have questions : InStep floor core.top 0 (image.performAll (names.flatMap readLines) core)
      (image.performAll (names.flatMap readLines) core) := by
    refine ⟨rfl, Agrees.refl _ _, fun quiet => ⟨Agrees.refl _ _, ?_, ?_⟩⟩
    · rw [prepared.top_after_reads quiet, Nat.mul_zero, Nat.add_zero]
    · rw [prepared.reads.size]
      exact prepared.inside
  rw [mainLines, mainLines, Image.perform_all_append, Image.perform_all_append]
  refine questions.and_then fun quiet asked => ?_
  generalize (image.performAll (names.flatMap readLines) core).core = start at *
  have startTop := asked.top
  have startInside := asked.inside
  have heights := @stacks_code image floor expr.stackDepth names mode expr arithmetic
    prepared.places.steady 0 (by omega)
  have body := in_step_merge_pairs heights asked deep narrow
  -- The code of the tree keeps the texts, whatever numbers are in the cells.
  obtain ⟨cells, held⟩ := prepared.places.cells start.memory
  have leaves := @leaves_code image start names cells floor mode expr arithmetic held (by omega)
    (by omega)
  rw [Image.perform_all_append, Image.perform_all_append]
  refine body.and_then fun _ between => ?_
  refine in_step_answer prepared.standard (texts.congr ?_) prepared.places.low between
    prepared.room narrow
  intro index below
  exact leaves.keeps.data index (Nat.lt_of_lt_of_le below prepared.places.low)

def answerOf : Except Fault Word → List Bytes
  | .ok word => [word.text ++ [10]]
  | .error _ => []

/-- How a program ends that could read all its variables. -/
structure Answers (names : List Bytes) (core : Core) (effect : Effect)
    (result : Except Fault Word) : Prop where
  fault : effect.fault = faultOf result
  written : effect.core.written =
    answerOf result ++ ((names.map promptText).reverse ++ core.written)
  eax : ∀ word, result = .ok word → effect.core.registers.eax = 0

theorem scan_words_length {count : Nat} {input : Bytes}
    (quiet : (scanWords count input).problem = none) :
    (scanWords count input).values.length = count := by
  induction count generalizing input with
  | zero => rfl
  | succ count induction =>
      cases scan : scanWord input with
      | mk result rest =>
          cases result with
          | error problem =>
              rw [scan_words_failed count scan] at quiet
              cases quiet
          | ok value =>
              rw [scan_words_more count scan] at quiet ⊢
              rw [List.length_cons, induction quiet]

theorem Prepared.cells_after_reads (prepared : Prepared image names limit floor core)
    {values : List Word} (scanned : scanWords names.length core.unread = ⟨values, none⟩)
    {cells : Bytes → Word} (bound : ∀ pair ∈ names.zip values, cells pair.1 = pair.2) :
    Cells image names cells floor
      (image.performAll (names.flatMap readLines) core).core.memory := by
  have count := @scan_words_length names.length core.unread (by rw [scanned])
  rw [scanned] at count
  have all : (names.zip values).map Prod.fst = names := List.map_fst_zip (Nat.le_of_eq count.symm)
  intro name member
  obtain ⟨address, placed, _, below⟩ := prepared.places.cell name member
  refine ⟨address, placed, below, ?_⟩
  rw [← all] at member
  obtain ⟨pair, inZip, rfl⟩ := List.mem_map.mp member
  rw [bound pair inZip]
  exact prepared.reads.cells pair (by rw [scanned]; exact inZip) address placed

theorem answers_tree {start : Core} {code : List Line} {result : Except Fault Word}
    (standard : image.routines = standardRoutines) (low : limit ≤ floor)
    (texts : Texts image names limit start.memory)
    (written : start.written = (names.map promptText).reverse ++ core.written)
    (room : floor + 8 ≤ start.top) (inside : start.top ≤ start.memory.size)
    (leaves : Leaves floor start (image.performAll code start) result) :
    Answers names core (image.performAll (code ++ answerLines) start) result := by
  obtain ⟨ending, keeps, esp, word⟩ := leaves
  rw [Image.perform_all_append]
  cases performed : image.performAll code start with
  | mk after fault =>
      rw [performed] at ending keeps esp word
      cases result with
      | error problem =>
          cases ending
          refine ⟨rfl, ?_, fun _ same => nomatch same⟩
          exact keeps.written.trans written
      | ok value =>
          cases ending
          have afterTop : after.top = start.top - 4 := top_left (by omega) (esp value rfl)
          have size : after.memory.size = start.memory.size := keeps.size
          have stand := texts.congr fun index below =>
            keeps.data index (Nat.lt_of_lt_of_le below low)
          obtain ⟨address, answered⟩ := @perform_answer image after limit floor standard
            stand.writeFormat low (by omega) (by omega)
          rw [word value rfl, keeps.written, written] at answered
          simp only [Effect.andThen, answered]
          exact ⟨rfl, rfl, fun _ _ => rfl⟩

/-- A program without merged pairs answers with the word of its tree. -/
theorem answers_main {expr : Expr} (prepared : Prepared image names limit floor core)
    (mode : DivisionMode) (arithmetic : expr.Arithmetic names)
    (deep : floor + 4 * expr.stackDepth ≤ core.top) {values : List Word}
    (scanned : scanWords names.length core.unread = ⟨values, none⟩) {cells : Bytes → Word}
    (bound : ∀ pair ∈ names.zip values, cells pair.1 = pair.2) :
    Answers names core (image.performAll (mainLines names (expr.code mode)) core)
      (expr.word mode cells) := by
  have texts := prepared.texts_after_reads
  have held := prepared.cells_after_reads scanned bound
  have quiet := prepared.reads.fault
  have written := prepared.reads.written
  have size := prepared.reads.size
  have top := prepared.top_after_reads
  have room := prepared.room
  have inside := prepared.inside
  have count := @scan_words_length names.length core.unread (by rw [scanned])
  rw [scanned] at quiet written count
  rw [List.take_of_length_le (by omega)] at written
  rw [mainLines, Image.perform_all_append]
  cases asked : image.performAll (names.flatMap readLines) core with
  | mk start ending =>
      rw [asked] at texts held quiet written size top
      cases quiet
      have startTop : start.top = core.top := top rfl
      have leaves := @leaves_code image start names cells floor mode expr arithmetic held
        (by omega) (by simp only at size; omega)
      exact answers_tree prepared.standard prepared.places.low texts written (by omega)
        (by simp only at size; omega) leaves

end Effects

end ExprCompiler
