import ExprCompiler.Proofs.Codegen.Steps

/-!
How much of the stack a program takes. Every line of a generated program moves the stack pointer by
a fixed number of bytes and leaves alone what lies below the pointer it ends with, except that the
input routine stores what it reads. So the place of the pointer between two steps follows from the
lines alone, and it never falls further than the depth of the tree.
-/

namespace ExprCompiler

-- Stores are told by their lemmas; comparing them byte by byte is slow.
attribute [local irreducible] Memory.store

namespace Line

def stackBytes : Line → Int
  | instruction .push _ => 4
  | instruction .pop _ => -4
  | instruction .add [.register .esp, .immediate bytes] => -bytes
  | _ => 0

/-- Lines that write to registers other than the stack pointer, push, release or print. -/
def isTidy : Line → Bool
  | instruction .push [_] => true
  | instruction .pop [.register target] => target != .esp
  | instruction .mov [.register target, _] => target != .esp
  | instruction .add [.register .esp, .immediate _] => true
  | instruction .add [.register target, _] => target != .esp
  | instruction .sub [.register target, _] => target != .esp
  | instruction .imul [.register target, _] => target != .esp
  | instruction .neg [.register target] => target != .esp
  | instruction .cdq [] => true
  | instruction .idiv [_] => true
  | instruction .call [.label name] => name == utf8 "printf"
  | _ => false

end Line

/-- What a line leaves behind that moves the stack pointer and spares what lies below it. -/
structure Spares (bytes : Int) (core after : Core) : Prop where
  esp : after.registers.esp = core.registers.esp - BitVec.ofInt 32 bytes
  size : after.memory.size = core.memory.size
  below : ∀ index < after.top, after.memory.byte index = core.memory.byte index

section Lines

variable {image : Image} {core after : Core}

theorem with_word_cases {operand : Operand} {next : Word → Effect}
    (performed : image.withWord core operand next = ⟨after, none⟩) :
    ∃ word, image.load core operand = .ok word ∧ next word = ⟨after, none⟩ := by
  unfold Image.withWord at performed
  split at performed
  · rename_i word loaded
    exact ⟨word, loaded, performed⟩
  · cases performed

theorem Registers.esp_set (registers : Registers) {target : Register} (other : target ≠ .esp)
    (value : Word) : (registers.set target value).esp = registers.esp :=
  registers.get_set_other value other.symm

theorem spares_set {target : Register} (other : target ≠ .esp) (value : Word) :
    Spares 0 core (core.set target value) where
  esp := by
    rw [Core.set, Registers.esp_set _ other]
    exact (BitVec.sub_zero _).symm
  size := rfl
  below := fun _ _ => rfl

theorem spares_combine {target : Register} (other : target ≠ .esp) {source : Operand}
    {operation : Word → Word → Word}
    (performed : image.combine core (.register target) source operation = ⟨after, none⟩) :
    Spares 0 core after := by
  obtain ⟨first, _, later⟩ := with_word_cases performed
  obtain ⟨second, _, stored⟩ := with_word_cases later
  cases stored
  exact spares_set other _

/-- A push fails or stores its word where the pointer comes to stand. -/
theorem spares_push {source : Operand}
    (performed : image.perform (.instruction .push [source]) core = ⟨after, none⟩) :
    Spares 4 core after := by
  obtain ⟨word, _, pushed⟩ := @with_word_cases image core after source core.push performed
  unfold Core.push Core.write at pushed
  dsimp only at pushed
  split at pushed
  · rename_i holds
    cases pushed
    refine ⟨rfl, Memory.size_store _ _, ?_⟩
    intro index below
    exact Memory.byte_store_other word holds (.inl below)
  · cases pushed

theorem spares_pop {target : Register} (other : target ≠ .esp)
    (performed : image.perform (.instruction .pop [.register target]) core = ⟨after, none⟩) :
    Spares (-4) core after := by
  have popped : image.popInto core (.register target) = ⟨after, none⟩ := performed
  unfold Image.popInto at popped
  dsimp only at popped
  split at popped
  · rename_i word _
    cases popped
    refine ⟨?_, rfl, fun _ _ => rfl⟩
    have moved : (core.set .esp (core.get .esp + 4)).registers.esp =
        core.registers.esp - BitVec.ofInt 32 (-4) := by
      simp only [Core.set, Core.get, Registers.set, Registers.get]
      bv_omega
    rw [← moved]
    exact Registers.esp_set _ other word
  · cases popped

theorem spares_print (printed : printRoutine core = ⟨after, none⟩) : Spares 0 core after := by
  unfold printRoutine at printed
  dsimp only at printed
  split at printed
  · cases printed
  · cases printed
    exact ⟨(BitVec.sub_zero _).symm, rfl, fun _ _ => rfl⟩

theorem spares_divide {divisor : Word} (performed : core.divide divisor = ⟨after, none⟩) :
    Spares 0 core after := by
  unfold Core.divide at performed
  dsimp only at performed
  split at performed
  · cases performed
  · split at performed
    · cases performed
    · cases performed
      exact ⟨(BitVec.sub_zero _).symm, rfl, fun _ _ => rfl⟩

theorem spares_line (standard : image.routines = standardRoutines) {line : Line}
    (tidy : line.isTidy = true) (performed : image.perform line core = ⟨after, none⟩) :
    Spares line.stackBytes core after := by
  unfold Line.isTidy at tidy
  split at tidy
  · exact spares_push performed
  · exact spares_pop (by simpa using tidy) performed
  · obtain ⟨word, _, stored⟩ := with_word_cases performed
    cases stored
    exact spares_set (by simpa using tidy) word
  · rename_i bytes
    cases performed
    refine ⟨?_, rfl, fun _ _ => rfl⟩
    have negated : BitVec.ofInt 32 (-bytes) = -BitVec.ofInt 32 bytes := BitVec.ofInt_neg
    simp only [Line.stackBytes, negated, BitVec.sub_neg]
    rfl
  · rename_i target source _
    have other : target ≠ .esp := by simpa using tidy
    have moved : (Line.instruction .add [.register target, source]).stackBytes = 0 := by
      unfold Line.stackBytes
      split
      · rename_i same
        cases same
      · rename_i same
        cases same
      · rename_i same
        cases same
        exact absurd rfl other
      · rfl
    rw [moved]
    exact spares_combine other performed
  · exact spares_combine (by simpa using tidy) performed
  · exact spares_combine (by simpa using tidy) performed
  · rename_i target
    obtain ⟨word, _, stored⟩ := @with_word_cases image core after (.register target)
      (fun word => image.store core (.register target) (-word)) performed
    cases stored
    exact spares_set (by simpa using tidy) _
  · cases performed
    exact spares_set (by decide) _
  · obtain ⟨word, _, divided⟩ := with_word_cases performed
    exact spares_divide divided
  · rename_i name
    obtain rfl : name = utf8 "printf" := by simpa using tidy
    exact spares_print ((perform_print standard).symm.trans performed)
  · cases tidy

theorem scan_argument_keeps {number : Nat} (scanned : scanArgument core number = ⟨after, none⟩) :
    after.registers = core.registers := by
  unfold scanArgument at scanned
  split at scanned
  · cases scanned
  · split at scanned
    · cases scanned
    · unfold Core.write at scanned
      split at scanned
      · cases scanned
        rfl
      · cases scanned

theorem scan_keeps_esp {stored : Nat} {format : Bytes}
    (scanned : scanWith stored core format = ⟨after, none⟩) :
    after.registers.esp = core.registers.esp := by
  fun_induction scanWith stored core format with
  | case1 stored core letter rest isNumber middle here induction =>
      rw [induction scanned, scan_argument_keeps here]
  | case2 => cases scanned
  | case3 stored core letter rest noNumber induction => exact induction scanned
  | case4 stored core byte rest _ induction => exact induction scanned
  | case5 =>
      cases scanned
      rfl

theorem scan_routine_keeps_esp (scanned : scanRoutine core = ⟨after, none⟩) :
    after.registers.esp = core.registers.esp := by
  unfold scanRoutine at scanned
  dsimp only at scanned
  split at scanned
  · cases scanned
  · exact scan_keeps_esp scanned

def Line.isMeasured (line : Line) : Bool := line.isTidy || line == Line.call (utf8 "scanf")

theorem esp_after_line (standard : image.routines = standardRoutines) {line : Line}
    (measured : line.isMeasured = true) (performed : image.perform line core = ⟨after, none⟩) :
    after.registers.esp = core.registers.esp - BitVec.ofInt 32 line.stackBytes := by
  rw [Line.isMeasured, Bool.or_eq_true, beq_iff_eq] at measured
  rcases measured with tidy | rfl
  · exact (spares_line standard tidy performed).esp
  · rw [perform_scan standard] at performed
    rw [scan_routine_keeps_esp performed]
    exact (BitVec.sub_zero _).symm

end Lines

section Heights

/-- Lines that keep the stack, in bytes, between nothing and a capacity, from a height on. -/
def Within (capacity : Int) : Int → List Line → Prop
  | height, [] => 0 ≤ height ∧ height ≤ capacity
  | height, line :: rest =>
      (0 ≤ height ∧ height ≤ capacity) ∧ Within capacity (height + line.stackBytes) rest

variable {capacity height : Int}

theorem Within.here {lines : List Line} (within : Within capacity height lines) :
    0 ≤ height ∧ height ≤ capacity := by
  cases lines with
  | nil => exact within
  | cons line rest => exact within.1

theorem Within.enlarge {larger : Int} {lines : List Line} (within : Within capacity height lines)
    (more : capacity ≤ larger) : Within larger height lines := by
  induction lines generalizing height with
  | nil => exact ⟨within.1, Int.le_trans within.2 more⟩
  | cons line rest induction =>
      exact ⟨⟨within.1.1, Int.le_trans within.1.2 more⟩, induction within.2⟩

def totalBytes : List Line → Int
  | [] => 0
  | line :: rest => line.stackBytes + totalBytes rest

theorem Within.append {before after : List Line} (first : Within capacity height before)
    (second : Within capacity (height + totalBytes before) after) :
    Within capacity height (before ++ after) := by
  induction before generalizing height with
  | nil => simpa [totalBytes] using second
  | cons line rest induction =>
      refine ⟨first.1, induction first.2 ?_⟩
      rw [totalBytes, ← Int.add_assoc] at second
      exact second

theorem Within.merge_pairs {lines : List Line} (within : Within capacity height lines) :
    Within capacity height (Line.mergePairs lines) := by
  fun_induction Line.mergePairs lines generalizing height with
  | case1 first second rest merged merge induction =>
      obtain ⟨source, target, rfl, rfl, rfl⟩ := Line.merge_cases merge
      obtain ⟨here, _, later⟩ := within
      refine ⟨here, induction ?_⟩
      simp only [Line.stackBytes, Int.add_neg_cancel_right] at later
      simpa [Line.stackBytes] using later
  | case2 first second rest _ induction => exact ⟨within.1, induction within.2⟩
  | case3 => exact within

theorem total_bytes_append (before after : List Line) :
    totalBytes (before ++ after) = totalBytes before + totalBytes after := by
  induction before with
  | nil => exact (Int.zero_add _).symm
  | cons line rest induction =>
      rw [List.cons_append, totalBytes, totalBytes, induction, Int.add_assoc]

theorem total_bytes_merge_pairs (lines : List Line) :
    totalBytes (Line.mergePairs lines) = totalBytes lines := by
  fun_induction Line.mergePairs lines with
  | case1 first second rest merged merge induction =>
      obtain ⟨source, target, rfl, rfl, rfl⟩ := Line.merge_cases merge
      simp only [totalBytes, Line.stackBytes] at induction ⊢
      omega
  | case2 first second rest _ induction =>
      simp only [totalBytes] at induction ⊢
      omega
  | case3 => rfl

theorem total_bytes_still {lines : List Line} (still : ∀ line ∈ lines, line.stackBytes = 0) :
    totalBytes lines = 0 := by
  induction lines with
  | nil => rfl
  | cons line rest induction =>
      rw [totalBytes, still line (by simp), Int.zero_add]
      exact induction fun other member => still other (by simp [member])

theorem within_still {lines : List Line} (still : ∀ line ∈ lines, line.stackBytes = 0)
    (low : 0 ≤ height) (high : height ≤ capacity) : Within capacity height lines := by
  induction lines with
  | nil => exact ⟨low, high⟩
  | cons line rest induction =>
      refine ⟨⟨low, high⟩, ?_⟩
      rw [still line (by simp), Int.add_zero]
      exact induction fun other member => still other (by simp [member])

theorem operator_lines_still (mode : DivisionMode) (kind : TokenKind) :
    ∀ line ∈ operatorLines mode kind, line.stackBytes = 0 := by
  unfold operatorLines
  split <;> cases mode <;> decide

/-- Code that leaves one word more on the stack and takes some depth of it on the way. -/
structure Deepens (depth : Nat) (lines : List Line) : Prop where
  total : totalBytes lines = 4
  within : ∀ height : Int, 0 ≤ height → Within (height + 4 * depth) height lines

theorem deepens_push (source : Operand) : Deepens 1 [Line.op .push [source]] where
  total := rfl
  within := by
    intro height low
    simp only [Line.op, Within, Line.stackBytes]
    omega

theorem Deepens.unary {depth : Nat} {code : List Line} (deepens : Deepens depth code)
    (some : 1 ≤ depth) : Deepens depth
      (code ++ (Line.pop .eax :: ([Line.op .neg [.register .eax]] ++ [Line.push .eax]))) where
  total := by
    rw [total_bytes_append, deepens.total]
    rfl
  within := by
    intro height low
    apply (deepens.within height low).append
    rw [deepens.total]
    simp only [Line.pop, Line.op, Line.push, List.singleton_append, Within, Line.stackBytes]
    omega

theorem Deepens.binary {leftDepth rightDepth : Nat} {left right : List Line}
    (leftDeepens : Deepens leftDepth left) (rightDeepens : Deepens rightDepth right)
    (some : 1 ≤ rightDepth) (mode : DivisionMode) (kind : TokenKind) :
    Deepens (max leftDepth (1 + rightDepth)) (left ++ (right ++ (Line.pop .ebx :: Line.pop .eax ::
      (operatorLines mode kind ++ [Line.push .eax])))) where
  total := by
    have operator := total_bytes_still (operator_lines_still mode kind)
    have pops : totalBytes (Line.pop .ebx :: Line.pop .eax ::
        (operatorLines mode kind ++ [Line.push .eax])) =
        -4 + (-4 + totalBytes (operatorLines mode kind ++ [Line.push .eax])) := rfl
    have push : totalBytes [Line.push .eax] = 4 := rfl
    rw [total_bytes_append, total_bytes_append, leftDeepens.total, rightDeepens.total, pops,
      total_bytes_append, operator, push]
    rfl
  within := by
    intro height low
    have leftBelow : leftDepth ≤ max leftDepth (1 + rightDepth) := Nat.le_max_left _ _
    have rightBelow : 1 + rightDepth ≤ max leftDepth (1 + rightDepth) := Nat.le_max_right _ _
    generalize max leftDepth (1 + rightDepth) = depth at leftBelow rightBelow
    apply ((leftDeepens.within height low).enlarge (by omega)).append
    rw [leftDeepens.total]
    apply ((rightDeepens.within (height + 4) (by omega)).enlarge (by omega)).append
    rw [rightDeepens.total]
    have operator : Within (height + 4 * depth) height (operatorLines mode kind) :=
      within_still (operator_lines_still mode kind) low (by omega)
    have result : Within (height + 4 * depth) height
        (operatorLines mode kind ++ [Line.push .eax]) := by
      apply operator.append
      rw [total_bytes_still (operator_lines_still mode kind)]
      simp only [Line.push, Line.op, Within, Line.stackBytes]
      omega
    have back : height + 4 + 4 + -4 + -4 = height := by omega
    simp only [Line.pop, Line.op, Within, Line.stackBytes, back]
    exact ⟨by omega, by omega, result⟩

theorem deepens_code {names : List Bytes} (mode : DivisionMode) {expr : Expr}
    (arithmetic : expr.Arithmetic names) : Deepens expr.stackDepth (expr.code mode) := by
  induction arithmetic with
  | literal word => exact deepens_push _
  | reference name _ => exact deepens_push _
  | grouping _ inner => exact inner
  | @negation op right isMinus part inner =>
      rw [Expr.code_negation mode right isMinus]
      exact inner.unary (Expr.stack_depth_pos part)
  | @binary left right op _ _ second leftDeepens rightDeepens =>
      rw [Expr.code_binary]
      exact leftDeepens.binary rightDeepens (Expr.stack_depth_pos second) mode op.kind

theorem deepens_tree_lines {names : List Bytes} (options : CodegenOptions) {expr : Expr}
    (arithmetic : expr.Arithmetic names) : Deepens expr.stackDepth (treeLines options expr) := by
  have deepens := deepens_code options.division arithmetic
  unfold treeLines
  split
  · refine ⟨?_, fun height low => (deepens.within height low).merge_pairs⟩
    rw [total_bytes_merge_pairs, deepens.total]
  · exact deepens

theorem within_reads {names : List Bytes} (room : 8 ≤ capacity) :
    Within capacity 0 (names.flatMap readLines) ∧ totalBytes (names.flatMap readLines) = 0 := by
  induction names with
  | nil => exact ⟨⟨by omega, by omega⟩, rfl⟩
  | cons name names induction =>
      have total : totalBytes (readLines name) = 0 := rfl
      have first : Within capacity 0 (readLines name) := by
        simp only [readLines, Line.pushLabel, Line.call, Line.release, Line.op, Within,
          Line.stackBytes]
        omega
      rw [List.flatMap_cons]
      refine ⟨first.append ?_, ?_⟩
      · rw [total]
        exact induction.1
      · rw [total_bytes_append, total, induction.2]
        rfl

/-- A whole program takes the depth of its tree, or the two words of a call. -/
theorem within_main {names : List Bytes} {depth : Nat} {body : List Line}
    (deepens : Deepens depth body) :
    Within (4 * (max 2 depth : Nat)) 0 (mainLines names body) := by
  have callRoom : 2 ≤ max 2 depth := Nat.le_max_left _ _
  have treeRoom : depth ≤ max 2 depth := Nat.le_max_right _ _
  generalize max 2 depth = words at callRoom treeRoom
  obtain ⟨reads, total⟩ := @within_reads (4 * words) names (by omega)
  apply reads.append
  rw [total]
  apply ((deepens.within (0 + 0) (by omega)).enlarge (by omega)).append
  rw [deepens.total]
  simp only [answerLines, Line.pushLabel, Line.call, Line.release, Line.op, Within, Line.stackBytes]
  omega

end Heights

section Programs

theorem code_tidy {names : List Bytes} (mode : DivisionMode) {expr : Expr}
    (arithmetic : expr.Arithmetic names) : ∀ line ∈ expr.code mode, line.isTidy = true := by
  apply Expr.forall_code mode (fun line => line.isTidy = true) arithmetic
  · intro word
    rfl
  · intro name _
    rfl
  · cases mode <;> decide

theorem tree_lines_tidy {names : List Bytes} (options : CodegenOptions) {expr : Expr}
    (arithmetic : expr.Arithmetic names) :
    ∀ line ∈ treeLines options expr, line.isTidy = true := by
  have tidy := code_tidy options.division arithmetic
  unfold treeLines
  split
  · apply forall_merge_pairs _ tidy
    intro first second merged merge _ popTidy
    obtain ⟨source, target, _, rfl, rfl⟩ := Line.merge_cases merge
    -- The move writes to the register that the pop writes to.
    cases target with
    | register target => exact popTidy
    | _ => cases popTidy
  · exact tidy

theorem answer_lines_tidy : ∀ line ∈ answerLines, line.isTidy = true := by decide

theorem main_lines_measured {names : List Bytes} {body : List Line}
    (tidy : ∀ line ∈ body, line.isTidy = true) :
    ∀ line ∈ mainLines names body, line.isMeasured = true := by
  have measured {line : Line} (isTidy : line.isTidy = true) : line.isMeasured = true := by
    rw [Line.isMeasured, isTidy, Bool.true_or]
  intro line member
  rcases List.mem_append.mp member with inReads | inRest
  · obtain ⟨name, _, inRead⟩ := List.mem_flatMap.mp inReads
    simp only [readLines, List.mem_cons, List.not_mem_nil, or_false] at inRead
    rcases inRead with rfl | rfl | rfl | rfl | rfl | rfl | rfl <;> rfl
  · rcases List.mem_append.mp inRest with inBody | inAnswer
    · exact measured (tidy line inBody)
    · exact measured (answer_lines_tidy line inAnswer)

/-- In all states of a program the stack stays within the capacity that its lines stay within. -/
theorem stack_within {image : Image} {code : List Line} {machine after : Machine} {count : Nat}
    {capacity : Nat} (program : image.RunsStraight code)
    (standard : image.routines = standardRoutines)
    (measured : ∀ line ∈ code, line.isMeasured = true) (fresh : machine.Facing code code)
    (within : Within capacity 0 code) (room : capacity ≤ machine.top)
    (reached : machine.stepMany image count = (after, none)) :
    machine.top ≤ after.top + capacity := by
  -- The pointer is where the lines taken so far have moved it, and the others stay within too.
  have held : ∃ rest height, Within capacity height rest ∧
      after.registers.esp = machine.registers.esp - BitVec.ofInt 32 height := by
    apply Machine.steps_keep (fun _ rest core => ∃ height, Within capacity height rest ∧
      core.registers.esp = machine.registers.esp - BitVec.ofInt 32 height) program fresh _ _ _ reached
    · exact ⟨0, within, (BitVec.sub_zero _).symm⟩
    · intro _ line rest before next _ facing _ performed ⟨height, staying, esp⟩
      obtain ⟨taken, split, _⟩ := facing.place
      refine ⟨height + line.stackBytes, staying.2, ?_⟩
      rw [esp_after_line standard (measured line (by simp [split])) performed, esp,
        BitVec.ofInt_add]
      bv_omega
    · intro _ before _ _ same
      exact same
  obtain ⟨rest, height, staying, esp⟩ := held
  obtain ⟨low, high⟩ := staying.here
  unfold Core.top at room ⊢
  rw [esp]
  obtain ⟨bytes, rfl⟩ := Int.eq_ofNat_of_zero_le low
  have small := machine.registers.esp.isLt
  have word : (BitVec.ofInt 32 (bytes : Int)).toNat = bytes := by
    rw [BitVec.ofInt_natCast, BitVec.toNat_ofNat]
    exact Nat.mod_eq_of_lt (by omega)
  rw [BitVec.toNat_sub, word]
  omega

end Programs

end ExprCompiler
