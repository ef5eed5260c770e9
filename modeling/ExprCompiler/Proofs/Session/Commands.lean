import ExprCompiler.Session
import ExprCompiler.Proofs.Codegen.Compiled
import ExprCompiler.Proofs.Token.Margins

/-!
The lines of a session. A command is found by its name, and its argument is handed on without the
white space around it. Only a line that evaluates changes the session, and that in its environment
alone, so a session stands where its evaluations have brought it.
-/

namespace ExprCompiler.Session

variable {session : Session}

def fresh (options : CompileOptions) (reporting : ReportOptions) : Session :=
  { options := options, reporting := reporting }

def after (session : Session) (lines : List Bytes) : Session :=
  lines.foldl (fun session line => (session.handle line).2) session

def commandLine (name : String) (argument : Bytes) : Bytes := utf8 name ++ 0x20 :: argument

/-- Whether a line asks for an evaluation: its first word is `:eval` up to case. -/
def isEvaluation (line : Bytes) : Bool :=
  let text := Text.trim line
  text.head? == some 0x3a && Text.lowerCase (text.takeWhile (· != 0x20)) == utf8 ":eval"

section Names

structure IsCommandName (name : Bytes) : Prop where
  solid : Text.Solid name
  starts : name.head? = some 0x3a
  single : ∀ byte ∈ name, (byte != 0x20) = true

theorem command_names (entry : String × Command) (listed : entry ∈ commandNames) :
    IsCommandName (utf8 entry.1) ∧ command? (utf8 entry.1) = some entry.2 := by
  have all : ∀ entry ∈ commandNames,
      ((utf8 entry.1).all fun byte =>
        decide (byte.toNat < 0x80) && !Text.isBlankByte byte) = true ∧
      (utf8 entry.1).head? = some 0x3a ∧ (utf8 entry.1).all (· != 0x20) = true ∧
      command? (utf8 entry.1) = some entry.2 := by
    decide +kernel
  obtain ⟨solid, starts, single, found⟩ := all entry listed
  exact ⟨⟨Text.solid_of_all solid, starts, List.all_eq_true.mp single⟩, found⟩

variable {name source : Bytes}

/-- A command line without its margins is the name, alone or before the argument. -/
theorem command_line_trimmed (isName : IsCommandName name) (ascii : Text.Ascii source) :
    ∃ behind, Text.trim (name ++ 0x20 :: source) = name ++ behind ∧
      (∀ byte ∈ behind.head?, byte = 0x20) ∧ Text.trim behind = Text.trim source := by
  have some : name ≠ [] := fun empty => by simpa [empty] using isName.starts
  obtain ⟨front, back, split, tight, inFront, atEnd⟩ := Text.trim_splits ascii
  have blank {byte : UInt8} (member : byte ∈ front ∨ byte ∈ back) :
      byte.toNat < 0x80 ∧ Text.isBlankByte byte = true := by
    refine ⟨ascii byte ?_, member.elim (inFront byte) (atEnd byte)⟩
    rw [split]
    simpa using member.imp_right .inr
  have gap : ∀ byte ∈ 0x20 :: front, byte.toNat < 0x80 ∧ Text.isBlankByte byte = true :=
    List.forall_mem_cons.mpr ⟨by decide, fun byte member => blank (.inl member)⟩
  by_cases empty : Text.trim source = []
  · refine ⟨[], ?_, by simp, ?_⟩
    · have blanks : ∀ byte ∈ 0x20 :: source,
          byte.toNat < 0x80 ∧ Text.isBlankByte byte = true := by
        rw [split, empty, List.append_nil]
        intro byte member
        rcases List.mem_cons.mp member with rfl | inMargins
        · decide
        · exact blank (List.mem_append.mp inMargins)
      have trimmed := @Text.Tight.trim_framed _ [] _ isName.solid.tight some (by simp) blanks
      rwa [List.append_nil]
    · rw [empty, Text.Tight.trim (Text.Solid.tight ⟨Text.ascii_nil, by simp⟩)]
  · refine ⟨0x20 :: front ++ Text.trim source, ?_, by simp, ?_⟩
    · have whole : Text.Tight (name ++ (0x20 :: front) ++ Text.trim source) :=
        isName.solid.tight.around tight some empty fun byte member => (gap byte member).1
      have trimmed := @Text.Tight.trim_framed _ [] back whole (by simp) (by simp)
        fun byte member => blank (.inr member)
      rw [List.nil_append] at trimmed
      rw [← List.append_assoc, ← trimmed]
      congr 1
      conv => lhs; rw [split]
      simp
    · exact tight.trim_indented gap

theorem handle_command {entry : String × Command} (listed : entry ∈ commandNames)
    (ascii : Text.Ascii source) :
    session.handle (commandLine entry.1 source) = session.obey (Text.trim source) entry.2 := by
  obtain ⟨isName, found⟩ := command_names entry listed
  obtain ⟨behind, trimmed, gap, argument⟩ := command_line_trimmed isName ascii
  have starts : (utf8 entry.1 ++ behind).head? = some 0x3a := by
    rw [List.head?_append, isName.starts, Option.some_or]
  have stops : behind.takeWhile (· != 0x20) = [] ∧ behind.dropWhile (· != 0x20) = behind := by
    cases behind with
    | nil => exact ⟨rfl, rfl⟩
    | cons byte more =>
        obtain rfl := gap byte rfl
        exact ⟨rfl, rfl⟩
  have named : (utf8 entry.1 ++ behind).takeWhile (· != 0x20) = utf8 entry.1 := by
    rw [List.takeWhile_append_of_pos isName.single, stops.1, List.append_nil]
  have handed : (utf8 entry.1 ++ behind).dropWhile (· != 0x20) = behind := by
    rw [List.dropWhile_append_of_pos isName.single, stops.2]
  simp only [handle, commandLine, trimmed, starts, named, handed, found, argument]
  rw [if_neg (by simp)]

end Names

section Lines

/-- A line that evaluates nothing leaves the session as it is. -/
theorem handle_keeps (session : Session) {line : Bytes} (other : isEvaluation line = false) :
    (session.handle line).2 = session := by
  unfold handle
  dsimp only
  split
  · rfl
  · rename_i starts
    rw [Decidable.not_not] at starts
    split
    · rename_i command found
      cases command with
      | evaluate =>
          obtain ⟨entry, listed, isEvaluate⟩ := Option.map_eq_some_iff.mp found
          have named := List.find?_some listed
          have table : ∀ entry ∈ commandNames, entry.2 = .evaluate → entry.1 = ":eval" := by
            decide
          rw [table entry (List.mem_of_find?_eq_some listed) isEvaluate, beq_iff_eq] at named
          simp [isEvaluation, starts, ← named] at other
      | _ => rfl
    · rfl

theorem handle_options (session : Session) (line : Bytes) :
    (session.handle line).2.options = session.options ∧
      (session.handle line).2.reporting = session.reporting := by
  unfold handle
  dsimp only
  split
  · exact ⟨rfl, rfl⟩
  · split
    · rename_i command _
      cases command with
      | evaluate =>
          rw [obey, evaluateLine]
          split
          · exact ⟨rfl, rfl⟩
          · dsimp only
            split <;> exact ⟨rfl, rfl⟩
      | _ => exact ⟨rfl, rfl⟩
    · exact ⟨rfl, rfl⟩

theorem compile_line_log (session : Session) (source : Bytes) :
    (session.compileLine source).log = (compileLogged session.options source).2 := by
  unfold compileLine
  split <;> rename_i logged <;> rw [logged]
  split <;> rfl

theorem run_line_log (session : Session) (source : Bytes) :
    (session.runLine source).log = (compileLogged session.options source).2 := by
  unfold runLine
  split <;> rename_i logged <;> rw [logged]
  split
  · rfl
  · split <;> rfl

theorem evaluate_line_log (session : Session) (source : Bytes) :
    (session.evaluateLine source).1.log = [] := by
  unfold evaluateLine
  split
  · rfl
  · dsimp only
    split <;> rfl

theorem tokens_line_log (session : Session) (source : Bytes) :
    (session.tokensLine source).log = [] := by
  unfold tokensLine
  dsimp only
  split <;> rfl

theorem tree_line_log (session : Session) (source : Bytes) :
    (session.treeLine source).log = [] := by
  unfold treeLine
  split <;> rfl

/-- What a session logs is for debugging only: its lines log what compiling logs, or nothing. -/
theorem handle_log_debug (session : Session) (line : Bytes) :
    ∀ record ∈ (session.handle line).1.log, record.level = .debug := by
  unfold handle
  dsimp only
  split
  · rw [compile_line_log]
    exact compile_log_debug _ _
  · split
    · rename_i command _
      cases command with
      | run =>
          rw [obey, run_line_log]
          exact compile_log_debug _ _
      | evaluate => simp [obey, evaluate_line_log]
      | tokens => simp [obey, tokens_line_log]
      | tree => simp [obey, tree_line_log]
      | quit | help | environment => simp [obey, environmentLine]
    · simp

theorem after_options (session : Session) (lines : List Bytes) :
    (session.after lines).options = session.options ∧
      (session.after lines).reporting = session.reporting := by
  induction lines generalizing session with
  | nil => exact ⟨rfl, rfl⟩
  | cons line lines induction =>
      obtain ⟨options, reporting⟩ := handle_options session line
      obtain ⟨optionsLater, reportingLater⟩ := induction (session.handle line).2
      exact ⟨optionsLater.trans options, reportingLater.trans reporting⟩

/-- Lines that evaluate nothing can be left out of a session. -/
theorem after_evaluations (session : Session) (lines : List Bytes) :
    session.after lines = session.after (lines.filter isEvaluation) := by
  induction lines generalizing session with
  | nil => rfl
  | cons line lines induction =>
      cases evaluates : isEvaluation line with
      | true =>
          rw [List.filter_cons_of_pos evaluates]
          exact induction (session.handle line).2
      | false =>
          rw [List.filter_cons_of_neg (by simp [evaluates])]
          have kept := handle_keeps session evaluates
          have later := induction (session.handle line).2
          rw [kept] at later
          change (session.handle line).2.after lines = _
          rw [kept, later]

end Lines

end ExprCompiler.Session
