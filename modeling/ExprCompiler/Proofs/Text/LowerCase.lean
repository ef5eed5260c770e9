import ExprCompiler.Proofs.Text.Framed

/-!
Lower case in texts of any characters. The mapping takes characters to characters that it leaves
alone, so a text in lower case is its own lower-case form; and it makes no white space.
-/

namespace ExprCompiler.Text

abbrev LowerRun := Nat × Nat × Nat × Nat

namespace LowerRun

variable (run : LowerRun)

def first : Nat := run.1

def last : Nat := run.2.1

def step : Nat := run.2.2.1

def form : Nat := run.2.2.2

def highest : Nat := run.form + (run.last - run.first)

/-- Whether every second code point at most is a form. -/
def alternates : Bool := Nat.beq run.step 2 || Nat.beq run.first run.last

/-- Whether no form of `run` has a form in `other`: they lie apart, or the forms of the one stand
between the members of the other. -/
def avoids (other : LowerRun) : Bool :=
  Nat.blt run.highest other.first || Nat.blt other.last run.form ||
    (Nat.beq other.step 2 && run.alternates && Nat.beq ((run.form + other.first) % 2) 1)

def blankRanges : List (Nat × Nat) :=
  [(9, 13), (0x20, 0x20), (0x85, 0x85), (0xa0, 0xa0), (0x1680, 0x1680), (0x2000, 0x200a),
    (0x2028, 0x2029), (0x202f, 0x202f), (0x205f, 0x205f), (0x3000, 0x3000)]

/-- Whether the forms of a run are characters in lower case and no white space. -/
def isSound : Bool :=
  Nat.blt 0x5a run.form && (Nat.blt run.highest 0xd800 ||
    (Nat.blt 0xdfff run.form && Nat.blt run.highest 0x110000)) &&
    blankRanges.all (fun range => Nat.blt run.highest range.1 || Nat.blt range.2 run.form) &&
    lowerRuns.all run.avoids

variable {run} {other : LowerRun} {code offset : Nat}

def Holds (run : LowerRun) (code : Nat) : Prop :=
  run.first ≤ code ∧ code ≤ run.last ∧ (code - run.first) % run.step = 0

theorem avoids_form (apart : run.avoids other = true) (inside : offset ≤ run.last - run.first)
    (inStep : offset % run.step = 0) : ¬other.Holds (run.form + offset) := by
  simp only [avoids, alternates, highest, Bool.or_eq_true, Bool.and_eq_true, Nat.blt_eq,
    Nat.beq_eq] at apart
  rintro ⟨above, below, inOther⟩
  rcases apart with (before | behind) | ⟨⟨double, alternates⟩, parity⟩
  · omega
  · omega
  · have even : offset % 2 = 0 := by
      rcases alternates with double | single
      · rwa [double] at inStep
      · omega
    rw [double] at inOther
    omega

end LowerRun

theorem lower_runs_sound : lowerRuns.all LowerRun.isSound = true := by decide +kernel

section Codes

variable {code : Nat} {runs : List LowerRun}

theorem lower_in_no_run (outside : ∀ run ∈ runs, ¬run.Holds code) :
    lowerInRuns runs code = code := by
  induction runs with
  | nil => rfl
  | cons run runs induction =>
      obtain ⟨first, last, step, form⟩ := run
      have here := outside (first, last, step, form) (by simp)
      rw [lowerInRuns, if_neg, induction fun other member => outside other (by simp [member])]
      simp only [Bool.and_eq_true, decide_eq_true_eq, beq_iff_eq, and_assoc]
      exact here

theorem lower_in_runs_cases (runs : List LowerRun) (code : Nat) :
    lowerInRuns runs code = code ∨ ∃ run ∈ runs, ∃ offset, offset ≤ run.last - run.first ∧
      offset % run.step = 0 ∧ lowerInRuns runs code = run.form + offset := by
  induction runs with
  | nil => exact .inl rfl
  | cons run runs induction =>
      obtain ⟨first, last, step, form⟩ := run
      rw [lowerInRuns]
      split
      · rename_i inside
        simp only [Bool.and_eq_true, decide_eq_true_eq, beq_iff_eq, and_assoc] at inside
        exact .inr ⟨_, List.mem_cons_self, code - first, Nat.sub_le_sub_right inside.2.1 first,
          inside.2.2, rfl⟩
      · rcases induction with same | ⟨run, member, others⟩
        · exact .inl same
        · exact .inr ⟨run, List.mem_cons_of_mem _ member, others⟩

theorem blank_in_range (blank : isBlank code = true) :
    ∃ range ∈ LowerRun.blankRanges, range.1 ≤ code ∧ code ≤ range.2 := by
  simp only [isBlank, Bool.or_eq_true, Bool.and_eq_true, decide_eq_true_eq, beq_iff_eq] at blank
  simp only [LowerRun.blankRanges, List.mem_cons, List.not_mem_nil, or_false, exists_eq_or_imp,
    exists_eq_left]
  omega

structure IsSmall (code : Nat) : Prop where
  kept : lowerCode code = code
  visible : isBlank code = false
  scalar : code.isValidChar

theorem small_of_form {run : LowerRun} {offset : Nat} (member : run ∈ lowerRuns)
    (inside : offset ≤ run.last - run.first) (inStep : offset % run.step = 0) :
    IsSmall (run.form + offset) := by
  have sound := List.all_eq_true.mp lower_runs_sound run member
  simp only [LowerRun.isSound, LowerRun.highest, Bool.and_eq_true, Bool.or_eq_true, Nat.blt_eq,
    List.all_eq_true] at sound
  obtain ⟨⟨⟨noCapital, scalar⟩, noBlank⟩, avoids⟩ := sound
  constructor
  · have same := lower_in_no_run fun other member =>
      LowerRun.avoids_form (avoids other member) inside inStep
    rw [lowerCode]
    split
    · rw [if_neg]
      simp only [Bool.and_eq_true, decide_eq_true_eq]
      omega
    · exact same
  · rw [← Bool.not_eq_true]
    intro blank
    obtain ⟨range, inRanges, low, high⟩ := blank_in_range blank
    have apart := noBlank range inRanges
    omega
  · unfold Nat.isValidChar
    omega

theorem lower_code_cases (code : Nat) : lowerCode code = code ∨ IsSmall (lowerCode code) := by
  by_cases ascii : code < 0x80
  · rw [lowerCode, if_pos ascii]
    split
    · rename_i capital
      simp only [Bool.and_eq_true, decide_eq_true_eq] at capital
      refine .inr ⟨?_, ?_, .inl (by omega)⟩
      · rw [lowerCode, if_pos (by omega), if_neg (by simp; omega)]
      · rw [← Bool.not_eq_true]
        intro blank
        simp only [isBlank, Bool.or_eq_true, Bool.and_eq_true, decide_eq_true_eq,
          beq_iff_eq] at blank
        omega
    · exact .inl rfl
  · rw [lowerCode, if_neg ascii]
    rcases lower_in_runs_cases lowerRuns code with
      same | ⟨run, member, offset, inside, inStep, form⟩
    · exact .inl same
    · rw [form]
      exact .inr (small_of_form member inside inStep)

theorem lower_code_lower (code : Nat) : lowerCode (lowerCode code) = lowerCode code := by
  rcases lower_code_cases code with same | small
  · rw [same, same]
  · exact small.kept

theorem lower_code_visible (visible : isBlank code = false) : isBlank (lowerCode code) = false := by
  rcases lower_code_cases code with same | small
  · rwa [same]
  · exact small.visible

theorem lower_code_scalar (scalar : code.isValidChar) : (lowerCode code).isValidChar := by
  rcases lower_code_cases code with same | small
  · rwa [same]
  · exact small.scalar

end Codes

section Texts

theorem encode_scalar_char (char : Char) :
    encodeScalar char.val.toNat = String.utf8EncodeChar char := by
  have valid : char.val.toNat.isValidChar := char.valid
  unfold String.utf8EncodeChar encodeScalar
  generalize char.val.toNat = code at valid ⊢
  unfold Nat.isValidChar at valid
  dsimp only
  by_cases one : code ≤ 127
  · rw [if_pos (by omega), if_pos one]
  · rw [if_neg (by omega), if_neg one]
    by_cases two : code ≤ 2047
    · rw [if_pos (by omega), if_pos two, Nat.mod_eq_of_lt (by omega : code / 64 < 32),
        Nat.add_comm 0xc0, Nat.add_comm 0x80]
    · rw [if_neg (by omega), if_neg two, if_neg (by simp; omega)]
      by_cases three : code ≤ 65535
      · rw [if_pos (by omega), if_pos three, Nat.mod_eq_of_lt (by omega : code / 4096 < 16),
          Nat.add_comm 0xe0, Nat.add_comm 0x80, Nat.add_comm 0x80]
      · rw [if_neg (by omega), if_neg three, Nat.mod_eq_of_lt (by omega : code / 262144 < 8),
          Nat.add_comm 0xf0, Nat.add_comm 0x80, Nat.add_comm 0x80, Nat.add_comm 0x80]

theorem glyph_scalar {text : Bytes} {glyph : Glyph} (member : glyph ∈ glyphs text) :
    glyph.code.isValidChar := by
  fun_induction glyphs text with
  | case1 => cases member
  | case2 lead rest induction =>
      rcases List.mem_cons.mp member with rfl | later
      · rcases char_of_form (first_glyph_form lead rest) with alone | ⟨char, same⟩
        · rw [alone]
          change Nat.isValidChar 0xfffd
          exact .inr ⟨by decide, by decide⟩
        · rw [same]
          exact char.valid
      · exact induction later

theorem glyphs_of_scalars {codes : List Nat} (scalars : ∀ code ∈ codes, code.isValidChar) :
    glyphs (codes.flatMap encodeScalar) = codes.map fun code => ⟨code, encodeScalar code⟩ := by
  induction codes with
  | nil =>
      rw [List.flatMap_nil, glyphs]
      rfl
  | cons code codes induction =>
      obtain ⟨char, rfl⟩ := char_of_code (scalars code (by simp))
      have later := induction fun other member => scalars other (by simp [member])
      obtain ⟨lead, rest, encoded⟩ :=
        List.exists_cons_of_ne_nil (@String.utf8EncodeChar_ne_nil char)
      have front : lead :: (rest ++ codes.flatMap encodeScalar) =
          String.utf8EncodeChar char ++ codes.flatMap encodeScalar := by
        rw [encoded, List.cons_append]
      rw [List.flatMap_cons, List.map_cons, encode_scalar_char, ← front, glyphs,
        first_glyph_encoded front, encoded, List.length_cons, Nat.add_sub_cancel, List.drop_left,
        later]

theorem glyphs_lower_case (text : Bytes) : glyphs (lowerCase text) =
    ((glyphs text).map fun glyph => lowerCode glyph.code).map
      fun code => ⟨code, encodeScalar code⟩ := by
  rw [← glyphs_of_scalars, List.flatMap_map, lowerCase]
  intro code member
  obtain ⟨glyph, inText, rfl⟩ := List.mem_map.mp member
  exact lower_code_scalar (glyph_scalar inText)

/-- A text in lower case is its own lower-case form. -/
theorem lower_case_lower (text : Bytes) : lowerCase (lowerCase text) = lowerCase text := by
  rw [lowerCase, glyphs_lower_case, List.flatMap_map, List.flatMap_map, lowerCase]
  simp only [lower_code_lower]

theorem Unbroken.lower_case {text : Bytes} (unbroken : Unbroken text) :
    Unbroken (lowerCase text) := by
  intro glyph member
  rw [glyphs_lower_case, List.map_map] at member
  obtain ⟨before, inText, rfl⟩ := List.mem_map.mp member
  exact lower_code_visible (unbroken before inText)

theorem lower_case_ne_nil {text : Bytes} (some : text ≠ []) : lowerCase text ≠ [] := by
  intro empty
  have read := glyphs_lower_case text
  rw [empty, glyphs] at read
  exact glyphs_ne_nil some (List.map_eq_nil_iff.mp (List.map_eq_nil_iff.mp read.symm))

end Texts

end ExprCompiler.Text
