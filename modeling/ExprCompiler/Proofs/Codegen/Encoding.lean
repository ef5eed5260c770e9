import ExprCompiler.Proofs.Charset.Lawful
import ExprCompiler.Proofs.Codegen.Listing

/-!
From a tree to the program that its listing is read as. The listing is a plain text, which lawful
character sets give back when they decode it. Most of them also write it as it stands; what the
others write is no listing at all.
-/

namespace ExprCompiler

def programCode (options : CodegenOptions) (names : List Bytes) (expr : Expr) : List Line :=
  names.flatMap readLines ++
    ((if options.peephole then Line.mergePairs (expr.code options.division)
      else expr.code options.division) ++ finishLines)

variable {names : List Bytes} {expr : Expr}

theorem code_starts (mode : DivisionMode) (arithmetic : expr.Arithmetic names) :
    ∃ operand rest, expr.code mode = Line.op .push [operand] :: rest := by
  induction arithmetic with
  | literal word => exact ⟨_, _, rfl⟩
  | reference name _ => exact ⟨_, _, rfl⟩
  | grouping _ inner => exact inner
  | negation _ _ right =>
      obtain ⟨operand, rest, starts⟩ := right
      simp only [Expr.code, starts, List.cons_append]
      exact ⟨_, _, rfl⟩
  | binary _ _ _ left _ =>
      obtain ⟨operand, rest, starts⟩ := left
      simp only [Expr.code, starts, List.cons_append]
      exact ⟨_, _, rfl⟩

theorem lines_of_program (options : CodegenOptions) (arithmetic : expr.Arithmetic names) :
    (({ peephole := options.peephole : Buffer }).emitAll
      (programLines options.division names expr)).lines =
      headerLines ++ programCode options names expr ++ dataLines names := by
  have before : ∀ line ∈ headerLines ++ names.flatMap readLines, line.isPop = false := by
    intro line member
    rcases List.mem_append.mp member with inHeader | inReads
    · have header : ∀ line ∈ headerLines, line.isPop = false := by decide
      exact header line inHeader
    · obtain ⟨name, _, inRead⟩ := List.mem_flatMap.mp inReads
      simp only [readLines, List.mem_cons, List.not_mem_nil, or_false] at inRead
      rcases inRead with rfl | rfl | rfl | rfl | rfl | rfl | rfl <;> rfl
  have after : ∀ line ∈ finishLines ++ dataLines names, line.isPop = false := by
    intro line member
    rcases List.mem_append.mp member with inFinish | inData
    · have finish : ∀ line ∈ finishLines, line.isPop = false := by decide
      exact finish line inFinish
    · rw [data_lines_eq] at inData
      simp only [List.mem_cons, List.mem_append, List.mem_map] at inData
      rcases inData with rfl | rfl | rfl | ⟨name, _, rfl⟩ | rfl | ⟨name, _, rfl⟩ <;> rfl
  have whole : programLines options.division names expr =
      (headerLines ++ names.flatMap readLines) ++
        (expr.code options.division ++ (finishLines ++ dataLines names)) := by
    simp [programLines, headerLines]
  rw [Buffer.lines_emit_all, whole, programCode]
  cases options.peephole with
  | false => simp
  | true =>
      obtain ⟨operand, rest, starts⟩ := code_starts options.division arithmetic
      have codeHead : ∀ line ∈ (expr.code options.division ++
          (finishLines ++ dataLines names)).head?, line.isPop = false := by
        rw [starts]
        intro line member
        cases member
        rfl
      have finishHead : ∀ line ∈ (finishLines ++ dataLines names).head?, line.isPop = false := by
        intro line member
        exact after line (List.mem_of_mem_head? member)
      rw [if_pos rfl, if_pos rfl, Line.merge_pairs_append codeHead,
        Line.merge_pairs_append finishHead, Line.merge_pairs_of_no_pop before,
        Line.merge_pairs_of_no_pop after]
      simp

theorem program_code_is_code (options : CodegenOptions)
    (identifiers : ∀ name ∈ names, IsIdentifier name) (arithmetic : expr.Arithmetic names) :
    ∀ line ∈ programCode options names expr, line.IsCode names := by
  have exprCode := expr_lines_are_code identifiers options.division arithmetic
  intro line member
  simp only [programCode, List.mem_append] at member
  rcases member with inReads | inExpr | inFinish
  · obtain ⟨name, inNames, inRead⟩ := List.mem_flatMap.mp inReads
    exact read_lines_are_code (identifiers name inNames) inNames line inRead
  · split at inExpr
    · exact forall_merge_pairs (fun _ _ _ => is_code_merge) exprCode line inExpr
    · exact exprCode line inExpr
  · exact finish_lines_are_code line inFinish

theorem listing_text_eq (options : CodegenOptions) (arithmetic : expr.Arithmetic names) :
    listingText options names expr =
      (headerLines ++ programCode options names expr ++ dataLines names).flatMap Line.row := by
  rw [listingText, Buffer.text, lines_of_program options arithmetic]

theorem listing_text_plain (options : CodegenOptions)
    (identifiers : ∀ name ∈ names, IsIdentifier name) (arithmetic : expr.Arithmetic names) :
    Text.Plain (listingText options names expr) := by
  have rows := listing_rows identifiers (program_code_is_code options identifiers arithmetic)
  intro byte member
  rw [listing_text_eq options arithmetic] at member
  obtain ⟨line, inLines, inRow⟩ := List.mem_flatMap.mp member
  rw [row_content] at inRow
  rcases List.mem_append.mp inRow with inContent | isBreak
  · exact .inr (rows line inLines byte inContent)
  · exact .inl (List.mem_singleton.mp isBreak)

theorem listing_text_starts (options : CodegenOptions) (arithmetic : expr.Arithmetic names) :
    ∃ rest, listingText options names expr = utf8 "section .text" ++ 10 :: rest := by
  rw [listing_text_eq options arithmetic]
  exact ⟨_, rfl⟩

/-- What is loaded of an assembly: its bytes as they stand, or its text. -/
def Assembly.Holds (charsets : CharsetRegistry) (assembly : Assembly) (listing : Bytes) : Prop :=
  listing = assembly.bytes ∨ assembly.text charsets = .ok listing

section Generated

variable {options : CodegenOptions} {assembly : Assembly} {charset : Charset} {listing : Bytes}
  {program : Program}

theorem generate_cases (generated : generate options names expr = .ok assembly) :
    expr.unsupported names = [] ∧
      ∃ charset, options.charsets.resolve options.encoding = .ok charset ∧
        charset.encode (listingText options names expr) = .ok assembly.bytes ∧
        assembly.encoding = charset.canonical := by
  unfold generate at generated
  split at generated
  · rename_i supported
    refine ⟨supported, ?_⟩
    split at generated
    · cases generated
    · rename_i charset resolved
      split at generated
      · rename_i bytes encoded
        cases generated
        exact ⟨charset, resolved, encoded, rfl⟩
      · cases generated
  · cases generated

/-- Bytes that can be read as a listing were written by a set that keeps plain texts. -/
theorem keeps_plain_of_read (lawful : charset.Lawful)
    (identifiers : ∀ name ∈ names, IsIdentifier name) (arithmetic : expr.Arithmetic names)
    {bytes : Bytes} (encoded : charset.encode (listingText options names expr) = .ok bytes)
    (read : readListing bytes = .ok program) : charset.KeepsPlain := by
  refine lawful.keeps_or_foreign.resolve_right fun writesForeign => ?_
  have plain := listing_text_plain options identifiers arithmetic
  obtain ⟨rest, starts⟩ := listing_text_starts options arithmetic
  rw [starts] at plain encoded
  have foreign : IsForeign bytes :=
    writesForeign 0x73 (utf8 "ection .text" ++ 10 :: rest) bytes (by decide) (by decide) plain
      encoded
  exact foreign.unreadable program read

theorem generate_of_keeps_plain (identifiers : ∀ name ∈ names, IsIdentifier name)
    (supported : expr.unsupported names = [])
    (resolved : options.charsets.resolve options.encoding = .ok charset)
    (keeps : charset.KeepsPlain) :
    generate options names expr = .ok ⟨listingText options names expr, charset.canonical⟩ := by
  have arithmetic := Expr.arithmetic_of_supported supported
  have encoded := keeps _ (listing_text_plain options identifiers arithmetic)
  simp only [generate, supported, resolved, encoded]

theorem text_of_generated (lawful : options.charsets.Lawful)
    (identifiers : ∀ name ∈ names, IsIdentifier name)
    (generated : generate options names expr = .ok assembly) :
    assembly.text options.charsets = .ok (listingText options names expr) := by
  obtain ⟨supported, charset, resolved, encoded, name⟩ := generate_cases generated
  have plain := listing_text_plain options identifiers (Expr.arithmetic_of_supported supported)
  have decoded := (lawful.sets resolved).decode_encode plain encoded
  simp only [Assembly.text, name, lawful.canonical resolved, decoded]

theorem read_listing_text (identifiers : ∀ name ∈ names, IsIdentifier name)
    (distinct : names.Nodup) (arithmetic : expr.Arithmetic names) :
    readListing (listingText options names expr) =
      .ok (generatedProgram (programCode options names expr) names) := by
  rw [listing_text_eq options arithmetic, read_generated identifiers distinct
    (program_code_is_code options identifiers arithmetic)]

theorem listing_of_read (lawful : options.charsets.Lawful)
    (identifiers : ∀ name ∈ names, IsIdentifier name)
    (generated : generate options names expr = .ok assembly)
    (held : assembly.Holds options.charsets listing) (read : readListing listing = .ok program) :
    listing = listingText options names expr := by
  rcases held with rfl | decoded
  · obtain ⟨supported, charset, resolved, encoded, _⟩ := generate_cases generated
    have arithmetic := Expr.arithmetic_of_supported supported
    have keeps := keeps_plain_of_read (lawful.sets resolved) identifiers arithmetic encoded read
    rw [keeps _ (listing_text_plain options identifiers arithmetic)] at encoded
    exact (Except.ok.inj encoded).symm
  · rw [text_of_generated lawful identifiers generated] at decoded
    exact (Except.ok.inj decoded).symm

theorem program_of_listing (lawful : options.charsets.Lawful)
    (identifiers : ∀ name ∈ names, IsIdentifier name) (distinct : names.Nodup)
    (generated : generate options names expr = .ok assembly)
    (held : assembly.Holds options.charsets listing) (read : readListing listing = .ok program) :
    program = generatedProgram (programCode options names expr) names := by
  have arithmetic := Expr.arithmetic_of_supported (generate_cases generated).1
  rw [listing_of_read lawful identifiers generated held read,
    read_listing_text identifiers distinct arithmetic] at read
  exact (Except.ok.inj read).symm

end Generated

end ExprCompiler
