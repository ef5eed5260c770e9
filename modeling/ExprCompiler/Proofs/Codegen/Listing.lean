import ExprCompiler.Proofs.Assembly.Data
import ExprCompiler.Proofs.Codegen.Lines
import ExprCompiler.Proofs.Table

/-!
A generated listing is read back as the program it was written for: the instructions of its code
in order, the formats and prompts as constants and one cell for every variable.
-/

namespace ExprCompiler

open ListingReader

/-- One data item for every name, on lines that are counted from a number on. -/
def itemsFrom (label : Bytes → Bytes) (contents : Bytes → Contents) (number : Nat) :
    List Bytes → List DataItem
  | [] => []
  | name :: rest =>
      ⟨number, label name, contents name⟩ :: itemsFrom label contents (number + 1) rest

def promptContents (name : Bytes) : Contents := .bytes (name ++ utf8 " = " ++ [0])

def formatItems (number : Nat) (names : List Bytes) : List DataItem :=
  ⟨number, utf8 "read_format", .bytes (utf8 "%d" ++ [0])⟩ ::
    ⟨number + 1, utf8 "write_format", .bytes (utf8 "%d" ++ [10, 0])⟩ ::
    itemsFrom promptLabel promptContents (number + 2) names

def cellItems (number : Nat) (names : List Bytes) : List DataItem :=
  itemsFrom variableLabel (fun _ => .zeros 4) number names

/-- The program that a listing with some code stands for. The code starts on line six, and a
section header stands before either kind of data. -/
def generatedProgram (code : List Line) (names : List Bytes) : Program where
  globals := [utf8 "main"]
  imports := [utf8 "printf", utf8 "scanf"]
  instructions := (instructionsFrom 6 code).toArray
  labels := [(utf8 "main", 0)]
  constants := formatItems (7 + code.length) names
  reservations := cellItems (10 + code.length + names.length) names

def Line.content : Line → Bytes
  | .sectionHeader name => (sectionHeader name).text
  | line => utf8 "  " ++ line.text

theorem row_content (line : Line) : line.row = line.content ++ [10] := by
  cases line <;> simp [Line.row, Line.content]

namespace ListingReader

theorem read_lines_append (reader : ListingReader) (number : Nat) (before after : List Bytes)
    {between : ListingReader} (read : reader.readLines number before = .ok between) :
    reader.readLines number (before ++ after) =
      between.readLines (number + before.length) after := by
  induction before generalizing reader number with
  | nil =>
      cases read
      rfl
  | cons line before induction =>
      cases step : reader.readLine number line with
      | error problem => simp [ListingReader.readLines, step] at read
      | ok next =>
          have later := induction next (number + 1) (by simpa [ListingReader.readLines, step] using read)
          have count : number + 1 + before.length = number + (line :: before).length := by
            rw [List.length_cons]
            omega
          rw [count] at later
          simp only [List.cons_append, ListingReader.readLines, step, later]

theorem read_lines_cons {reader next : ListingReader} {number : Nat} {line : Bytes}
    (read : reader.readLine number line = .ok next) (rest : List Bytes) :
    reader.readLines number (line :: rest) = next.readLines (number + 1) rest := by
  rw [ListingReader.readLines, read]

def addItems (reader : ListingReader) (items : List DataItem) : ListingReader :=
  items.foldl addItem reader

end ListingReader

theorem read_item_rows {label row : Bytes → Bytes} {contents : Bytes → Contents} {place : Section}
    {names : List Bytes}
    (one : ∀ name ∈ names, ∀ (reader : ListingReader) (number : Nat), reader.place = place →
      reader.defined.find? (label name) = none →
      reader.readLine number (row name) = .ok (reader.addItem ⟨number, label name, contents name⟩))
    (distinct : (names.map label).Nodup) (reader : ListingReader) (number : Nat)
    (inPlace : reader.place = place)
    (fresh : ∀ name ∈ names, reader.defined.find? (label name) = none) :
    reader.readLines number (names.map row) =
      .ok (reader.addItems (itemsFrom label contents number names)) := by
  induction names generalizing reader number with
  | nil => rfl
  | cons name names induction =>
      have here := one name (by simp) reader number inPlace (fresh name (by simp))
      rw [List.map_cons, List.nodup_cons] at distinct
      have later := induction (fun other member => one other (by simp [member])) distinct.2
        (reader.addItem ⟨number, label name, contents name⟩) (number + 1) inPlace (by
          intro other member
          apply find_append_other (fresh other (by simp [member]))
          intro same
          exact distinct.1 (List.mem_map.mpr ⟨other, member, same.symm⟩))
      exact (read_lines_cons here (names.map row)).trans later

section Items

theorem define_add_items (reader : ListingReader) (items : List DataItem) :
    (reader.addItems items).place = reader.place ∧
      (reader.addItems items).defined =
        reader.defined ++ items.map fun item => (item.label, item.line) := by
  induction items generalizing reader with
  | nil => simp [addItems]
  | cons item items induction =>
      obtain ⟨place, defined⟩ := induction (reader.addItem item)
      refine ⟨place, ?_⟩
      change ((reader.addItem item).addItems items).defined = _
      rw [defined]
      simp [addItem]

theorem add_constants (reader : ListingReader) {items : List DataItem}
    (constants : ∀ item ∈ items, ∃ content, item.contents = .bytes content) :
    (reader.addItems items).program =
      { reader.program with constants := reader.program.constants ++ items } := by
  induction items generalizing reader with
  | nil => simp [addItems]
  | cons item items induction =>
      obtain ⟨content, isBytes⟩ := constants item (by simp)
      have later := induction (reader.addItem item) fun other member =>
        constants other (by simp [member])
      change ((reader.addItem item).addItems items).program = _
      rw [later]
      simp [addItem, isBytes]

theorem add_reservations (reader : ListingReader) {items : List DataItem}
    (reservations : ∀ item ∈ items, ∃ count, item.contents = .zeros count) :
    (reader.addItems items).program =
      { reader.program with reservations := reader.program.reservations ++ items } := by
  induction items generalizing reader with
  | nil => simp [addItems]
  | cons item items induction =>
      obtain ⟨count, isZeros⟩ := reservations item (by simp)
      have later := induction (reader.addItem item) fun other member =>
        reservations other (by simp [member])
      change ((reader.addItem item).addItems items).program = _
      rw [later]
      simp [addItem, isZeros]

theorem mem_items_from {label : Bytes → Bytes} {contents : Bytes → Contents} {number : Nat}
    {names : List Bytes} {item : DataItem}
    (member : item ∈ itemsFrom label contents number names) :
    ∃ name ∈ names, item.label = label name ∧ item.contents = contents name := by
  induction names generalizing number with
  | nil => cases member
  | cons name names induction =>
      rcases List.mem_cons.mp member with rfl | later
      · exact ⟨name, by simp, rfl, rfl⟩
      · obtain ⟨other, inNames, found⟩ := induction later
        exact ⟨other, by simp [inNames], found⟩

theorem labels_items_from (label : Bytes → Bytes) (contents : Bytes → Contents) (number : Nat)
    (names : List Bytes) :
    (itemsFrom label contents number names).map DataItem.label = names.map label := by
  induction names generalizing number with
  | nil => rfl
  | cons name names induction => rw [itemsFrom, List.map_cons, induction, List.map_cons]

end Items

section Rows

variable {names : List Bytes}

theorem read_code_rows {code : List Line} (isCode : ∀ line ∈ code, line.IsCode names)
    (reader : ListingReader) (number : Nat) (inCode : reader.place = .code) :
    reader.readLines number (code.map Line.content) =
      .ok { reader with
        program :=
          { reader.program with
            instructions :=
              reader.program.instructions ++ (instructionsFrom number code).toArray } } := by
  induction code generalizing reader number with
  | nil => simp [ListingReader.readLines, instructionsFrom]
  | cons line code induction =>
      obtain ⟨mnemonic, operands, rfl, known, fine⟩ := isCode line (by simp)
      have here := read_instruction_row number inCode known fun operand member =>
        (fine operand member).1
      have later := induction (fun other member => isCode other (by simp [member]))
        (reader.extend ⟨number, mnemonic, operands⟩) (number + 1) inCode
      apply (read_lines_cons here (code.map Line.content)).trans
      rw [later]
      simp [extend, instructionsFrom]

def IsRow (row : Bytes) : Prop := ∀ byte ∈ row, Text.isPlainByte byte = true

instance (row : Bytes) : Decidable (IsRow row) :=
  inferInstanceAs (Decidable (∀ byte ∈ row, Text.isPlainByte byte = true))

theorem is_row_append {left right : Bytes} (first : IsRow left) (second : IsRow right) :
    IsRow (left ++ right) := by
  intro byte member
  rcases List.mem_append.mp member with inLeft | inRight
  · exact first byte inLeft
  · exact second byte inRight

theorem code_rows {code : List Line} (isCode : ∀ line ∈ code, line.IsCode names) :
    ∀ line ∈ code, IsRow line.content := by
  intro line member
  obtain ⟨mnemonic, operands, rfl, known, fine⟩ := isCode line member
  have readable := fun operand inOperands => (fine operand inOperands).1
  apply is_row_append (by decide)
  exact fun byte inText => (instruction_text_calm known readable byte inText).2.2

def headerReader : ListingReader where
  place := .code
  defined := [(utf8 "main", 5)]
  program :=
    { globals := [utf8 "main"], imports := [utf8 "printf", utf8 "scanf"]
      labels := [(utf8 "main", 0)] }

def headerLines : List Line :=
  [Line.sectionHeader (utf8 ".text"), Line.directive (utf8 "global") (utf8 "main"),
    Line.directive (utf8 "extern") (utf8 "printf"), Line.directive (utf8 "extern") (utf8 "scanf"),
    Line.label (utf8 "main")]

theorem read_header_rows :
    ({} : ListingReader).readLines 1 (headerLines.map Line.content) = .ok headerReader := by
  have solid : Text.Solid (utf8 ".text") := Text.solid_of_all rfl
  have found : Section.ofHeader? (Text.lowerCase (utf8 ".text")) = some .code := by
    rw [Text.lower_case_same solid.ascii (by decide)]
    decide
  have main : IsSymbol (utf8 "main") := by decide
  have print : IsSymbol (utf8 "printf") := by decide
  have scan : IsSymbol (utf8 "scanf") := by decide
  refine (read_lines_cons (read_section_row solid (List.cons_ne_nil _ _) (by decide) found)
    _).trans ?_
  apply (read_lines_cons (read_global_row main) _).trans
  apply (read_lines_cons (read_import_row print) _).trans
  apply (read_lines_cons (read_import_row scan) _).trans
  exact read_lines_cons (read_label_row main rfl rfl) _

/-- Labels of different kinds start with different letters. -/
theorem ne_of_head {left right : Bytes} (different : left.head? ≠ right.head?) : left ≠ right := by
  rintro rfl
  exact different rfl

theorem prompt_labels_distinct (distinct : names.Nodup) : (names.map promptLabel).Nodup :=
  List.Pairwise.map promptLabel (fun _ _ different same => different (List.append_cancel_left same))
    distinct

theorem variable_labels_distinct (distinct : names.Nodup) : (names.map variableLabel).Nodup :=
  List.Pairwise.map variableLabel
    (fun _ _ different same => different (List.append_cancel_left same)) distinct

theorem first_labels {entry : Bytes × Nat} {second third : Nat}
    (member : entry ∈ [(utf8 "main", 5)] ++ [(utf8 "read_format", second)] ++
      [(utf8 "write_format", third)]) :
    entry.1.head? ≠ some 0x70 ∧ entry.1.head? ≠ some 0x76 := by
  simp only [List.mem_append, List.mem_singleton] at member
  rcases member with (rfl | rfl) | rfl
  · decide
  · exact (by decide : (utf8 "read_format").head? ≠ some 0x70 ∧
      (utf8 "read_format").head? ≠ some 0x76)
  · exact (by decide : (utf8 "write_format").head? ≠ some 0x70 ∧
      (utf8 "write_format").head? ≠ some 0x76)

theorem prompt_values (name : Bytes) :
    [utf8 "\"" ++ name ++ utf8 " = \"", utf8 "0"] = textValues (name ++ utf8 " = ") [0] := by
  have zero : Text.decimalNat 0 = utf8 "0" := by decide +kernel
  have closing : utf8 " = \"" = utf8 " = " ++ [0x22] := by decide
  simp [textValues, quotedText, zero, closing, show utf8 "\"" = [0x22] from rfl]

theorem read_prompt_row {name : Bytes} (identifier : IsIdentifier name) (reader : ListingReader)
    (number : Nat) (inConstants : reader.place = .constants)
    (fresh : reader.defined.find? (promptLabel name) = none) :
    reader.readLine number (Line.data (promptLabel name) (utf8 "db")
        [utf8 "\"" ++ name ++ utf8 " = \"", utf8 "0"]).content =
      .ok (reader.addItem ⟨number, promptLabel name, promptContents name⟩) := by
  have sign : ∀ byte ∈ utf8 " = ", byte.toNat < 0x80 ∧ byte ≠ 0x22 := by decide
  rw [prompt_values]
  refine read_text_row (prompt_label_symbol identifier) inConstants fresh ?_ ?_ (by simp)
  · rw [Text.ascii_append]
    exact ⟨fun byte member => ordinary_ascii (word_part_ordinary (identifier.parts byte member)).1,
      fun byte member => (sign byte member).1⟩
  · intro byte member
    rcases List.mem_append.mp member with inName | inSign
    · rintro rfl
      have ordinary := (word_part_ordinary (identifier.parts _ inName)).1
      cases ordinary
    · exact (sign byte inSign).2

theorem read_format_row {reader : ListingReader} {number : Nat} {label : Bytes}
    (symbol : IsSymbol label) (inConstants : reader.place = .constants)
    (fresh : reader.defined.find? label = none) {numbers : List Nat}
    (small : ∀ value ∈ numbers, value < 256) :
    reader.readLine number
        (Line.data label (utf8 "db") (textValues (utf8 "%d") numbers)).content =
      .ok (reader.addItem ⟨number, label, .bytes (utf8 "%d" ++ numbers.map UInt8.ofNat)⟩) :=
  read_text_row symbol inConstants fresh (by decide) (by decide) small

/-- What is known after the data, which come after code that ends on a given line. -/
def dataReader (reader : ListingReader) (last : Nat) (names : List Bytes) : ListingReader :=
  { ({ reader with place := .constants } : ListingReader).addItems (formatItems (last + 2) names) with
    place := .reserved : ListingReader }.addItems (cellItems (last + 5 + names.length) names)

def promptLine (name : Bytes) : Line :=
  Line.data (promptLabel name) (utf8 "db") [utf8 "\"" ++ name ++ utf8 " = \"", utf8 "0"]

def cellLine (name : Bytes) : Line := Line.data (variableLabel name) (utf8 "resd") [utf8 "1"]

theorem data_lines_eq (names : List Bytes) :
    dataLines names =
      Line.sectionHeader (utf8 ".rdata") ::
        Line.data (utf8 "read_format") (utf8 "db") (textValues (utf8 "%d") [0]) ::
        Line.data (utf8 "write_format") (utf8 "db") (textValues (utf8 "%d") [10, 0]) ::
        (names.map promptLine ++ Line.sectionHeader (utf8 ".bss") :: names.map cellLine) := by
  have readFormat : [utf8 "\"%d\"", utf8 "0"] = textValues (utf8 "%d") [0] := by decide +kernel
  have writeFormat : [utf8 "\"%d\"", utf8 "10", utf8 "0"] = textValues (utf8 "%d") [10, 0] := by
    decide +kernel
  rw [dataLines, readFormat, writeFormat, List.append_assoc]
  rfl

theorem read_prompt_rows (identifiers : ∀ name ∈ names, IsIdentifier name) (distinct : names.Nodup)
    {reader : ListingReader} (inConstants : reader.place = .constants)
    (labels : ∀ entry ∈ reader.defined, entry.1.head? ≠ some 0x70) (number : Nat) :
    reader.readLines number ((names.map promptLine).map Line.content) =
      .ok (reader.addItems (itemsFrom promptLabel promptContents number names)) := by
  rw [List.map_map]
  refine read_item_rows (fun name member reader number => read_prompt_row (identifiers name member)
    reader number) (prompt_labels_distinct distinct) reader number inConstants ?_
  intro name _
  exact find_none_of_not_key fun entry member => ne_of_head (labels entry member)

theorem read_cell_rows (identifiers : ∀ name ∈ names, IsIdentifier name) (distinct : names.Nodup)
    {reader : ListingReader} (inReserved : reader.place = .reserved)
    (labels : ∀ entry ∈ reader.defined, entry.1.head? ≠ some 0x76) (number : Nat) :
    reader.readLines number ((names.map cellLine).map Line.content) =
      .ok (reader.addItems (cellItems number names)) := by
  rw [List.map_map]
  refine read_item_rows (fun name member reader number place fresh => read_room_row
    (variable_label_symbol (identifiers name member)) place fresh)
    (variable_labels_distinct distinct) reader number inReserved ?_
  intro name _
  exact find_none_of_not_key fun entry member => ne_of_head (labels entry member)

theorem read_data_rows (identifiers : ∀ name ∈ names, IsIdentifier name) (distinct : names.Nodup)
    {reader : ListingReader} (labels : reader.defined = [(utf8 "main", 5)]) (last : Nat) :
    reader.readLines (last + 1) ((dataLines names).map Line.content) =
      .ok (dataReader reader last names) := by
  have constantsSolid : Text.Solid (utf8 ".rdata") := Text.solid_of_all rfl
  have reservedSolid : Text.Solid (utf8 ".bss") := Text.solid_of_all rfl
  have constantsFound : Section.ofHeader? (Text.lowerCase (utf8 ".rdata")) = some .constants := by
    rw [Text.lower_case_same constantsSolid.ascii (by decide)]
    decide
  have reservedFound : Section.ofHeader? (Text.lowerCase (utf8 ".bss")) = some .reserved := by
    rw [Text.lower_case_same reservedSolid.ascii (by decide)]
    decide
  have readSymbol : IsSymbol (utf8 "read_format") := by decide
  have writeSymbol : IsSymbol (utf8 "write_format") := by decide
  rw [data_lines_eq]
  refine (read_lines_cons (read_section_row constantsSolid (List.cons_ne_nil _ _) (by decide)
    constantsFound) _).trans ?_
  refine (read_lines_cons (read_format_row readSymbol rfl (by rw [labels]; decide) (by decide))
    _).trans ?_
  refine (read_lines_cons (read_format_row writeSymbol rfl
    (by simp only [addItem, labels]; rfl) (by decide)) _).trans ?_
  rw [List.map_append]
  refine (read_lines_append _ _ _ _ (read_prompt_rows identifiers distinct rfl ?_ _)).trans ?_
  · simp only [addItem, labels]
    exact fun entry member => (first_labels member).1
  · refine (read_lines_cons (read_section_row reservedSolid (List.cons_ne_nil _ _) (by decide)
      reservedFound) _).trans ?_
    refine (read_cell_rows identifiers distinct rfl ?_ _).trans ?_
    · intro entry member
      rw [(define_add_items _ _).2, List.mem_append] at member
      rcases member with earlier | prompt
      · simp only [addItem, labels] at earlier
        exact (first_labels earlier).2
      · obtain ⟨item, inItems, rfl⟩ := List.mem_map.mp prompt
        obtain ⟨name, _, label, _⟩ := mem_items_from inItems
        rw [label]
        have starts : (promptLabel name).head? = some 0x70 := rfl
        rw [starts]
        decide
    · have count : last + 1 + 1 + 1 + 1 + ((names.map promptLine).map Line.content).length + 1 =
          last + 5 + names.length := by
        rw [List.length_map, List.length_map]
        omega
      rw [count]
      rfl

theorem identifier_is_row {name : Bytes} (identifier : IsIdentifier name) : IsRow name := by
  intro byte member
  exact ordinary_plain (word_part_ordinary (identifier.parts byte member)).1

theorem prompt_line_is_row {name : Bytes} (identifier : IsIdentifier name) :
    IsRow (promptLine name).content := by
  have words : (promptLine name).content =
      utf8 "  prompt_" ++ (name ++ (utf8 ": db \"" ++ (name ++ utf8 " = \", 0"))) := by
    simp only [promptLine, Line.content, Line.text, promptLabel, Text.join, List.append_assoc]
    rfl
  have row := identifier_is_row identifier
  rw [words]
  exact is_row_append (by decide) (is_row_append row (is_row_append (by decide)
    (is_row_append row (by decide))))

theorem cell_line_is_row {name : Bytes} (identifier : IsIdentifier name) :
    IsRow (cellLine name).content := by
  have words : (cellLine name).content = utf8 "  var_" ++ (name ++ utf8 ": resd 1") := by
    simp only [cellLine, Line.content, Line.text, variableLabel, Text.join, List.append_assoc]
    rfl
  rw [words]
  exact is_row_append (by decide) (is_row_append (identifier_is_row identifier) (by decide))

theorem data_rows (identifiers : ∀ name ∈ names, IsIdentifier name) :
    ∀ line ∈ dataLines names, IsRow line.content := by
  have first : ∀ line ∈ [Line.sectionHeader (utf8 ".rdata"),
      Line.data (utf8 "read_format") (utf8 "db") (textValues (utf8 "%d") [0]),
      Line.data (utf8 "write_format") (utf8 "db") (textValues (utf8 "%d") [10, 0]),
      Line.sectionHeader (utf8 ".bss")], IsRow line.content := by
    decide +kernel
  intro line member
  rw [data_lines_eq] at member
  simp only [List.mem_cons, List.mem_append, List.mem_map] at member
  rcases member with rfl | rfl | rfl | ⟨name, inNames, rfl⟩ | rfl | ⟨name, inNames, rfl⟩
  · exact first _ (by simp)
  · exact first _ (by simp)
  · exact first _ (by simp)
  · exact prompt_line_is_row (identifiers name inNames)
  · exact first _ (by simp)
  · exact cell_line_is_row (identifiers name inNames)

theorem rows_of_lines (lines : List Line) :
    lines.flatMap Line.row = (lines.map Line.content).flatMap (· ++ [10]) := by
  induction lines with
  | nil => rfl
  | cons line lines induction =>
      rw [List.flatMap_cons, List.map_cons, List.flatMap_cons, induction, row_content]

end Rows

section Whole

variable {names : List Bytes} {code : List Line}

def codeReader (code : List Line) : ListingReader :=
  { headerReader with
    program := { headerReader.program with instructions := (instructionsFrom 6 code).toArray } }

theorem data_reader_program :
    (dataReader (codeReader code) (5 + code.length) names).program =
      generatedProgram code names := by
  have constants : ∀ item ∈ formatItems (5 + code.length + 2) names,
      ∃ content, item.contents = .bytes content := by
    intro item member
    rcases List.mem_cons.mp member with rfl | later
    · exact ⟨_, rfl⟩
    · rcases List.mem_cons.mp later with rfl | prompt
      · exact ⟨_, rfl⟩
      · obtain ⟨name, _, _, contents⟩ := mem_items_from prompt
        exact ⟨_, contents⟩
  have reservations : ∀ item ∈ cellItems (5 + code.length + 5 + names.length) names,
      ∃ count, item.contents = .zeros count := by
    intro item member
    obtain ⟨name, _, _, contents⟩ := mem_items_from member
    exact ⟨_, contents⟩
  rw [dataReader, add_reservations _ reservations]
  simp only [add_constants _ constants]
  rw [generatedProgram, show 5 + code.length + 2 = 7 + code.length by omega,
    show 5 + code.length + 5 + names.length = 10 + code.length + names.length by omega]
  simp [codeReader, headerReader]

theorem known_after_data {symbol : Bytes} (known : symbol ∈ knownSymbols names) :
    (dataReader (codeReader code) (5 + code.length) names).isKnown symbol = true := by
  have labels : (dataReader (codeReader code) (5 + code.length) names).defined.map Prod.fst =
      utf8 "main" :: utf8 "read_format" :: utf8 "write_format" ::
        (names.map promptLabel ++ names.map variableLabel) := by
    rw [dataReader, (define_add_items _ _).2]
    simp only [(define_add_items _ _).2, List.map_append, List.map_map]
    have names_of (items : List DataItem) :
        items.map (Prod.fst ∘ fun item => (item.label, item.line)) = items.map DataItem.label := rfl
    rw [names_of, names_of, cellItems, labels_items_from, formatItems, List.map_cons, List.map_cons,
      labels_items_from]
    rfl
  have imports : (dataReader (codeReader code) (5 + code.length) names).program.imports =
      [utf8 "printf", utf8 "scanf"] := by
    rw [data_reader_program]
    rfl
  rw [isKnown, Bool.or_eq_true]
  by_cases defined : symbol ∈ (dataReader (codeReader code) (5 + code.length) names).defined.map
    Prod.fst
  · exact .inl (find_some_of_key defined)
  · refine .inr ?_
    rw [labels] at defined
    rw [Program.isImported, imports, List.contains_iff_mem]
    simp only [knownSymbols, List.mem_append, List.mem_cons, List.not_mem_nil, or_false] at known
    simp only [List.mem_cons, List.mem_append] at defined ⊢
    grind

theorem mem_instructions_from {number : Nat} {instruction : Instruction}
    (isCode : ∀ line ∈ code, line.IsCode names)
    (member : instruction ∈ instructionsFrom number code) :
    ∀ operand ∈ instruction.operands, ∀ symbol ∈ operand.symbol?, symbol ∈ knownSymbols names := by
  induction code generalizing number with
  | nil => cases member
  | cons line code induction =>
      obtain ⟨mnemonic, operands, rfl, _, fine⟩ := isCode line (by simp)
      rcases List.mem_cons.mp member with rfl | later
      · exact fun operand inOperands => (fine operand inOperands).2
      · exact induction (fun other inCode => isCode other (by simp [inCode])) later

theorem finish_after_data (isCode : ∀ line ∈ code, line.IsCode names) :
    (dataReader (codeReader code) (5 + code.length) names).finish =
      .ok (generatedProgram code names) := by
  have known : (generatedProgram code names).instructions.toList.findSome?
      (dataReader (codeReader code) (5 + code.length) names).unknownSymbol? = none := by
    rw [List.findSome?_eq_none_iff]
    intro instruction member
    rw [unknownSymbol?, List.findSome?_eq_none_iff]
    intro symbol inSymbols
    obtain ⟨operand, inOperands, found⟩ := List.mem_filterMap.mp inSymbols
    have fine := mem_instructions_from isCode (by simpa [generatedProgram] using member) operand
      inOperands symbol (by simp [found])
    rw [if_pos (known_after_data fine)]
  rw [finish, data_reader_program, known]

theorem listing_rows (identifiers : ∀ name ∈ names, IsIdentifier name)
    (isCode : ∀ line ∈ code, line.IsCode names) :
    ∀ line ∈ headerLines ++ code ++ dataLines names, IsRow line.content := by
  have header : ∀ line ∈ headerLines, IsRow line.content := by decide +kernel
  intro line member
  rw [List.mem_append, List.mem_append] at member
  rcases member with (inHeader | inCode) | inData
  · exact header line inHeader
  · exact code_rows isCode line inCode
  · exact data_rows identifiers line inData

/-- A listing with a header, code and data is read as the program it stands for. -/
theorem read_generated (identifiers : ∀ name ∈ names, IsIdentifier name) (distinct : names.Nodup)
    (isCode : ∀ line ∈ code, line.IsCode names) :
    readListing ((headerLines ++ code ++ dataLines names).flatMap Line.row) =
      .ok (generatedProgram code names) := by
  have unbroken : ∀ row ∈ (headerLines ++ code ++ dataLines names).map Line.content,
      ∀ byte ∈ row, byte ≠ 10 := by
    intro row member byte inRow
    obtain ⟨line, inLines, rfl⟩ := List.mem_map.mp member
    exact (Text.plain_byte_ascii (listing_rows identifiers isCode line inLines byte inRow)).2
  have codeRead : headerReader.readLines 6 (code.map Line.content) = .ok (codeReader code) := by
    rw [read_code_rows isCode headerReader 6 rfl]
    simp [codeReader, headerReader]
  have dataRead := read_data_rows identifiers distinct (show (codeReader code).defined = _ from rfl)
    (5 + code.length)
  have blank (reader : ListingReader) (number : Nat) : reader.readLine number [] = .ok reader := by
    have empty : Text.trim [] = [] := (Text.solid_of_all rfl).tight.trim
    simp [readLine, withoutComment, empty]
  have whole : ({} : ListingReader).readLines 1
      ((headerLines ++ code ++ dataLines names).map Line.content ++ [[]]) =
      .ok (dataReader (codeReader code) (5 + code.length) names) := by
    rw [List.map_append, List.map_append, List.append_assoc, List.append_assoc,
      read_lines_append _ _ _ _ read_header_rows]
    apply (read_lines_append _ _ _ _ codeRead).trans
    rw [List.length_map, show 6 + code.length = 5 + code.length + 1 by omega,
      read_lines_append _ _ _ _ dataRead, read_lines_cons (blank _ _)]
    rfl
  rw [readListing, rows_of_lines, Text.lines_of_rows _ unbroken, whole]
  exact finish_after_data isCode

end Whole

end ExprCompiler
