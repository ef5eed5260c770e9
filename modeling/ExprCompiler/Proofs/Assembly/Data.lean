import ExprCompiler.Proofs.Assembly.Line

/-!
Headers, declarations and labelled data are read back as they were written. Data are either a text
in quotes followed by numbers, or room for one word.
-/

namespace ExprCompiler

open ListingReader

variable {reader : ListingReader} {number : Nat}

theorem colon_is_no_word {word : Bytes} (colon : 0x3a ∈ word) : LineWord.ofText? word = none := by
  have differs (other : Bytes) (plain : 0x3a ∉ other) : word ≠ other := by
    rintro rfl
    exact plain colon
  simp [LineWord.ofText?, differs (utf8 "section") (by decide),
    differs (utf8 "segment") (by decide), differs (utf8 "global") (by decide),
    differs (utf8 "extern") (by decide)]

section Labels

variable {label body : Bytes}

theorem label_word_solid (symbol : IsSymbol label) : Text.Solid (label ++ [0x3a]) :=
  symbol.solid.append (Text.solid_of_all rfl)

theorem label_word_is_no_word (symbol : IsSymbol label) :
    LineWord.ofText? (Text.lowerCase (label ++ [0x3a])) = none := by
  have colon : 0x3a ∈ (label ++ [0x3a]).map Text.lowerByte :=
    List.mem_map.mpr ⟨0x3a, by simp, by decide⟩
  rw [Text.lower_case_ascii (label_word_solid symbol).ascii]
  exact colon_is_no_word colon

theorem symbol_unquoted (symbol : IsSymbol label) : ∀ byte ∈ label, isUnquoted byte = true :=
  fun byte member => ordinary_unquoted (symbol.ordinary byte member)

theorem read_labelled_row (symbol : IsSymbol label) (tight : Text.Tight body) (some : body ≠ [])
    (kept : withoutComment none body = body) :
    reader.readLine number (utf8 "  " ++ (label ++ utf8 ": " ++ body)) =
      reader.addLabelled number label body := by
  have solid := label_word_solid symbol
  have words : label ++ utf8 ": " ++ body = (label ++ [0x3a]) ++ 0x20 :: body := by
    simp [show utf8 ": " = [0x3a, 0x20] from rfl]
  have indent : ∀ byte ∈ utf8 "  ", byte.toNat < 0x80 ∧ Text.isBlankByte byte = true := by decide
  have space : ∀ byte ∈ [(0x20 : UInt8)], byte.toNat < 0x80 ∧ Text.isBlankByte byte = true := by
    decide
  have whole : Text.Tight ((label ++ [0x3a]) ++ 0x20 :: body) := by
    have around := solid.tight.around tight (by simp) some ((Text.ascii_cons 0x20 []).mpr (by simp))
    rwa [List.append_assoc] at around
  have content : Text.trim (withoutComment none (utf8 "  " ++ (label ++ utf8 ": " ++ body))) =
      (label ++ [0x3a]) ++ 0x20 :: body := by
    rw [without_comment_unquoted (by decide), List.append_assoc,
      without_comment_unquoted (symbol_unquoted symbol), without_comment_unquoted (by decide), kept,
      ← List.append_assoc label, words, whole.trim_indented indent]
  have split := Text.split_head_words solid (by simp) tight some
  have labelled := split_label symbol.parts symbol.ne_nil
    ((Text.ascii_cons 0x20 body).mpr ⟨by decide, tight.ascii⟩)
  have after : Text.trim (0x20 :: body) = body := tight.trim_indented space
  rw [after] at labelled
  apply read_line_labelled content (by simp) split (label_word_is_no_word symbol)
  rw [List.append_assoc]
  exact labelled

theorem read_label_row (symbol : IsSymbol label) (inCode : reader.place = .code)
    (fresh : reader.defined.find? label = none) :
    reader.readLine number (utf8 "  " ++ (label ++ utf8 ":")) =
      .ok (({ reader with defined := reader.defined ++ [(label, number)] } :
        ListingReader).markCode label) := by
  have solid := label_word_solid symbol
  have indent : ∀ byte ∈ utf8 "  ", byte.toNat < 0x80 ∧ Text.isBlankByte byte = true := by decide
  have empty : Text.trim [] = [] := (Text.solid_of_all rfl).tight.trim
  have colon : withoutComment none (utf8 ":") = [0x3a] := by decide
  have content : Text.trim (withoutComment none (utf8 "  " ++ (label ++ utf8 ":"))) =
      label ++ [0x3a] := by
    rw [without_comment_unquoted (by decide), without_comment_unquoted (symbol_unquoted symbol),
      colon, solid.tight.trim_indented indent]
  have labelled := split_label symbol.parts symbol.ne_nil Text.ascii_nil
  rw [empty] at labelled
  rw [read_line_labelled content (by simp) solid.split_head (label_word_is_no_word symbol) labelled]
  simp [addLabelled, symbol.is_name, define, fresh, inCode]

/-- A reader that took one more data item. -/
def ListingReader.addItem (reader : ListingReader) (item : DataItem) : ListingReader :=
  { reader with
    defined := reader.defined ++ [(item.label, item.line)]
    program :=
      match item.contents with
      | .zeros _ =>
          { reader.program with reservations := reader.program.reservations ++ [item] }
      | .bytes _ => { reader.program with constants := reader.program.constants ++ [item] } }

theorem read_data_row {contents : Contents} (symbol : IsSymbol label) (tight : Text.Tight body)
    (some : body ≠ []) (kept : withoutComment none body = body) (noCode : reader.place ≠ .code)
    (fresh : reader.defined.find? label = none)
    (read : readContents reader.place body = .ok contents) :
    reader.readLine number (utf8 "  " ++ (label ++ utf8 ": " ++ body)) =
      .ok (reader.addItem ⟨number, label, contents⟩) := by
  rw [read_labelled_row symbol tight some kept]
  simp only [addLabelled, symbol.is_name, define, fresh, noCode, some, addData, read,
    Bool.not_true, Bool.false_eq_true, if_false]
  cases contents <;> rfl

end Labels

section Texts

def quotedText (content : Bytes) : Bytes := 0x22 :: (content ++ [0x22])

variable {content : Bytes}

theorem quoted_uncut (ascii : Text.Ascii content) (closed : ∀ byte ∈ content, byte ≠ 0x22) :
    Uncut (quotedText content) := by
  have inside (piece rest : Bytes) : splitPieces (some 0x22) 0 piece (content ++ 0x22 :: rest) =
      splitPieces none 0 (0x22 :: (content.reverse ++ piece)) rest := by
    induction content generalizing piece with
    | nil => rfl
    | cons byte content induction =>
        have here := closed byte (by simp)
        have later := induction ((Text.ascii_cons _ _).mp ascii).2
          (fun other member => closed other (by simp [member])) (byte :: piece)
        simp [splitPieces, here, later]
  have mark : Text.isBlankByte 0x22 = false := by decide
  refine ⟨⟨?_, ?_, ?_⟩, List.cons_ne_nil _ _, ?_⟩
  · simp [quotedText, ascii]
  · intro byte member
    cases member
    exact mark
  · intro byte member
    have last : (quotedText content).getLast? = some 0x22 := by
      rw [quotedText, ← List.cons_append, List.getLast?_concat]
    rw [last] at member
    cases member
    exact mark
  · intro piece rest
    have words : quotedText content ++ rest = 0x22 :: (content ++ 0x22 :: rest) := by
      simp [quotedText]
    have reversed : (quotedText content).reverse ++ piece =
        0x22 :: (content.reverse ++ 0x22 :: piece) := by
      simp [quotedText]
    rw [words, reversed]
    exact inside (0x22 :: piece) rest

theorem value_of_quoted (directive : Bytes) :
    valueBytes directive 1 (quotedText content) = .ok content := by
  have unquoted : unquote? (quotedText content) = some content := by
    simp [unquote?, quotedText]
  simp [valueBytes, unquoted]

theorem value_of_number (directive : Bytes) {value : Nat} (small : value < 256) :
    valueBytes directive 1 (Text.decimal value) = .ok [UInt8.ofNat value] := by
  have noText : unquote? (Text.decimal value) = none := by
    obtain ⟨first, rest, digits⟩ := List.exists_cons_of_ne_nil (Text.decimal_ne_nil value)
    have ordinary := (decimal_ordinary value first (by simp [digits])).1
    have noDouble : first ≠ 0x22 := by
      rintro rfl
      cases ordinary
    have noSingle : first ≠ 0x27 := by
      rintro rfl
      cases ordinary
    simp [digits, unquote?, noDouble, noSingle]
  have read : Text.readInteger 64 (Text.decimal value) = .ok (value : Int) :=
    @Text.read_integer_decimal 64 9223372036854775808 (by decide) rfl _ (by omega) (by omega)
  have kept : (BitVec.ofInt 64 value).toNat = value := by
    rw [BitVec.ofInt_natCast, BitVec.toNat_ofNat]
    omega
  simp only [valueBytes, noText, read, kept]
  rfl

theorem values_of_numbers (directive : Bytes) {numbers : List Nat}
    (small : ∀ value ∈ numbers, value < 256) :
    valuesBytes directive 1 (numbers.map Text.decimalNat) = .ok (numbers.map UInt8.ofNat) := by
  induction numbers with
  | nil => rfl
  | cons value numbers induction =>
      have here : valueBytes directive 1 (Text.decimalNat value) = .ok [UInt8.ofNat value] :=
        value_of_number directive (small value (by simp))
      have later := induction fun other member => small other (by simp [member])
      rw [List.map_cons, valuesBytes, here, later]
      rfl

/-- The pieces after the first, each with its separator. -/
theorem join_cons (separator piece : Bytes) (pieces : List Bytes) :
    Text.join separator (piece :: pieces) = piece ++ pieces.flatMap (separator ++ ·) := by
  induction pieces generalizing piece with
  | nil => simp [Text.join]
  | cons next pieces induction =>
      rw [Text.join_cons_cons, induction, List.flatMap_cons, List.append_assoc, List.append_assoc]

def textValues (content : Bytes) (numbers : List Nat) : List Bytes :=
  quotedText content :: numbers.map Text.decimalNat

variable {label : Bytes} {numbers : List Nat}

theorem text_values_uncut (ascii : Text.Ascii content) (closed : ∀ byte ∈ content, byte ≠ 0x22)
    (small : ∀ value ∈ numbers, value < 256) :
    ∀ text ∈ textValues content numbers, Uncut text := by
  intro text member
  rcases List.mem_cons.mp member with rfl | inNumbers
  · exact quoted_uncut ascii closed
  · obtain ⟨value, inRange, rfl⟩ := List.mem_map.mp inNumbers
    have := small value inRange
    exact (@readable_immediate value (by omega) (by omega)).uncut

theorem text_values_kept (closed : ∀ byte ∈ content, byte ≠ 0x22) :
    withoutComment none (Text.join (utf8 ", ") (textValues content numbers)) =
      Text.join (utf8 ", ") (textValues content numbers) := by
  have opened (rest : Bytes) : withoutComment none (0x22 :: rest) =
    0x22 :: withoutComment (some 0x22) rest := rfl
  have numbersUnquoted : ∀ byte ∈ (numbers.map Text.decimalNat).flatMap (utf8 ", " ++ ·),
      isUnquoted byte = true := by
    intro byte member
    obtain ⟨text, inTexts, inText⟩ := List.mem_flatMap.mp member
    obtain ⟨value, _, rfl⟩ := List.mem_map.mp inTexts
    rcases List.mem_append.mp inText with inSeparator | inDigits
    · have separator : ∀ byte ∈ utf8 ", ", isUnquoted byte = true := by decide
      exact separator byte inSeparator
    · exact ordinary_unquoted (decimal_ordinary value byte inDigits).1
  have later := without_comment_unquoted numbersUnquoted []
  rw [List.append_nil, withoutComment, List.append_nil] at later
  rw [textValues, join_cons, quotedText, List.cons_append, opened, List.append_assoc,
    List.singleton_append, without_comment_inside closed, later]

theorem read_text_contents (ascii : Text.Ascii content) (closed : ∀ byte ∈ content, byte ≠ 0x22)
    (small : ∀ value ∈ numbers, value < 256) :
    readContents .constants
        (utf8 "db" ++ 0x20 :: Text.join (utf8 ", ") (textValues content numbers)) =
      .ok (.bytes (content ++ numbers.map UInt8.ofNat)) := by
  have uncut := text_values_uncut ascii closed small
  obtain ⟨tight, some⟩ := joined_tight uncut (List.cons_ne_nil _ _)
  have word : Text.Solid (utf8 "db") := Text.solid_of_all rfl
  have split := Text.split_head_words word (List.cons_ne_nil _ _) tight some
  have lower : Text.lowerCase (utf8 "db") = utf8 "db" := Text.lower_case_same word.ascii (by decide)
  have noRoom : reservedSize? (utf8 "db") = none := by decide
  have size : definedSize? (utf8 "db") = .some 1 := by decide
  have values : valuesBytes (utf8 "db") 1 (textValues content numbers) =
      .ok (content ++ numbers.map UInt8.ofNat) := by
    rw [textValues, valuesBytes, value_of_quoted, values_of_numbers _ small]
    rfl
  have pieces := split_operands_joined fun text member => (uncut text member).separate
  rw [readContents, split]
  simp only [lower, noRoom, size, pieces, values]
  rfl

theorem read_text_row (symbol : IsSymbol label) (inConstants : reader.place = .constants)
    (fresh : reader.defined.find? label = none) (ascii : Text.Ascii content)
    (closed : ∀ byte ∈ content, byte ≠ 0x22) (small : ∀ value ∈ numbers, value < 256) :
    reader.readLine number
        (utf8 "  " ++ (Line.data label (utf8 "db") (textValues content numbers)).text) =
      .ok (reader.addItem ⟨number, label, .bytes (content ++ numbers.map UInt8.ofNat)⟩) := by
  obtain ⟨tight, some⟩ :=
    joined_tight (text_values_uncut ascii closed small) (List.cons_ne_nil _ _)
  have word : Text.Solid (utf8 "db") := Text.solid_of_all rfl
  have whole := word.tight.around tight (List.cons_ne_nil _ _) some
    ((Text.ascii_cons 0x20 []).mpr (by simp))
  rw [List.append_assoc, List.singleton_append] at whole
  have kept : withoutComment none
      (utf8 "db" ++ 0x20 :: Text.join (utf8 ", ") (textValues content numbers)) =
      utf8 "db" ++ 0x20 :: Text.join (utf8 ", ") (textValues content numbers) := by
    have space (rest : Bytes) : withoutComment none (0x20 :: rest) =
      0x20 :: withoutComment none rest := rfl
    rw [without_comment_unquoted (by decide), space, text_values_kept closed]
  have words : (Line.data label (utf8 "db") (textValues content numbers)).text =
      label ++ utf8 ": " ++
        (utf8 "db" ++ 0x20 :: Text.join (utf8 ", ") (textValues content numbers)) := by
    simp [Line.text, show utf8 " " = [0x20] from rfl]
  rw [words]
  apply read_data_row symbol whole (List.cons_ne_nil _ _) kept (by simp [inConstants]) fresh
  rw [inConstants]
  exact read_text_contents ascii closed small

theorem read_room_row (symbol : IsSymbol label) (inReserved : reader.place = .reserved)
    (fresh : reader.defined.find? label = none) :
    reader.readLine number (utf8 "  " ++ (Line.data label (utf8 "resd") [utf8 "1"]).text) =
      .ok (reader.addItem ⟨number, label, .zeros 4⟩) := by
  have word : Text.Solid (utf8 "resd") := Text.solid_of_all rfl
  have one : Text.Solid (utf8 "1") := Text.solid_of_all rfl
  have tight := word.tight.around one.tight (List.cons_ne_nil _ _) (List.cons_ne_nil _ _)
    ((Text.ascii_cons 0x20 []).mpr (by simp))
  have contents : readContents reader.place (utf8 "resd" ++ [0x20] ++ utf8 "1") =
      .ok (.zeros 4) := by
    have split := Text.split_head_words word (List.cons_ne_nil _ _) one.tight
      (List.cons_ne_nil _ _)
    have lower : Text.lowerCase (utf8 "resd") = utf8 "resd" :=
      Text.lower_case_same word.ascii (by decide)
    have size : reservedSize? (utf8 "resd") = .some 4 := by decide
    have count : readCount? (utf8 "1") = .some 1 := by
      rw [readCount?, one.tight.trim]
      rfl
    rw [List.append_assoc, List.singleton_append, readContents, split]
    simp [lower, size, inReserved, count]
  have words : (Line.data label (utf8 "resd") [utf8 "1"]).text =
      label ++ utf8 ": " ++ (utf8 "resd" ++ [0x20] ++ utf8 "1") := by
    simp [Line.text, show utf8 " " = [0x20] from rfl, Text.join]
  rw [words]
  exact read_data_row symbol tight (by simp) (by decide) (by simp [inReserved]) fresh contents

end Texts

section Headers

theorem read_section_row {name : Bytes} {place : Section} (solid : Text.Solid name)
    (some : name ≠ []) (unquoted : ∀ byte ∈ name, isUnquoted byte = true)
    (found : Section.ofHeader? (Text.lowerCase name) = .some place) :
    reader.readLine number (utf8 "section " ++ name) = .ok { reader with place := place } := by
  have word : Text.Solid (utf8 "section") := Text.solid_of_all rfl
  have words : utf8 "section " ++ name = utf8 "section" ++ 0x20 :: name := rfl
  have tight := word.tight.around solid.tight (List.cons_ne_nil _ _) some
    ((Text.ascii_cons 0x20 []).mpr (by simp))
  rw [List.append_assoc, List.singleton_append] at tight
  have kept := without_comment_unquoted unquoted []
  rw [List.append_nil, withoutComment, List.append_nil] at kept
  have content : Text.trim (withoutComment none (utf8 "section " ++ name)) =
      utf8 "section" ++ 0x20 :: name := by
    rw [without_comment_unquoted (by decide), kept, words, tight.trim]
  have header : LineWord.ofText? (Text.lowerCase (utf8 "section")) = .some .sectionHeader := by
    rw [Text.lower_case_same word.ascii (by decide)]
    decide
  rw [readLine]
  simp only [content, Text.split_head_words word (List.cons_ne_nil _ _) solid.tight some, header,
    found]
  simp

variable {name : Bytes}

theorem split_operands_symbol (symbol : IsSymbol name) : splitOperands name = [name] := by
  have separate : ∀ text ∈ [name], Separate text := by
    intro text member
    rw [List.mem_singleton.mp member]
    exact (readable_label symbol).uncut.separate
  exact split_operands_joined separate

theorem declaration_content (symbol : IsSymbol name) {word : Bytes} (solid : Text.Solid word)
    (some : word ≠ []) (unquoted : ∀ byte ∈ word, isUnquoted byte = true) :
    Text.trim (withoutComment none (utf8 "  " ++ (word ++ utf8 " " ++ name))) =
      word ++ 0x20 :: name := by
  have indent : ∀ byte ∈ utf8 "  ", byte.toNat < 0x80 ∧ Text.isBlankByte byte = true := by decide
  have tight := solid.tight.around symbol.solid.tight some symbol.ne_nil
    ((Text.ascii_cons 0x20 []).mpr (by simp))
  have kept := without_comment_unquoted (symbol_unquoted symbol) []
  rw [List.append_nil, withoutComment, List.append_nil] at kept
  rw [without_comment_unquoted (by decide), List.append_assoc, without_comment_unquoted unquoted,
    without_comment_unquoted (by decide), kept, ← List.append_assoc word]
  exact (tight.trim_indented indent).trans (by simp)

theorem read_global_row (symbol : IsSymbol name) :
    reader.readLine number (utf8 "  " ++ (Line.directive (utf8 "global") name).text) =
      .ok { reader with
        program := { reader.program with globals := reader.program.globals ++ [name] } } := by
  have word : Text.Solid (utf8 "global") := Text.solid_of_all rfl
  have found : LineWord.ofText? (Text.lowerCase (utf8 "global")) = some .globals := by
    rw [Text.lower_case_same word.ascii (by decide)]
    decide
  rw [readLine, Line.text]
  simp only [declaration_content symbol word (List.cons_ne_nil _ _) (by decide),
    Text.split_head_words word (List.cons_ne_nil _ _) symbol.solid.tight symbol.ne_nil, found,
    split_operands_symbol symbol]
  simp

theorem read_import_row (symbol : IsSymbol name) :
    reader.readLine number (utf8 "  " ++ (Line.directive (utf8 "extern") name).text) =
      .ok { reader with
        program := { reader.program with imports := reader.program.imports ++ [name] } } := by
  have word : Text.Solid (utf8 "extern") := Text.solid_of_all rfl
  have found : LineWord.ofText? (Text.lowerCase (utf8 "extern")) = some .imports := by
    rw [Text.lower_case_same word.ascii (by decide)]
    decide
  rw [readLine, Line.text]
  simp only [declaration_content symbol word (List.cons_ne_nil _ _) (by decide),
    Text.split_head_words word (List.cons_ne_nil _ _) symbol.solid.tight symbol.ne_nil, found,
    split_operands_symbol symbol]
  simp

end Headers

end ExprCompiler
