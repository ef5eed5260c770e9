import ExprCompiler.Proofs.Assembly.Operand
import ExprCompiler.Proofs.Json.Name
import ExprCompiler.Proofs.Text.Numeral

/-!
Values are read back from their texts: numbers, lists, tables and records, whatever stands behind
them. A number ends where no digit follows.
-/

namespace ExprCompiler.Json

/-- Texts that a number can stand in front of. -/
def Ends (rest : Bytes) : Prop := ∀ byte ∈ rest.head?, Text.isDecimalByte byte = false

def Blank (text : Bytes) : Prop := ∀ byte ∈ text, Input.isSpace byte = true

/-- A reader takes a text for a value, with blanks before it and anything behind it. -/
def Reads {α : Type} (reader : Reader α) (before : α) (text : Bytes) (after : α) : Prop :=
  ∀ blanks rest, Blank blanks → Ends rest →
    reader before (.document (blanks ++ (text ++ rest))) = some (after, .document rest)

@[simp] theorem next_document (byte : UInt8) (rest : Bytes) :
    (Input.document (byte :: rest)).next = byte := rfl

@[simp] theorem rest_document (rest : Bytes) : (Input.document rest).rest = rest := rfl

@[simp] theorem drop_document (byte : UInt8) (rest : Bytes) :
    (Input.document (byte :: rest)).drop 1 = .document rest := rfl

theorem skip_blank {blanks text : Bytes} (blank : Blank blanks)
    (starts : ∀ byte ∈ text.head?, Input.isSpace byte = false) :
    (Input.document (blanks ++ text)).skipSpace = .document text := by
  have dropped : (blanks ++ text).dropWhile Input.isSpace = text := by
    rw [List.dropWhile_append_of_pos blank]
    cases text with
    | nil => rfl
    | cons first text =>
        rw [List.dropWhile_cons_of_neg]
        simp [starts first rfl]
  simp only [Input.skipSpace, Input.document, dropped, Bool.false_and]

theorem blank_nil : Blank [] := by
  intro byte member
  cases member

theorem blank_margin (depth : Nat) : Blank (10 :: margin depth) := by
  intro byte member
  rcases List.mem_cons.mp member with rfl | spaces
  · rfl
  · rw [List.eq_of_mem_replicate spaces]
    rfl

theorem ends_behind {blanks rest : Bytes} {mark : UInt8} (blank : Blank blanks)
    (noDigit : Text.isDecimalByte mark = false) : Ends (blanks ++ mark :: rest) := by
  intro byte first
  cases blanks with
  | nil =>
      cases first
      exact noDigit
  | cons blank' blanks =>
      cases first
      have space := blank byte (by simp)
      simp only [Input.isSpace, Bool.or_eq_true, beq_iff_eq] at space
      rcases space with ((rfl | rfl) | rfl) | rfl <;> rfl

section Numbers

theorem digits_value_append (left right : Bytes) :
    Reader.digitsValue (left ++ right) =
      right.foldl (fun value byte => value * 10 + (Text.digitValue? byte).getD 0)
        (Reader.digitsValue left) := List.foldl_append

theorem digits_value_decimal (value : Nat) : Reader.digitsValue (Text.decimalNat value) = value := by
  induction value using Nat.strongRecOn with
  | ind value smaller =>
      rw [Text.decimalNat]
      split
      · rename_i single
        simp only [Reader.digitsValue, List.foldl_cons, List.foldl_nil,
          Text.digit_value_of_digit single, Option.getD_some]
        omega
      · have earlier := smaller (value / 10) (by omega)
        have last := @Text.digit_value_of_digit (value % 10) (Nat.mod_lt _ (by decide))
        rw [digits_value_append, earlier]
        simp only [List.foldl_cons, List.foldl_nil, last, Option.getD_some]
        omega

theorem decimal_nat_length {value width : Nat} (small : value < Nat.pow 10 (width + 1)) :
    (Text.decimalNat value).length ≤ width + 1 := by
  induction width generalizing value with
  | zero =>
      rw [Text.decimalNat, if_pos (by simpa using small)]
      exact Nat.le_refl _
  | succ width induction =>
      rw [Text.decimalNat]
      split
      · simp
      · have less : value < Nat.pow 10 (width + 1) * 10 := small
        have earlier := @induction (value / 10) (by omega)
        simp only [List.length_append, List.length_singleton]
        omega

theorem take_digits (value : Nat) {rest : Bytes} (ends : Ends rest) :
    (Text.decimalNat value ++ rest).takeWhile Text.isDecimalByte = Text.decimalNat value ∧
      (Text.decimalNat value ++ rest).dropWhile Text.isDecimalByte = rest := by
  have digits : ∀ byte ∈ Text.decimalNat value, Text.isDecimalByte byte = true := by
    intro byte member
    simpa [Text.isDecimalByte] using Text.decimal_nat_digits value byte member
  rw [List.takeWhile_append_of_pos digits, List.dropWhile_append_of_pos digits]
  cases rest with
  | nil => exact ⟨List.append_nil _, rfl⟩
  | cons byte rest =>
      have noDigit := ends byte rfl
      rw [List.takeWhile_cons_of_neg (by simp [noDigit]),
        List.dropWhile_cons_of_neg (by simp [noDigit])]
      exact ⟨List.append_nil _, rfl⟩

theorem digits_decimal (value : Nat) {rest : Bytes} (ends : Ends rest) :
    Reader.digits (.document (Text.decimalNat value ++ rest)) =
      (Text.decimalNat value, .document rest) := by
  obtain ⟨first, later, digits, onlyZero⟩ := Text.decimal_nat_starts value
  obtain ⟨taken, left⟩ := take_digits value ends
  unfold Reader.digits
  split
  · rename_i isZero
    have zero : first = 0x30 := by simpa [Input.next, Input.document, digits] using isZero
    obtain ⟨_, rfl⟩ := onlyZero zero
    rw [digits, zero]
    rfl
  · simp only [Input.document, taken, left]

theorem decimal_nat_first (value : Nat) (rest : Bytes) :
    Text.isDecimalByte (Input.document (Text.decimalNat value ++ rest)).next = true := by
  obtain ⟨first, later, form, _⟩ := Text.decimal_nat_starts value
  have range := Text.decimal_nat_digits value first (by simp [form])
  rw [form]
  simpa [Text.isDecimalByte, Input.next, Input.document] using range

theorem digit_is_no_mark {byte : UInt8} (digit : Text.isDecimalByte byte = true) :
    Input.isSpace byte = false ∧ byte ≠ 0x6e ∧ byte ≠ 0x2d := by
  have checked := @forall_byte (fun byte => !Text.isDecimalByte byte ||
    (!Input.isSpace byte && byte != 0x6e && byte != 0x2d)) (by decide +kernel) byte
  simpa [digit, and_assoc] using checked

theorem skip_to_decimal (value : Nat) {blanks : Bytes} (rest : Bytes) (blank : Blank blanks) :
    (Input.document (blanks ++ (Text.decimalNat value ++ rest))).skipSpace =
      .document (Text.decimalNat value ++ rest) := by
  apply skip_blank blank
  intro byte first
  have digit := decimal_nat_first value rest
  rw [Input.next, Input.document, List.headD_eq_head?_getD, first] at digit
  exact (digit_is_no_mark digit).1

theorem wrapped {value : Int} (above : -9223372036854775808 ≤ value)
    (below : value < 9223372036854775808) : (BitVec.ofInt 64 value).toInt = value := by
  rw [BitVec.toInt_ofInt]
  exact Int.bmod_eq_of_le (by omega) (by omega)

theorem reads_int {value : Int} (above : -9223372036854775808 ≤ value)
    (below : value < 9223372036854775808) (known : Int) :
    Reads Reader.int known (Text.decimal value) value := by
  intro blanks rest blank ends
  cases value with
  | ofNat value =>
      have small : value < 9223372036854775808 := Int.ofNat_lt.mp below
      obtain ⟨_, noNull, noSign⟩ := digit_is_no_mark (decimal_nat_first value rest)
      have short : (Text.decimalNat value).length ≤ 19 := decimal_nat_length
        (Nat.lt_of_lt_of_le small (by decide))
      have some : Text.decimalNat value ≠ [] := Text.decimal_ne_nil (.ofNat value)
      simp only [Reader.int, Text.decimal, skip_to_decimal value rest blank, if_neg noNull,
        if_neg noSign, digits_decimal value ends, digits_value_decimal]
      have same : (BitVec.ofNat 64 value).toInt = value := by
        rw [← BitVec.ofInt_natCast]
        exact wrapped (by omega) (by omega)
      rw [if_neg (by simp [some, short]), same]
      rfl
  | negSucc less =>
      have start : (Input.document (blanks ++ (Text.decimal (Int.negSucc less) ++ rest))).skipSpace =
          .document (0x2d :: (Text.decimalNat (less + 1) ++ rest)) := by
        apply skip_blank blank
        intro byte first
        cases first
        rfl
      obtain ⟨taken, left⟩ := take_digits (less + 1) ends
      have short : (Text.decimalNat (less + 1)).length ≤ 19 := decimal_nat_length
        (Nat.lt_of_le_of_lt (show less + 1 ≤ 9223372036854775808 by omega) (by decide))
      have number : -((less + 1 : Nat) : Int) = Int.negSucc less := rfl
      simp only [Reader.int, start, next_document, drop_document, rest_document, taken, left,
        digits_value_decimal, number, wrapped above below]
      rw [if_neg (by decide), if_pos trivial, if_neg (by omega)]
      rfl

theorem reads_word (value known : BitVec 32) :
    Reads Reader.word known (Text.decimal value.toNat) value := by
  intro blanks rest blank ends
  obtain ⟨_, noNull, _⟩ := digit_is_no_mark (decimal_nat_first value.toNat rest)
  have bound := value.isLt
  have short : (Text.decimalNat value.toNat).length ≤ 10 := decimal_nat_length
    (Nat.lt_of_lt_of_le bound (by decide))
  have some : Text.decimalNat value.toNat ≠ [] := Text.decimal_ne_nil (.ofNat value.toNat)
  have small : value.toNat % 18446744073709551616 = value.toNat := Nat.mod_eq_of_lt (by omega)
  have inRange : ¬(decide (Text.decimalNat value.toNat = []) ||
      decide (20 < (Text.decimalNat value.toNat).length) ||
      decide (4294967295 < value.toNat)) = true := by
    simp only [some, decide_false, Bool.false_or, Bool.or_eq_true, decide_eq_true_eq]
    omega
  simp only [Reader.word, Text.decimal, skip_to_decimal value.toNat rest blank, if_neg noNull,
    digits_decimal value.toNat ends, digits_value_decimal, small]
  rw [if_neg inRange, BitVec.ofNat_toNat, BitVec.setWidth_eq]

end Numbers

theorem reads_bool (depth : Nat) (value known : Bool) :
    Reads Reader.bool known ((Json.bool value).pretty depth) value := by
  intro blanks rest blank _
  have start : (Input.document (blanks ++ ((Json.bool value).pretty depth ++ rest))).skipSpace =
      .document ((Json.bool value).pretty depth ++ rest) := by
    apply skip_blank blank
    intro byte first
    cases value <;> cases first <;> rfl
  simp only [Reader.bool, start]
  cases value <;> rfl

theorem reads_lift {Whole Part : Type} {get : Whole → Part} {set : Whole → Part → Whole}
    {reader : Reader Part} {known whole : Whole} {text : Bytes} {after : Part}
    (reads : Reads reader (get known) text after) (put : set known after = whole) :
    Reads (Reader.lift get set reader) known text whole := by
  intro blanks rest blank ends
  simp only [Reader.lift, reads blanks rest blank ends, Option.map_some, put]

/-! Several values with separators between them. -/

def separator (depth : Nat) : Bytes := 0x2c :: 10 :: margin depth

/-- The text of an item that no blank or closing bracket starts. -/
def Starts (text : Bytes) : Prop :=
  ∃ first rest, text = first :: rest ∧ Input.isSpace first = false ∧ first ≠ 0x5d ∧ first ≠ 0x7d

theorem starts_decimal (value : Int) : Starts (Text.decimal value) := by
  obtain ⟨first, rest, form⟩ := List.exists_cons_of_ne_nil (Text.decimal_ne_nil value)
  have part := Text.decimal_parts value first (by simp [form])
  have checked := @forall_byte (fun byte => !Text.isDecimalPart byte ||
    (!Input.isSpace byte && byte != 0x5d && byte != 0x7d)) (by decide +kernel) first
  rw [part] at checked
  simp only [Bool.not_true, Bool.false_or, Bool.and_eq_true, Bool.not_eq_true', bne_iff_ne] at checked
  exact ⟨first, rest, form, checked.1.1, checked.1.2, checked.2⟩

theorem pretty_items (depth : Nat) (first : Json) (items : List Json) :
    prettyItems depth (first :: items) =
      margin depth ++ Text.join (separator depth) ((first :: items).map (pretty depth)) := by
  induction items generalizing first with
  | nil => rfl
  | cons next items induction =>
      have comma : utf8 ",\n" ++ margin depth = separator depth := rfl
      rw [List.map_cons, List.map_cons, Text.join_cons_cons, ← List.map_cons, prettyItems,
        induction next, ← comma]
      · simp only [List.append_assoc]
      · simp

def memberText (depth : Nat) (entry : Bytes × Json) : Bytes :=
  quote true entry.1 ++ (utf8 ": " ++ entry.2.pretty depth)

theorem pretty_members (depth : Nat) (first : Bytes × Json) (entries : List (Bytes × Json)) :
    prettyMembers depth (first :: entries) =
      margin depth ++ Text.join (separator depth) ((first :: entries).map (memberText depth)) := by
  induction entries generalizing first with
  | nil =>
      simp only [prettyMembers, List.map_cons, List.map_nil, Text.join, memberText,
        List.append_assoc]
  | cons next entries induction =>
      have comma : utf8 ",\n" ++ margin depth = separator depth := rfl
      rw [List.map_cons, List.map_cons, Text.join_cons_cons, ← List.map_cons, prettyMembers,
        induction next, ← comma, memberText]
      · simp only [List.append_assoc]
      · simp

theorem join_cons_append (depth : Nat) (text next : Bytes) (texts : List Bytes) (rest : Bytes) :
    Text.join (separator depth) (text :: next :: texts) ++ rest =
      text ++ 0x2c :: ((10 :: margin depth) ++ (Text.join (separator depth) (next :: texts) ++ rest)) := by
  rw [Text.join_cons_cons, separator]
  simp only [List.append_assoc, List.cons_append]

theorem ends_comma (rest : Bytes) : Ends (0x2c :: rest) := by
  intro byte first
  cases first
  rfl

/-- Blanks in front of a mark are passed over, and no number runs into them. -/
theorem mark_behind {blanks : Bytes} {mark : UInt8} (blank : Blank blanks)
    (visible : Input.isSpace mark = false) (rest : Bytes) :
    (Input.document (blanks ++ mark :: rest)).skipSpace = .document (mark :: rest) := by
  apply skip_blank blank
  intro byte first
  cases first
  exact visible

theorem mark_here {mark : UInt8} (visible : Input.isSpace mark = false) (rest : Bytes) :
    (Input.document (mark :: rest)).skipSpace = .document (mark :: rest) :=
  mark_behind blank_nil visible rest

theorem starts_joined (depth : Nat) {text : Bytes} (starts : Starts text) (texts : List Bytes)
    (rest : Bytes) : Starts (Text.join (separator depth) (text :: texts) ++ rest) := by
  obtain ⟨first, later, rfl, visible⟩ := starts
  cases texts with
  | nil => exact ⟨first, later ++ rest, rfl, visible⟩
  | cons next texts =>
      refine ⟨first, ?_, ?_, visible⟩
      · exact later ++ separator depth ++ Text.join (separator depth) (next :: texts) ++ rest
      · simp [Text.join_cons_cons]

/-- As fuel, the bytes of some items are enough for the items. -/
theorem length_joined (depth : Nat) (texts : List Bytes) (starts : ∀ text ∈ texts, Starts text)
    (rest : Bytes) : texts.length ≤ (Text.join (separator depth) texts ++ rest).length := by
  induction texts with
  | nil => exact Nat.zero_le _
  | cons text texts induction =>
      have later := induction fun other member => starts other (by simp [member])
      obtain ⟨first, letters, rfl, _⟩ := starts text (by simp)
      cases texts with
      | nil => simp [Text.join]
      | cons next texts =>
          simp only [Text.join_cons_cons, List.length_append, List.length_cons] at later ⊢
          omega

theorem Starts.next {text : Bytes} (starts : Starts text) :
    (Input.document text).next ≠ 0x5d ∧ (Input.document text).next ≠ 0x7d := by
  obtain ⟨first, rest, rfl, _, other⟩ := starts
  exact other

theorem Starts.skip {text blanks : Bytes} (starts : Starts text) (blank : Blank blanks) :
    (Input.document (blanks ++ text)).skipSpace = .document text := by
  obtain ⟨first, rest, rfl, visible, _⟩ := starts
  exact mark_behind blank visible rest

theorem pretty_list (depth : Nat) (first : Json) (items : List Json) (rest : Bytes) :
    pretty depth (.list (first :: items)) ++ rest =
      0x5b :: ((10 :: margin (depth + 1)) ++
        (Text.join (separator (depth + 1)) ((first :: items).map (pretty (depth + 1))) ++
          ((10 :: margin depth) ++ 0x5d :: rest))) := by
  have opening : utf8 "[\n" = [0x5b, 10] := rfl
  have closing : utf8 "]" = [0x5d] := rfl
  rw [pretty, pretty_items, opening, closing]
  simp only [List.append_assoc, List.cons_append, List.nil_append]

theorem pretty_object (depth : Nat) (first : Bytes × Json) (members : List (Bytes × Json))
    (rest : Bytes) :
    pretty depth (.object (first :: members)) ++ rest =
      0x7b :: ((10 :: margin (depth + 1)) ++
        (Text.join (separator (depth + 1)) ((first :: members).map (memberText (depth + 1))) ++
          ((10 :: margin depth) ++ 0x7d :: rest))) := by
  rw [pretty, pretty_members]
  simp only [List.append_assoc, List.cons_append, List.nil_append]

section Items

variable {Item : Type} {item : Reader Item} {fresh : Item} {text : Item → Bytes}

theorem items_joined {values : List Item} (filled : values ≠ [])
    (reads : ∀ value ∈ values, ∀ known, Reads item known (text value) value) {fuel : Nat}
    (enough : values.length ≤ fuel) (known : List Item) {blanks gap : Bytes} (blank : Blank blanks)
    (blankGap : Blank gap) (depth : Nat) (rest : Bytes) :
    Reader.items item fresh fuel known (.document
        (blanks ++ (Text.join (separator depth) (values.map text) ++ (gap ++ 0x5d :: rest)))) =
      some (values, .document rest) := by
  -- The blanks differ only before the first item; later items stand behind a comma and a margin.
  induction values generalizing fuel known blanks with
  | nil => exact absurd rfl filled
  | cons value values induction =>
      rw [List.length_cons] at enough
      obtain ⟨fuel, rfl⟩ : ∃ less, fuel = less + 1 := ⟨fuel - 1, by omega⟩
      have first := reads value (by simp) (known.headD fresh) blanks
      cases values with
      | nil =>
          have read := first (gap ++ 0x5d :: rest) blank (ends_behind blankGap (by decide))
          simp only [List.map_cons, List.map_nil, Text.join, Reader.items, read,
            mark_behind blankGap (show Input.isSpace 0x5d = false by decide), next_document,
            drop_document, if_true]
      | cons next values =>
          have later := @induction (by simp) (fun other member => reads other (by simp [member])) fuel
            (by simpa using enough) (known.drop 1) (10 :: margin depth) (blank_margin depth)
          rw [List.map_cons, List.map_cons, join_cons_append, ← List.map_cons, Reader.items,
            first _ blank (ends_comma _)]
          simp only [mark_here (show Input.isSpace 0x2c = false by decide), next_document,
            drop_document, later]
          rw [if_neg (by decide), if_pos trivial]
          rfl

theorem reads_null_list (depth : Nat) (known : Option (List Item)) :
    Reads (Reader.list item fresh) known (Json.null.pretty depth) none := by
  intro blanks rest blank _
  have start : (Input.document (blanks ++ (pretty depth .null ++ rest))).skipSpace =
      .document (0x6e :: (utf8 "ull" ++ rest)) := mark_behind blank (by decide) _
  simp only [Reader.list, start, next_document, if_true]
  rfl

theorem reads_list {json : Item → Json} {depth : Nat} {values : List Item}
    (starts : ∀ value ∈ values, Starts ((json value).pretty (depth + 1)))
    (reads : ∀ value ∈ values, ∀ known, Reads item known ((json value).pretty (depth + 1)) value)
    (known : Option (List Item)) :
    Reads (Reader.list item fresh) known ((Json.list (values.map json)).pretty depth)
      (some values) := by
  intro blanks rest blank ends
  cases values with
  | nil =>
      have start : (Input.document (blanks ++ (pretty depth (.list []) ++ rest))).skipSpace =
          .document (0x5b :: 0x5d :: rest) := mark_behind blank (by decide) _
      simp only [List.map_nil, Reader.list, start, next_document, drop_document,
        mark_here (show Input.isSpace 0x5d = false by decide), if_true]
      rw [if_neg (by decide)]
  | cons first values =>
      have pieces : ((first :: values).map json).map (pretty (depth + 1)) =
          (first :: values).map fun value => (json value).pretty (depth + 1) := by
        rw [List.map_map]
        rfl
      have startsAll : Starts (Text.join (separator (depth + 1))
          ((first :: values).map fun value => (json value).pretty (depth + 1)) ++
            ((10 :: margin depth) ++ 0x5d :: rest)) :=
        starts_joined (depth + 1) (starts first (by simp)) _ _
      have enough := length_joined (depth + 1)
        ((first :: values).map fun value => (json value).pretty (depth + 1)) (by simpa using starts)
        ((10 :: margin depth) ++ 0x5d :: rest)
      rw [List.length_map] at enough
      rw [List.map_cons, pretty_list, ← List.map_cons, pieces]
      simp only [Reader.list, mark_behind blank (show Input.isSpace 0x5b = false by decide),
        next_document, drop_document]
      rw [if_neg (by decide), if_pos trivial]
      simp only [startsAll.skip (blank_margin (depth + 1)), if_neg startsAll.next.1, rest_document]
      have read := @items_joined Item item fresh _ _ (List.cons_ne_nil first values) reads _ enough
        (known.getD []) [] _ blank_nil (blank_margin depth) (depth + 1) rest
      rw [List.nil_append] at read
      rw [read]
      rfl

end Items

section Members

variable {Known Entry : Type} {member : Reader Known} {update : Known → Entry → Known}

theorem members_joined {text : Entry → Bytes} {entries : List Entry} (filled : entries ≠ [])
    (reads : ∀ entry ∈ entries, ∀ known, Reads member known (text entry) (update known entry))
    {fuel : Nat} (enough : entries.length ≤ fuel) (known : Known) {blanks gap : Bytes}
    (blank : Blank blanks) (blankGap : Blank gap) (depth : Nat) (rest : Bytes) :
    Reader.members member fuel known (.document
        (blanks ++ (Text.join (separator depth) (entries.map text) ++ (gap ++ 0x7d :: rest)))) =
      some (entries.foldl update known, .document rest) := by
  induction entries generalizing fuel known blanks with
  | nil => exact absurd rfl filled
  | cons entry entries induction =>
      rw [List.length_cons] at enough
      obtain ⟨fuel, rfl⟩ : ∃ less, fuel = less + 1 := ⟨fuel - 1, by omega⟩
      have first := reads entry (by simp) known blanks
      cases entries with
      | nil =>
          have read := first (gap ++ 0x7d :: rest) blank (ends_behind blankGap (by decide))
          simp only [List.map_cons, List.map_nil, Text.join, Reader.members, read,
            mark_behind blankGap (show Input.isSpace 0x7d = false by decide), next_document,
            drop_document, if_true, List.foldl_cons, List.foldl_nil]
      | cons next entries =>
          have later := @induction (by simp) (fun other member => reads other (by simp [member])) fuel
            (by simpa using enough) (update known entry) (10 :: margin depth) (blank_margin depth)
          rw [List.map_cons, List.map_cons, join_cons_append, ← List.map_cons, Reader.members,
            first _ blank (ends_comma _)]
          simp only [mark_here (show Input.isSpace 0x2c = false by decide), next_document,
            drop_document, later]
          rw [if_neg (by decide), if_pos trivial]
          rfl

theorem starts_member (depth : Nat) (entry : Bytes × Json) : Starts (memberText depth entry) :=
  ⟨0x22, _, rfl, by decide, by decide, by decide⟩

theorem reads_braces {json : Entry → Bytes × Json} {depth : Nat} {entries : List Entry}
    (reads : ∀ entry ∈ entries, ∀ known,
      Reads member known (memberText (depth + 1) (json entry)) (update known entry))
    (cleared known : Known) :
    Reads (Reader.braces cleared member) known ((Json.object (entries.map json)).pretty depth)
      (entries.foldl update known) := by
  intro blanks rest blank ends
  cases entries with
  | nil =>
      have start : (Input.document (blanks ++ (pretty depth (.object []) ++ rest))).skipSpace =
          .document (0x7b :: 0x7d :: rest) := mark_behind blank (by decide) _
      simp only [List.map_nil, Reader.braces, start, next_document, drop_document,
        mark_here (show Input.isSpace 0x7d = false by decide), if_true, List.foldl_nil]
      rw [if_neg (by decide)]
  | cons first entries =>
      have pieces : ((first :: entries).map json).map (memberText (depth + 1)) =
          (first :: entries).map fun entry => memberText (depth + 1) (json entry) := by
        rw [List.map_map]
        rfl
      have startsAll : Starts (Text.join (separator (depth + 1))
          ((first :: entries).map fun entry => memberText (depth + 1) (json entry)) ++
            ((10 :: margin depth) ++ 0x7d :: rest)) :=
        starts_joined (depth + 1) (starts_member _ _) _ _
      have enough := length_joined (depth + 1)
        ((first :: entries).map fun entry => memberText (depth + 1) (json entry))
        (List.forall_mem_map.mpr fun entry _ => starts_member _ _)
        ((10 :: margin depth) ++ 0x7d :: rest)
      rw [List.length_map] at enough
      rw [List.map_cons, pretty_object, ← List.map_cons, pieces]
      simp only [Reader.braces, mark_behind blank (show Input.isSpace 0x7b = false by decide),
        next_document, drop_document]
      rw [if_neg (by decide), if_pos trivial]
      simp only [startsAll.skip (blank_margin (depth + 1)), if_neg startsAll.next.2, rest_document]
      exact @members_joined Known Entry member update _ _ (List.cons_ne_nil first entries) reads _
        enough known [] _ blank_nil (blank_margin depth) (depth + 1) rest

end Members

section Named

variable {Known Part : Type} {name : Bytes}

theorem member_text (named : isName name = true) (depth : Nat) (value : Json) (rest : Bytes) :
    memberText depth (name, value) ++ rest =
      0x22 :: (name ++ 0x22 :: (utf8 ": " ++ (value.pretty depth ++ rest))) := by
  rw [memberText, quote_name named]
  simp only [List.cons_append, List.append_assoc, List.nil_append]

theorem after_colon (rest : Bytes) :
    Reader.afterColon? (.document (utf8 ": " ++ rest)) = some (.document (0x20 :: rest)) := rfl

theorem blank_space : Blank [0x20] := by
  intro byte member
  rw [List.mem_singleton.mp member]
  rfl

theorem reads_table {value : Reader Part} {fresh : Part} {set : Known → Bytes → Part → Known}
    {empty : Known} {json : Part → Json} {depth : Nat} {entries : List (Bytes × Part)}
    (named : ∀ entry ∈ entries, isName entry.1 = true)
    (reads : ∀ entry ∈ entries, Reads value fresh ((json entry.2).pretty (depth + 1)) entry.2)
    (known : Known) :
    Reads (Reader.table value fresh set empty) known
      ((Json.object (entries.map fun entry => (entry.1, json entry.2))).pretty depth)
      (entries.foldl (fun known entry => set known entry.1 entry.2) known) := by
  apply reads_braces
  intro entry member known blanks rest blank ends
  have string (rest : Bytes) :
      Reader.text [] (.document (blanks ++ 0x22 :: (entry.1 ++ 0x22 :: rest))) =
        some (entry.1, .document rest) := by
    simp only [Reader.text, mark_behind blank (show Input.isSpace 0x22 = false by decide),
      next_document, drop_document, if_true]
    simp only [Input.readString, Input.document,
      read_stored_plain (name_plain (named entry member))]
    rfl
  have found := reads entry member [0x20] rest blank_space ends
  rw [List.singleton_append] at found
  simp only [member_text (named entry member), string, Option.bind_some, after_colon, found,
    Option.map_some]

theorem reads_member {fields : List (Field Known)} {read : Reader Known} {depth : Nat}
    {value : Json} {known after : Known} (named : isName name = true)
    (fits : (Candidate.narrow name (fields.map fun field =>
      Candidate.ofName (utf8 field.name) field.read)).head? = some ⟨read, name.length, []⟩)
    (reads : Reads read known (value.pretty depth) after) :
    Reads (Reader.member fields) known (memberText depth (name, value)) after := by
  intro blanks rest blank ends
  have narrowed : Candidate.narrow name (fields.map fun field =>
      Candidate.ofName (utf8 field.name) field.read) ≠ [] := by
    intro none
    simp [none] at fits
  have enough : name.length <
      (0x22 :: (name ++ 0x22 :: (utf8 ": " ++ (value.pretty depth ++ rest)))).length := by
    simp only [List.length_cons, List.length_append]
    omega
  have key := read_key_plain .document 0 (name_plain named) narrowed enough
    (utf8 ": " ++ (value.pretty depth ++ rest))
  have found := reads [0x20] rest blank_space ends
  have colon : (Reader.afterColon? (.document (utf8 ": " ++ (value.pretty depth ++ rest)))).bind
      (fun start => read known start) = .some (after, .document rest) := by
    rw [after_colon]
    exact found
  rw [member_text named]
  simp only [Reader.member, mark_behind blank (show Input.isSpace 0x22 = false by decide),
    next_document, rest_document, List.drop_succ_cons, List.drop_zero, if_true]
  simp only [Input.document] at key colon ⊢
  rw [key, fits]
  simp only [Nat.zero_add, Option.filter_some, Nat.le_refl, decide_true, if_true, Option.map_some]
  exact colon

end Named

end ExprCompiler.Json
