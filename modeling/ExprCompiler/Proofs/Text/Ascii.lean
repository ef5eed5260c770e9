import ExprCompiler.Text.Blank
import ExprCompiler.Text.LowerCase

/-!
Texts of ASCII bytes. Every byte of such a text is a glyph of its own, so trimming and lower-casing
can be told by looking at bytes. A text is tight when no white space stands at its ends.
-/

namespace ExprCompiler.Text

/-- What is said of the bytes of a text is decided by going through the text, not through all bytes
there are. -/
instance (priority := 2000) decidableForallByte {property : UInt8 → Prop}
    [DecidablePred property] (text : Bytes) : Decidable (∀ byte ∈ text, property byte) :=
  List.decidableBAll property text

instance (priority := 2000) decidableForallHead {property : UInt8 → Prop}
    [DecidablePred property] (head : Option UInt8) : Decidable (∀ byte ∈ head, property byte) :=
  Option.decidableForallMem head

def Ascii (text : Bytes) : Prop := ∀ byte ∈ text, byte.toNat < 0x80

instance (text : Bytes) : Decidable (Ascii text) :=
  inferInstanceAs (Decidable (∀ byte ∈ text, byte.toNat < 0x80))

def isBlankByte (byte : UInt8) : Bool := isBlank byte.toNat

def asciiGlyph (byte : UInt8) : Glyph := ⟨byte.toNat, [byte]⟩

@[simp] theorem ascii_nil : Ascii [] := by
  intro byte member
  cases member

@[simp] theorem ascii_cons (byte : UInt8) (text : Bytes) :
    Ascii (byte :: text) ↔ byte.toNat < 0x80 ∧ Ascii text := by
  simp [Ascii]

@[simp] theorem ascii_append (left right : Bytes) :
    Ascii (left ++ right) ↔ Ascii left ∧ Ascii right := by
  simp only [Ascii, List.mem_append]
  constructor
  · intro all
    exact ⟨fun byte member => all byte (.inl member), fun byte member => all byte (.inr member)⟩
  · rintro ⟨inLeft, inRight⟩ byte (member | member)
    · exact inLeft byte member
    · exact inRight byte member

/-- The printable characters of ASCII but the tilde, with which some character sets change over to
another alphabet. -/
def isPlainByte (byte : UInt8) : Bool := 0x20 ≤ byte.toNat && byte.toNat < 0x7e

def Plain (text : Bytes) : Prop := ∀ byte ∈ text, byte = 10 ∨ isPlainByte byte = true

instance (text : Bytes) : Decidable (Plain text) :=
  inferInstanceAs (Decidable (∀ byte ∈ text, byte = 10 ∨ isPlainByte byte = true))

theorem plain_byte_ascii {byte : UInt8} (plain : isPlainByte byte = true) :
    byte.toNat < 0x80 ∧ byte ≠ 10 := by
  simp only [isPlainByte, Bool.and_eq_true, decide_eq_true_eq] at plain
  refine ⟨by omega, ?_⟩
  rintro rfl
  simp at plain

theorem Plain.ascii {text : Bytes} (plain : Plain text) : Ascii text := by
  intro byte member
  rcases plain byte member with rfl | printable
  · decide
  · exact (plain_byte_ascii printable).1

theorem first_glyph_ascii {lead : UInt8} (rest : Bytes) (small : lead.toNat < 0x80) :
    firstGlyph lead rest = asciiGlyph lead := by
  simp [firstGlyph, small, asciiGlyph]

theorem glyphs_ascii_cons {byte : UInt8} (small : byte.toNat < 0x80) (rest : Bytes) :
    glyphs (byte :: rest) = asciiGlyph byte :: glyphs rest := by
  rw [glyphs, first_glyph_ascii rest small]
  rfl

theorem glyphs_ascii_append {front : Bytes} (ascii : Ascii front) (rest : Bytes) :
    glyphs (front ++ rest) = front.map asciiGlyph ++ glyphs rest := by
  induction front with
  | nil => rfl
  | cons byte front induction =>
      obtain ⟨small, later⟩ := (ascii_cons byte front).mp ascii
      rw [List.cons_append, glyphs_ascii_cons small, induction later, List.map_cons,
        List.cons_append]

theorem glyphs_ascii {text : Bytes} (ascii : Ascii text) : glyphs text = text.map asciiGlyph := by
  have whole := glyphs_ascii_append ascii []
  rwa [glyphs, List.append_nil, List.append_nil] at whole

@[simp] theorem glyph_bytes_ascii (text : Bytes) : glyphBytes (text.map asciiGlyph) = text := by
  induction text with
  | nil => rfl
  | cons lead rest induction => simpa [glyphBytes, asciiGlyph] using induction

theorem blank_ascii_glyph : Glyph.isBlank ∘ asciiGlyph = isBlankByte := rfl

theorem trim_ascii {text : Bytes} (ascii : Ascii text) :
    trim text = ((text.dropWhile isBlankByte).reverse.dropWhile isBlankByte).reverse := by
  rw [trim, glyphs_ascii ascii, List.dropWhile_map, ← List.map_reverse, List.dropWhile_map,
    ← List.map_reverse, glyph_bytes_ascii, blank_ascii_glyph]

/-- An ASCII text without white space at its ends. -/
structure Tight (text : Bytes) : Prop where
  ascii : Ascii text
  starts : ∀ byte ∈ text.head?, isBlankByte byte = false
  ends : ∀ byte ∈ text.getLast?, isBlankByte byte = false

theorem drop_while_of_head {Item : Type} {test : Item → Bool} {items : List Item}
    (front : ∀ item ∈ items.head?, test item = false) : items.dropWhile test = items := by
  cases items with
  | nil => rfl
  | cons first rest => rw [List.dropWhile_cons_of_neg (by simp [front first (by simp)])]

theorem Tight.trim {text : Bytes} (tight : Tight text) : Text.trim text = text := by
  have reversed : text.reverse.dropWhile isBlankByte = text.reverse := by
    apply drop_while_of_head
    intro byte member
    rw [List.head?_reverse] at member
    exact tight.ends byte member
  rw [trim_ascii tight.ascii, drop_while_of_head tight.starts, reversed, List.reverse_reverse]

theorem Tight.trim_indented {text indent : Bytes} (tight : Tight text)
    (blank : ∀ byte ∈ indent, byte.toNat < 0x80 ∧ isBlankByte byte = true) :
    Text.trim (indent ++ text) = text := by
  have ascii : Ascii (indent ++ text) :=
    (ascii_append indent text).mpr ⟨fun byte member => (blank byte member).1, tight.ascii⟩
  have dropped : (indent ++ text).dropWhile isBlankByte = text.dropWhile isBlankByte :=
    List.dropWhile_append_of_pos fun byte member => (blank byte member).2
  rw [trim_ascii ascii, dropped, ← trim_ascii tight.ascii, tight.trim]

structure Solid (text : Bytes) : Prop where
  ascii : Ascii text
  visible : ∀ byte ∈ text, isBlankByte byte = false

theorem Solid.tight {text : Bytes} (solid : Solid text) : Tight text where
  ascii := solid.ascii
  starts := fun byte member => solid.visible byte (List.mem_of_mem_head? member)
  ends := fun byte member => solid.visible byte (List.mem_of_mem_getLast? member)

theorem solid_of_all {text : Bytes}
    (all : text.all (fun byte => decide (byte.toNat < 0x80) && !isBlankByte byte) = true) :
    Solid text := by
  simp only [List.all_eq_true, Bool.and_eq_true, decide_eq_true_eq, Bool.not_eq_true'] at all
  exact ⟨fun byte member => (all byte member).1, fun byte member => (all byte member).2⟩

theorem Solid.append {left right : Bytes} (first : Solid left) (second : Solid right) :
    Solid (left ++ right) where
  ascii := (ascii_append left right).mpr ⟨first.ascii, second.ascii⟩
  visible := by
    intro byte member
    rcases List.mem_append.mp member with inLeft | inRight
    · exact first.visible byte inLeft
    · exact second.visible byte inRight

theorem Tight.around {left middle right : Bytes} (first : Tight left) (second : Tight right)
    (some : left ≠ []) (other : right ≠ []) (ascii : Ascii middle) :
    Tight (left ++ middle ++ right) where
  ascii := by simp [first.ascii, second.ascii, ascii]
  starts := by
    intro byte member
    apply first.starts byte
    rwa [List.append_assoc, List.head?_append, List.head?_eq_some_head some,
      Option.some_or, ← List.head?_eq_some_head some] at member
  ends := by
    intro byte member
    apply second.ends byte
    rwa [List.getLast?_append, List.getLast?_eq_some_getLast other, Option.some_or,
      ← List.getLast?_eq_some_getLast other] at member

def lowerByte (byte : UInt8) : UInt8 := UInt8.ofNat (lowerCode byte.toNat)

theorem lower_code_small {code : Nat} (small : code < 0x80) : lowerCode code < 0x80 := by
  rw [lowerCode, if_pos small]
  split
  · rename_i capital
    simp only [Bool.and_eq_true, decide_eq_true_eq] at capital
    omega
  · exact small

theorem lower_case_ascii {text : Bytes} (ascii : Ascii text) :
    lowerCase text = text.map lowerByte := by
  rw [lowerCase, glyphs_ascii ascii]
  induction text with
  | nil => rfl
  | cons byte rest induction =>
      obtain ⟨small, smallRest⟩ := (ascii_cons byte rest).mp ascii
      have written : encodeScalar (lowerCode byte.toNat) = [lowerByte byte] := by
        rw [encodeScalar, if_pos (lower_code_small small), lowerByte]
      rw [List.map_cons, List.flatMap_cons, induction smallRest, asciiGlyph, written]
      rfl

theorem lower_case_same {text : Bytes} (ascii : Ascii text)
    (small : ∀ byte ∈ text, byte.toNat < 0x41 ∨ 0x5a < byte.toNat) : lowerCase text = text := by
  rw [lower_case_ascii ascii]
  refine (List.map_congr_left ?_).trans (List.map_id text)
  intro byte member
  have notCapital := small byte member
  have kept : lowerCode byte.toNat = byte.toNat := by
    rw [lowerCode, if_pos (ascii byte member), if_neg]
    simp only [Bool.and_eq_true, decide_eq_true_eq]
    omega
  rw [lowerByte, kept, UInt8.ofNat_toNat, id]

theorem join_cons_cons (separator piece next : Bytes) (pieces : List Bytes) :
    join separator (piece :: next :: pieces) =
      piece ++ separator ++ join separator (next :: pieces) := rfl

theorem split_from_row {row : Bytes} (noBreak : ∀ byte ∈ row, byte ≠ 10) (piece rest : Bytes) :
    splitFrom 10 piece (row ++ 10 :: rest) = (piece.reverse ++ row) :: splitFrom 10 [] rest := by
  induction row generalizing piece with
  | nil => simp [splitFrom]
  | cons byte row induction =>
      have here : byte ≠ 10 := noBreak byte (by simp)
      rw [List.cons_append, splitFrom, if_neg here,
        induction (fun other member => noBreak other (by simp [member]))]
      simp

theorem lines_append {row : Bytes} (noBreak : ∀ byte ∈ row, byte ≠ 10) (rest : Bytes) :
    lines (row ++ 10 :: rest) = row :: lines rest := by
  rw [lines, splitOn, split_from_row noBreak]
  rfl

/-- Rows that each end with a newline are the lines of their text, up to an empty last one. -/
theorem lines_of_rows (rows : List Bytes) (whole : ∀ row ∈ rows, ∀ byte ∈ row, byte ≠ 10) :
    lines (rows.flatMap (· ++ [10])) = rows ++ [[]] := by
  induction rows with
  | nil => rfl
  | cons row rows induction =>
      rw [List.flatMap_cons, List.append_assoc, List.singleton_append,
        lines_append (whole row (by simp)),
        induction fun other member => whole other (by simp [member]), List.cons_append]

end ExprCompiler.Text
