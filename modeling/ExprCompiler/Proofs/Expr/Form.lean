import ExprCompiler.Expr.Basic
import ExprCompiler.Proofs.Text.Quoted

/-!
The one-line text of a tree without the kinds of its nodes: words and quoted texts, and parentheses
that hold a head and one or two parts. A form can be told from its text and from whatever stands
behind it, because the first byte tells a word, a quote and a parenthesis apart, and a word ends
where a space or a parenthesis begins.
-/

namespace ExprCompiler

/-- What the text of a node shows. -/
inductive Form where
  | atom (text : Bytes)
  | one (head : Bytes) (part : Form)
  | two (head : Bytes) (left right : Form)

namespace Form

def text : Form → Bytes
  | atom text => text
  | one head part => Expr.listText [head, part.text]
  | two head left right => Expr.listText [head, left.text, right.text]

def isWordByte (byte : UInt8) : Bool :=
  !([0x20, 0x28, 0x29, Text.doubleQuote].contains byte)

inductive Atom : Bytes → Prop where
  | word {text : Bytes} (nonempty : text ≠ []) (parts : ∀ byte ∈ text, isWordByte byte = true) :
      Atom text
  | quoted (content : Bytes) : Atom (Text.quote content)

inductive Legible : Form → Prop where
  | atom {text : Bytes} (isAtom : Atom text) : Legible (.atom text)
  | one {head : Bytes} {part : Form} (word : ∀ byte ∈ head, isWordByte byte = true)
      (only : Legible part) : Legible (.one head part)
  | two {head : Bytes} {left right : Form} (word : ∀ byte ∈ head, isWordByte byte = true)
      (first : Legible left) (second : Legible right) : Legible (.two head left right)

/-- What may stand behind a form: nothing, or a byte that no word holds. -/
def Ends (rest : Bytes) : Prop := ∀ byte ∈ rest.head?, isWordByte byte = false

theorem ends_space (rest : Bytes) : Ends (0x20 :: rest) := by
  intro byte member
  rw [← Option.some.inj member]
  decide

theorem ends_parenthesis (rest : Bytes) : Ends (0x29 :: rest) := by
  intro byte member
  rw [← Option.some.inj member]
  decide

theorem text_one (head : Bytes) (part : Form) (rest : Bytes) :
    (one head part).text ++ rest = 0x28 :: (head ++ 0x20 :: (part.text ++ 0x29 :: rest)) := by
  simp [text, Expr.listText, Text.join, show utf8 "(" = [0x28] by decide,
    show utf8 " " = [0x20] by decide, show utf8 ")" = [0x29] by decide]

theorem text_two (head : Bytes) (left right : Form) (rest : Bytes) :
    (two head left right).text ++ rest =
      0x28 :: (head ++ 0x20 :: (left.text ++ 0x20 :: (right.text ++ 0x29 :: rest))) := by
  simp [text, Expr.listText, Text.join, show utf8 "(" = [0x28] by decide,
    show utf8 " " = [0x20] by decide, show utf8 ")" = [0x29] by decide]

section Apart

variable {rest otherRest : Bytes}

theorem take_word {word : Bytes} (parts : ∀ byte ∈ word, isWordByte byte = true)
    (ends : Ends rest) : (word ++ rest).takeWhile isWordByte = word := by
  rw [List.takeWhile_append_of_pos parts]
  cases rest with
  | nil => exact List.append_nil word
  | cons byte rest =>
      rw [List.takeWhile_cons_of_neg (by simp [ends byte rfl]), List.append_nil]

/-- A word ends where the first byte stands that no word holds. -/
theorem words_apart {word other : Bytes} (parts : ∀ byte ∈ word, isWordByte byte = true)
    (otherParts : ∀ byte ∈ other, isWordByte byte = true) (ends : Ends rest)
    (otherEnds : Ends otherRest) (same : word ++ rest = other ++ otherRest) :
    word = other ∧ rest = otherRest := by
  have words := congrArg (List.takeWhile isWordByte) same
  rw [take_word parts ends, take_word otherParts otherEnds] at words
  rw [words] at same
  exact ⟨words, List.append_cancel_left same⟩

theorem no_quoted_word {word content : Bytes} (nonempty : word ≠ [])
    (parts : ∀ byte ∈ word, isWordByte byte = true) :
    word ++ rest ≠ Text.quote content ++ otherRest := by
  intro same
  obtain ⟨first, later, rfl⟩ := List.exists_cons_of_ne_nil nonempty
  have quotes : first = Text.doubleQuote := (List.cons.inj same).1
  have isWord := parts first (by simp)
  rw [quotes] at isWord
  exact absurd isWord (by decide)

theorem atoms_apart {text other : Bytes} (isAtom : Atom text) (isAtom' : Atom other)
    (ends : Ends rest) (otherEnds : Ends otherRest) (same : text ++ rest = other ++ otherRest) :
    text = other ∧ rest = otherRest := by
  cases isAtom with
  | word nonempty parts =>
      cases isAtom' with
      | word _ otherParts => exact words_apart parts otherParts ends otherEnds same
      | quoted content => exact absurd same (no_quoted_word nonempty parts)
  | quoted content =>
      cases isAtom' with
      | word nonempty otherParts => exact absurd same.symm (no_quoted_word nonempty otherParts)
      | quoted other =>
          obtain ⟨rfl, rests⟩ := Text.quoted_apart same
          exact ⟨rfl, rests⟩

theorem atom_start {text : Bytes} (isAtom : Atom text) (later : Bytes) :
    text ++ rest ≠ 0x28 :: later := by
  intro same
  cases isAtom with
  | word nonempty parts =>
      obtain ⟨first, others, rfl⟩ := List.exists_cons_of_ne_nil nonempty
      have opens : first = 0x28 := (List.cons.inj same).1
      have isWord := parts first (by simp)
      rw [opens] at isWord
      exact absurd isWord (by decide)
  | quoted content => exact absurd (List.cons.inj same).1 (by decide)

theorem heads_apart {head other : Bytes} (word : ∀ byte ∈ head, isWordByte byte = true)
    (otherWord : ∀ byte ∈ other, isWordByte byte = true)
    (same : 0x28 :: (head ++ 0x20 :: rest) = 0x28 :: (other ++ 0x20 :: otherRest)) :
    head = other ∧ rest = otherRest := by
  obtain ⟨heads, behind⟩ := words_apart word otherWord (ends_space rest) (ends_space otherRest)
    (List.cons.inj same).2
  exact ⟨heads, (List.cons.inj behind).2⟩

end Apart

/-- A form can be told from the text that starts with it. -/
theorem forms_apart {form other : Form} {rest otherRest : Bytes} (legible : form.Legible)
    (otherLegible : other.Legible) (ends : Ends rest) (otherEnds : Ends otherRest)
    (same : form.text ++ rest = other.text ++ otherRest) : form = other ∧ rest = otherRest := by
  induction legible generalizing other rest otherRest with
  | @atom text isAtom =>
      cases otherLegible with
      | atom isAtom' =>
          obtain ⟨rfl, rests⟩ := atoms_apart isAtom isAtom' ends otherEnds same
          exact ⟨rfl, rests⟩
      | one _ _ =>
          rw [text_one] at same
          exact absurd same (atom_start isAtom _)
      | two _ _ _ =>
          rw [text_two] at same
          exact absurd same (atom_start isAtom _)
  | @one head part word _ partApart =>
      rw [text_one] at same
      cases otherLegible with
      | atom isAtom' => exact absurd same.symm (atom_start isAtom' _)
      | one otherWord otherPart =>
          rw [text_one] at same
          obtain ⟨rfl, behind⟩ := heads_apart word otherWord same
          obtain ⟨rfl, rests⟩ :=
            partApart otherPart (ends_parenthesis _) (ends_parenthesis _) behind
          exact ⟨rfl, (List.cons.inj rests).2⟩
      | two otherWord otherLeft _ =>
          -- Behind the first part stands a parenthesis here and a space there.
          rw [text_two] at same
          obtain ⟨_, behind⟩ := heads_apart word otherWord same
          obtain ⟨_, rests⟩ := partApart otherLeft (ends_parenthesis _) (ends_space _) behind
          exact absurd (List.cons.inj rests).1 (by decide)
  | @two head left right word _ _ leftApart rightApart =>
      rw [text_two] at same
      cases otherLegible with
      | atom isAtom' => exact absurd same.symm (atom_start isAtom' _)
      | one otherWord otherPart =>
          rw [text_one] at same
          obtain ⟨_, behind⟩ := heads_apart word otherWord same
          obtain ⟨_, rests⟩ := leftApart otherPart (ends_space _) (ends_parenthesis _) behind
          exact absurd (List.cons.inj rests).1 (by decide)
      | two otherWord otherLeft otherRight =>
          rw [text_two] at same
          obtain ⟨rfl, behind⟩ := heads_apart word otherWord same
          obtain ⟨rfl, between⟩ := leftApart otherLeft (ends_space _) (ends_space _) behind
          obtain ⟨rfl, rests⟩ := rightApart otherRight (ends_parenthesis _) (ends_parenthesis _)
            (List.cons.inj between).2
          exact ⟨rfl, (List.cons.inj rests).2⟩

end Form

end ExprCompiler
