import ExprCompiler.Proofs.Text.Ascii
import ExprCompiler.Proofs.Text.Utf8

/-!
White space in texts of any characters. A text is framed when no white space stands at its ends, and
unbroken when there is none in it at all. What trimming leaves is framed, and the word that is split
off a text is unbroken; the other way round, texts of these shapes come out as they went in.
-/

namespace ExprCompiler.Text

section Decoding

variable {lead byte : UInt8} {text : Bytes}

theorem first_glyph_shorter {short long : Bytes} (front : short <+: long)
    (fits : (firstGlyph lead long).bytes <+: lead :: short) :
    firstGlyph lead short = firstGlyph lead long := by
  rcases first_glyph_cases lead long with ⟨char, _, found⟩ | ⟨noChar, found⟩
  · rw [found] at fits ⊢
    obtain ⟨later, split⟩ := fits
    exact first_glyph_encoded split.symm
  · rcases first_glyph_cases lead short with ⟨char, encoded, _⟩ | ⟨_, alone⟩
    · have inLong : lead :: short <+: lead :: long := by
        rw [List.cons_prefix_cons]
        exact ⟨rfl, front⟩
      exact absurd (encoded.trans inLong) (noChar char)
    · rw [alone, found]

/-- A glyph does not reach past a byte of the ASCII range. -/
theorem first_glyph_before_ascii (small : byte.toNat < 0x80) (rest later : Bytes) :
    firstGlyph lead (rest ++ byte :: later) = firstGlyph lead rest := by
  obtain ⟨whole, taken, left, split, bytes⟩ := first_glyph_shape lead (rest ++ byte :: later)
  have high : ∀ other ∈ taken, 0x80 ≤ other.toNat := by
    intro other member
    rcases whole with ⟨single, _, alone⟩ | high
    · rw [alone] at bytes
      rw [← (List.cons.inj bytes).2] at member
      cases member
    · exact high other (by simp [bytes, member])
  have inRest : taken <+: rest := by
    rcases List.append_eq_append_iff.mp split with ⟨more, reaches, behind⟩ | ⟨more, inside, _⟩
    · cases more with
      | nil => simp [reaches]
      | cons first more =>
          obtain ⟨rfl, _⟩ := List.cons.inj behind
          exact absurd small (Nat.not_lt.mpr (high byte (by simp [reaches])))
    · rw [inside]
      exact List.prefix_append taken more
  refine (first_glyph_shorter (List.prefix_append rest _) ?_).symm
  rw [bytes, List.cons_prefix_cons]
  exact ⟨rfl, inRest⟩

theorem glyphs_before_ascii (small : byte.toNat < 0x80) (text later : Bytes) :
    glyphs (text ++ byte :: later) = glyphs text ++ asciiGlyph byte :: glyphs later := by
  fun_induction glyphs text with
  | case1 => exact glyphs_ascii_cons small later
  | case2 lead rest induction =>
      obtain ⟨_, taken, left, split, bytes⟩ := first_glyph_shape lead rest
      have behind : (firstGlyph lead rest).bytes.length - 1 = taken.length := by simp [bytes]
      rw [behind, split, List.drop_left] at induction
      rw [List.cons_append, glyphs, first_glyph_before_ascii small, behind, split,
        List.append_assoc, List.drop_left, List.drop_left, induction, List.cons_append]

/-- A text cut between two glyphs is read as the glyphs before and behind the cut. -/
theorem glyphs_of_cut {front back : List Glyph} (cut : glyphs text = front ++ back) :
    glyphs (glyphBytes front) = front ∧ glyphs (glyphBytes back) = back := by
  induction front generalizing text with
  | nil =>
      rw [List.nil_append] at cut
      rw [← cut, glyph_bytes_glyphs]
      exact ⟨by rw [glyphBytes, List.flatMap_nil, glyphs], rfl⟩
  | cons glyph front induction =>
      cases text with
      | nil =>
          rw [glyphs] at cut
          cases cut
      | cons lead rest =>
          rw [glyphs, List.cons_append] at cut
          obtain ⟨rfl, later⟩ := List.cons.inj cut
          obtain ⟨_, taken, left, split, bytes⟩ := first_glyph_shape lead rest
          have behind : (firstGlyph lead rest).bytes.length - 1 = taken.length := by simp [bytes]
          rw [behind] at later
          obtain ⟨frontRead, backRead⟩ := induction later
          refine ⟨?_, backRead⟩
          have leftBytes : left = glyphBytes front ++ glyphBytes back := by
            have joined := congrArg glyphBytes later
            rwa [glyph_bytes_glyphs, split, List.drop_left, glyphBytes,
              List.flatMap_append] at joined
          have same : firstGlyph lead (taken ++ glyphBytes front) = firstGlyph lead rest := by
            apply first_glyph_shorter
            · rw [split, leftBytes, ← List.append_assoc]
              exact List.prefix_append _ _
            · rw [bytes, List.cons_prefix_cons]
              exact ⟨rfl, List.prefix_append taken _⟩
          rw [glyphBytes, List.flatMap_cons, bytes, List.cons_append, ← glyphBytes, glyphs, same,
            behind, List.drop_left, frontRead]

theorem ascii_glyph_of_mem (small : byte.toNat < 0x80) (member : byte ∈ text) :
    asciiGlyph byte ∈ glyphs text := by
  rw [← glyph_bytes_glyphs text, glyphBytes, List.mem_flatMap] at member
  obtain ⟨glyph, inText, inGlyph⟩ := member
  rcases glyphs_whole text glyph inText with ⟨other, _, rfl⟩ | high
  · rw [List.mem_singleton.mp inGlyph]
    exact inText
  · exact absurd small (Nat.not_lt.mpr (high byte inGlyph))

theorem glyphs_ne_nil (some : text ≠ []) : glyphs text ≠ [] := by
  intro none
  have bytes := glyph_bytes_glyphs text
  rw [none] at bytes
  exact some bytes.symm

end Decoding

structure Framed (text : Bytes) : Prop where
  starts : ∀ glyph ∈ (glyphs text).head?, glyph.isBlank = false
  ends : ∀ glyph ∈ (glyphs text).getLast?, glyph.isBlank = false

def Unbroken (text : Bytes) : Prop := ∀ glyph ∈ glyphs text, glyph.isBlank = false

section Shapes

variable {text left right : Bytes} {byte : UInt8}

theorem Unbroken.framed (unbroken : Unbroken text) : Framed text where
  starts := fun glyph member => unbroken glyph (List.mem_of_mem_head? member)
  ends := fun glyph member => unbroken glyph (List.mem_of_mem_getLast? member)

theorem Tight.framed (tight : Tight text) : Framed text where
  starts := by
    rw [glyphs_ascii tight.ascii, List.head?_map]
    intro glyph member
    obtain ⟨byte, front, rfl⟩ := Option.map_eq_some_iff.mp member
    exact tight.starts byte front
  ends := by
    rw [glyphs_ascii tight.ascii, List.getLast?_map]
    intro glyph member
    obtain ⟨byte, last, rfl⟩ := Option.map_eq_some_iff.mp member
    exact tight.ends byte last

theorem Solid.unbroken (solid : Solid text) : Unbroken text := by
  intro glyph member
  rw [glyphs_ascii solid.ascii] at member
  obtain ⟨byte, inText, rfl⟩ := List.mem_map.mp member
  exact solid.visible byte inText

theorem unbroken_nil : Unbroken [] := by
  intro glyph member
  rw [glyphs] at member
  cases member

/-- A byte that is no white space keeps two unbroken texts together. -/
theorem Unbroken.around (first : Unbroken left) (second : Unbroken right)
    (small : byte.toNat < 0x80) (visible : isBlankByte byte = false) :
    Unbroken (left ++ byte :: right) := by
  intro glyph member
  rw [glyphs_before_ascii small, List.mem_append, List.mem_cons] at member
  rcases member with inLeft | rfl | inRight
  · exact first glyph inLeft
  · exact visible
  · exact second glyph inRight

theorem Framed.around {middle : Bytes} (first : Framed left) (second : Framed right)
    (some : left ≠ []) (other : right ≠ []) (small : byte.toNat < 0x80) (ascii : Ascii middle) :
    Framed (left ++ byte :: (middle ++ right)) where
  starts := by
    rw [glyphs_before_ascii small, List.head?_append, List.head?_eq_some_head (glyphs_ne_nil some),
      Option.some_or, ← List.head?_eq_some_head (glyphs_ne_nil some)]
    exact first.starts
  ends := by
    rw [glyphs_before_ascii small, glyphs_ascii_append ascii, ← List.cons_append,
      ← List.append_assoc, List.getLast?_append,
      List.getLast?_eq_some_getLast (glyphs_ne_nil other), Option.some_or,
      ← List.getLast?_eq_some_getLast (glyphs_ne_nil other)]
    exact second.ends

end Shapes

section Trimming

variable {text head rest : Bytes}

theorem Framed.trim (framed : Framed text) : Text.trim text = text := by
  have reversed : ∀ glyph ∈ (glyphs text).reverse.head?, glyph.isBlank = false := by
    rw [List.head?_reverse]
    exact framed.ends
  rw [Text.trim, drop_while_of_head framed.starts, drop_while_of_head reversed,
    List.reverse_reverse, glyph_bytes_glyphs]

theorem Framed.trim_indented {indent : Bytes} (framed : Framed text)
    (blank : ∀ byte ∈ indent, byte.toNat < 0x80 ∧ isBlankByte byte = true) :
    Text.trim (indent ++ text) = text := by
  have blanks : ∀ glyph ∈ indent.map asciiGlyph, glyph.isBlank = true := by
    intro glyph member
    obtain ⟨byte, inIndent, rfl⟩ := List.mem_map.mp member
    exact (blank byte inIndent).2
  have dropped : (glyphs (indent ++ text)).dropWhile Glyph.isBlank = glyphs text := by
    rw [glyphs_ascii_append fun byte member => (blank byte member).1,
      List.dropWhile_append_of_pos blanks, drop_while_of_head framed.starts]
  have trimmed := framed.trim
  rw [Text.trim, drop_while_of_head framed.starts] at trimmed
  rw [Text.trim, dropped, trimmed]

theorem framed_trim (text : Bytes) : Framed (Text.trim text) := by
  have frontCut := @List.takeWhile_append_dropWhile _ Glyph.isBlank (glyphs text)
  have backCut := @List.takeWhile_append_dropWhile _ Glyph.isBlank
    ((glyphs text).dropWhile Glyph.isBlank).reverse
  have starts := List.head?_dropWhile_not Glyph.isBlank (glyphs text)
  have ends := List.head?_dropWhile_not Glyph.isBlank
    ((glyphs text).dropWhile Glyph.isBlank).reverse
  have trimmed : Text.trim text = glyphBytes
      (((glyphs text).dropWhile Glyph.isBlank).reverse.dropWhile Glyph.isBlank).reverse := rfl
  generalize (glyphs text).takeWhile Glyph.isBlank = front at frontCut
  generalize (glyphs text).dropWhile Glyph.isBlank = later at frontCut backCut starts ends trimmed
  generalize later.reverse.takeWhile Glyph.isBlank = back at backCut
  generalize later.reverse.dropWhile Glyph.isBlank = kept at backCut ends trimmed
  have laterCut : later = kept.reverse ++ back.reverse := by
    rw [← List.reverse_append, backCut, List.reverse_reverse]
  have read : glyphs (Text.trim text) = kept.reverse := by
    have laterRead := (glyphs_of_cut frontCut.symm).2
    rw [trimmed]
    exact (glyphs_of_cut (laterRead.trans laterCut)).1
  constructor
  · intro glyph member
    rw [read] at member
    rw [laterCut, List.head?_append, Option.mem_def.mp member, Option.some_or] at starts
    simpa using starts
  · intro glyph member
    rw [read, List.getLast?_reverse] at member
    rw [Option.mem_def.mp member] at ends
    simpa using ends

theorem split_head_unbroken (text : Bytes) : Unbroken (splitHead text).1 := by
  have cut := @List.takeWhile_append_dropWhile _ (fun glyph : Glyph => !glyph.isBlank)
    (glyphs (Text.trim text))
  intro glyph member
  rw [splitHead, (glyphs_of_cut cut.symm).1] at member
  simpa using List.all_eq_true.mp List.all_takeWhile glyph member

theorem split_head_empty (empty : (splitHead text).1 = []) : (splitHead text).2 = [] := by
  have starts := (framed_trim text).starts
  rw [splitHead] at empty ⊢
  generalize Text.trim text = inner at empty starts ⊢
  cases inner with
  | nil =>
      rw [glyphs]
      exact unbroken_nil.framed.trim
  | cons lead rest =>
      obtain ⟨_, taken, left, _, bytes⟩ := first_glyph_shape lead rest
      rw [glyphs] at empty starts
      have visible := starts (firstGlyph lead rest) rfl
      rw [List.takeWhile_cons_of_pos (by simp [visible]), glyphBytes, List.flatMap_cons,
        bytes] at empty
      cases empty

theorem split_head_alone (unbroken : Unbroken text) : splitHead text = (text, []) := by
  have all : ∀ glyph ∈ glyphs text, (!glyph.isBlank) = true := by
    intro glyph member
    rw [unbroken glyph member]
    rfl
  have taken := @List.takeWhile_append_of_pos _ _ (glyphs text) [] all
  have dropped := @List.dropWhile_append_of_pos _ _ (glyphs text) [] all
  rw [List.append_nil, List.takeWhile_nil, List.append_nil] at taken
  rw [List.append_nil, List.dropWhile_nil] at dropped
  rw [splitHead, unbroken.framed.trim, taken, dropped, glyph_bytes_glyphs]
  exact congrArg (Prod.mk text) unbroken_nil.framed.trim

theorem split_head_pair (unbroken : Unbroken head) (some : head ≠ []) (framed : Framed rest)
    (other : rest ≠ []) : splitHead (head ++ 0x20 :: rest) = (head, rest) := by
  have all : ∀ glyph ∈ glyphs head, (!glyph.isBlank) = true := by
    intro glyph member
    rw [unbroken glyph member]
    rfl
  have small : (0x20 : UInt8).toNat < 0x80 := by decide
  have blank : (asciiGlyph 0x20).isBlank = true := by decide
  have behind : glyphBytes (asciiGlyph 0x20 :: glyphs rest) = [0x20] ++ rest := by
    rw [glyphBytes, List.flatMap_cons, ← glyphBytes, glyph_bytes_glyphs]
    rfl
  have whole : Framed (head ++ 0x20 :: rest) :=
    unbroken.framed.around framed some other small ascii_nil
  rw [splitHead, whole.trim, glyphs_before_ascii small,
    List.takeWhile_append_of_pos all, List.dropWhile_append_of_pos all,
    List.takeWhile_cons_of_neg (by simp [blank]), List.dropWhile_cons_of_neg (by simp [blank]),
    List.append_nil, glyph_bytes_glyphs, behind, framed.trim_indented (by decide)]

theorem Solid.split_head (solid : Solid text) : splitHead text = (text, []) :=
  split_head_alone solid.unbroken

theorem split_head_words (solid : Solid head) (some : head ≠ []) (tight : Tight rest)
    (other : rest ≠ []) : splitHead (head ++ 0x20 :: rest) = (head, rest) :=
  split_head_pair solid.unbroken some tight.framed other

end Trimming

end ExprCompiler.Text
