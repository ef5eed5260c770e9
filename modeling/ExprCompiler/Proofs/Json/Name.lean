import ExprCompiler.Assembly.OperandText
import ExprCompiler.Json.Basic
import ExprCompiler.Json.Object
import ExprCompiler.Proofs.Text.Glyphs

/-!
Names in JSON. The names of labels hold nothing that a string escapes, so they are written as they
stand between quotes, and are read back as strings and as keys.
-/

namespace ExprCompiler.Json

def isPlain (byte : UInt8) : Bool := byte != 0 && byte != 0x22 && byte != 0x5c

theorem plain_of_value {byte : UInt8} (visible : 0x20 ≤ byte.toNat) (noQuote : byte.toNat ≠ 0x22)
    (noSlash : byte.toNat ≠ 0x5c) : isPlain byte = true := by
  simp only [isPlain, Bool.and_eq_true, bne_iff_ne]
  refine ⟨⟨?_, ?_⟩, ?_⟩ <;> rintro rfl
  · exact absurd visible (by decide)
  · exact noQuote rfl
  · exact noSlash rfl

/-- What a string escapes occurs in no name. -/
theorem name_part_unescaped {code : Nat} (part : isNamePart code = true) :
    0x20 ≤ code ∧ code ≠ 0x22 ∧ code ≠ 0x5c ∧ isMarkup code = false ∧ code ≠ 0x2028 ∧
      code ≠ 0x2029 ∧ code ≠ Text.replacementCode := by
  have notNamed (other : Nat) (refused : isNamePart other = false) : code ≠ other := by
    rintro rfl
    simp [refused] at part
  have controls : ∀ control < 0x20, isNamePart control = false := by decide +kernel
  have visible : 0x20 ≤ code := by
    apply Nat.le_of_not_lt
    intro small
    exact notNamed code (controls code small) rfl
  refine ⟨visible, notNamed _ (by decide +kernel), notNamed _ (by decide +kernel), ?_,
    notNamed _ (by decide +kernel), notNamed _ (by decide +kernel), notNamed _ (by decide +kernel)⟩
  simp [isMarkup, notNamed 0x3c (by decide +kernel), notNamed 0x3e (by decide +kernel),
    notNamed 0x26 (by decide +kernel)]

theorem name_glyph_plain {glyph : Text.Glyph} (part : isNamePart glyph.code = true)
    (whole : glyph.IsWhole) :
    escapeGlyph true glyph = glyph.bytes ∧ ∀ byte ∈ glyph.bytes, isPlain byte = true := by
  obtain ⟨visible, noQuote, noSlash, noMarkup, noLine, noParagraph, valid⟩ :=
    name_part_unescaped part
  constructor
  · have small (code : Nat) (control : code < 0x20) : glyph.code ≠ code := by omega
    simp [escapeGlyph, Text.Glyph.isInvalid, noQuote, noSlash, noMarkup, noLine, noParagraph, valid,
      small 10, small 13, small 9, small 8, small 12, Nat.not_lt.mpr visible]
  · intro byte member
    rcases whole with ⟨ascii, _, rfl⟩ | high
    · rw [List.mem_singleton.mp member]
      exact plain_of_value visible noQuote noSlash
    · have above := high byte member
      exact plain_of_value (by omega) (by omega) (by omega)

variable {name : Bytes}

theorem name_parts (named : isName name = true) :
    ∀ glyph ∈ Text.glyphs name, isNamePart glyph.code = true := by
  unfold isName at named
  split at named
  · cases named
  · rename_i first rest glyphs
    rw [Bool.and_eq_true, List.all_eq_true] at named
    intro glyph member
    rw [glyphs] at member
    rcases List.mem_cons.mp member with rfl | later
    · rw [isNamePart, named.1, Bool.true_or]
    · exact named.2 glyph later

theorem name_glyphs_plain (named : isName name = true) : ∀ glyph ∈ Text.glyphs name,
    escapeGlyph true glyph = glyph.bytes ∧ ∀ byte ∈ glyph.bytes, isPlain byte = true :=
  fun glyph member => name_glyph_plain (name_parts named glyph member)
    (Text.glyphs_whole name glyph member)

theorem name_plain (named : isName name = true) : ∀ byte ∈ name, isPlain byte = true := by
  rw [← Text.glyph_bytes_glyphs name]
  intro byte member
  obtain ⟨glyph, inName, inGlyph⟩ := List.mem_flatMap.mp member
  exact (name_glyphs_plain named glyph inName).2 byte inGlyph

theorem quote_name (named : isName name = true) : quote true name = 0x22 :: (name ++ [0x22]) := by
  have written : (Text.glyphs name).flatMap (escapeGlyph true) = name := by
    rw [List.flatMap_def,
      List.map_congr_left fun glyph member => (name_glyphs_plain named glyph member).1,
      ← List.flatMap_def]
    exact Text.glyph_bytes_glyphs name
  rw [quote, written]
  rfl

theorem read_stored_plain (plain : ∀ byte ∈ name, isPlain byte = true) (found rest : Bytes) :
    readStored found (name ++ 0x22 :: rest) = some (found.reverse ++ name, rest) := by
  induction name generalizing found with
  | nil => simp [readStored]
  | cons byte name induction =>
      have here := plain byte (by simp)
      simp only [isPlain, Bool.and_eq_true, bne_iff_ne] at here
      obtain ⟨⟨noZero, noQuote⟩, noSlash⟩ := here
      have later := induction (fun other member => plain other (by simp [member])) (byte :: found)
      rw [List.cons_append, readStored]
      · rw [later, List.reverse_cons, List.append_assoc, List.singleton_append]
      all_goals simp [noZero, noQuote, noSlash]

section Key

variable {α : Type}

theorem narrow_nil (bytes : Bytes) : Candidate.narrow bytes ([] : List (Candidate α)) = [] := by
  induction bytes with
  | nil => rfl
  | cons byte bytes induction => exact induction

/-- A plain key is taken for the first name that is left when all its bytes are compared. -/
theorem read_key_plain (form : Form) {fuel : Nat} (length : Nat) {candidates : List (Candidate α)}
    (plain : ∀ byte ∈ name, isPlain byte = true) (known : Candidate.narrow name candidates ≠ [])
    (enough : name.length < fuel) (rest : Bytes) :
    readKey form fuel length candidates (name ++ 0x22 :: rest) =
      some (((Candidate.narrow name candidates).head?.filter
        (·.length ≤ length + name.length)).map (·.target), rest) := by
  induction name generalizing fuel length candidates with
  | nil =>
      obtain ⟨fuel, rfl⟩ := Nat.exists_eq_add_of_lt enough
      rfl
  | cons byte name induction =>
      have here := plain byte (by simp)
      simp only [isPlain, Bool.and_eq_true, bne_iff_ne] at here
      obtain ⟨⟨noZero, noQuote⟩, noSlash⟩ := here
      rw [List.length_cons] at enough
      obtain ⟨fuel, rfl⟩ : ∃ less, fuel = less + 1 := ⟨fuel - 1, by omega⟩
      have split : Candidate.narrow (byte :: name) candidates =
          Candidate.narrow name (Candidate.narrow [byte] candidates) := rfl
      rw [split] at known ⊢
      have later := @induction fuel (length + 1) (Candidate.narrow [byte] candidates)
        (fun other member => plain other (by simp [member])) known (by omega)
      rw [List.cons_append, readKey, if_neg noZero, if_neg noQuote, if_neg noSlash]
      split
      · rename_i none
        rw [none, narrow_nil] at known
        exact absurd rfl known
      · rw [later, List.length_cons, Nat.add_assoc, Nat.add_comm 1]

end Key

end ExprCompiler.Json
