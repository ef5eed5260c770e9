import ExprCompiler.Proofs.Text.Glyphs

/-!
Glyphs and characters. The glyph in front of a text is the character whose encoding stands there;
where no encoding stands, it is one byte with the replacement code.
-/

namespace ExprCompiler.Text

def IsSecond (lead second : UInt8) : Prop :=
  within (secondRange lead.toNat).1 (secondRange lead.toNat).2 second = true

/-- The forms of a glyph by its lead byte. The last one is that of a byte on its own. -/
inductive GlyphForm (lead : UInt8) (rest : Bytes) : Glyph → Prop where
  | one (small : lead.toNat < 0x80) : GlyphForm lead rest ⟨lead.toNat, [lead]⟩
  | two {second : UInt8} {left : Bytes} (low : 0xc2 ≤ lead.toNat) (high : lead.toNat ≤ 0xdf)
      (next : isContinuation second = true) (split : rest = second :: left) :
      GlyphForm lead rest
        ⟨(lead.toNat - 0xc0) * 64 + continuationBits second, [lead, second]⟩
  | three {second third : UInt8} {left : Bytes} (low : 0xe0 ≤ lead.toNat)
      (high : lead.toNat ≤ 0xef) (next : IsSecond lead second)
      (last : isContinuation third = true) (split : rest = second :: third :: left) :
      GlyphForm lead rest
        ⟨((lead.toNat - 0xe0) * 64 + continuationBits second) * 64 + continuationBits third,
          [lead, second, third]⟩
  | four {second third fourth : UInt8} {left : Bytes} (low : 0xf0 ≤ lead.toNat)
      (high : lead.toNat ≤ 0xf4) (next : IsSecond lead second)
      (middle : isContinuation third = true) (last : isContinuation fourth = true)
      (split : rest = second :: third :: fourth :: left) :
      GlyphForm lead rest
        ⟨(((lead.toNat - 0xf0) * 64 + continuationBits second) * 64 + continuationBits third) * 64 +
          continuationBits fourth, [lead, second, third, fourth]⟩
  | alone (high : 0x80 ≤ lead.toNat) : GlyphForm lead rest ⟨replacementCode, [lead]⟩

theorem first_glyph_form (lead : UInt8) (rest : Bytes) :
    GlyphForm lead rest (firstGlyph lead rest) := by
  unfold firstGlyph
  dsimp only
  split
  · rename_i small
    exact .one small
  · rename_i large
    have alone : GlyphForm lead rest ⟨replacementCode, [lead]⟩ := .alone (Nat.not_lt.mp large)
    split
    · rename_i range
      rw [Bool.and_eq_true, decide_eq_true_eq, decide_eq_true_eq] at range
      split
      · split
        · rename_i next
          exact .two range.1 range.2 next rfl
        · exact alone
      · exact alone
    · split
      · rename_i range
        rw [Bool.and_eq_true, decide_eq_true_eq, decide_eq_true_eq] at range
        split
        · split
          · rename_i next
            rw [Bool.and_eq_true] at next
            exact .three range.1 range.2 next.1 next.2 rfl
          · exact alone
        · exact alone
      · split
        · rename_i range
          rw [Bool.and_eq_true, decide_eq_true_eq, decide_eq_true_eq] at range
          split
          · split
            · rename_i next
              rw [Bool.and_eq_true, Bool.and_eq_true] at next
              exact .four range.1 range.2 next.1.1 next.1.2 next.2 rfl
            · exact alone
          · exact alone
        · exact alone

theorem continuation_bounds {byte : UInt8} :
    isContinuation byte = true ↔ 0x80 ≤ byte.toNat ∧ byte.toNat ≤ 0xbf := by
  rw [isContinuation, within, Bool.and_eq_true, decide_eq_true_eq, decide_eq_true_eq]

theorem char_of_code {code : Nat} (valid : code.isValidChar) :
    ∃ char : Char, char.val.toNat = code := by
  exact ⟨Char.ofNatAux code valid, rfl⟩

theorem eq_of_nat (byte : UInt8) {value : Nat} (same : value = byte.toNat) :
    UInt8.ofNat value = byte := by
  rw [same, UInt8.ofNat_toNat]

/-- The bounds of a second byte leave out overlong forms, surrogates and what is past the last
character. -/
theorem second_bounds {lead second : UInt8} (next : IsSecond lead second) :
    0x80 ≤ second.toNat ∧ second.toNat ≤ 0xbf ∧ (lead.toNat = 0xe0 → 0xa0 ≤ second.toNat) ∧
      (lead.toNat = 0xed → second.toNat ≤ 0x9f) ∧ (lead.toNat = 0xf0 → 0x90 ≤ second.toNat) ∧
      (lead.toNat = 0xf4 → second.toNat ≤ 0x8f) := by
  rw [IsSecond, within, Bool.and_eq_true, decide_eq_true_eq, decide_eq_true_eq] at next
  unfold secondRange at next
  repeat' split at next
  all_goals
    dsimp only at next
    omega

theorem is_second {lead second : UInt8} (low : 0x80 ≤ second.toNat) (high : second.toNat ≤ 0xbf)
    (longThree : lead.toNat = 0xe0 → 0xa0 ≤ second.toNat)
    (surrogate : lead.toNat = 0xed → second.toNat ≤ 0x9f)
    (longFour : lead.toNat = 0xf0 → 0x90 ≤ second.toNat)
    (past : lead.toNat = 0xf4 → second.toNat ≤ 0x8f) : IsSecond lead second := by
  rw [IsSecond, within, Bool.and_eq_true, decide_eq_true_eq, decide_eq_true_eq]
  unfold secondRange
  repeat' split
  all_goals
    dsimp only
    omega

/-- Every glyph but a byte on its own is a character. -/
theorem char_of_form {lead : UInt8} {rest : Bytes} {glyph : Glyph}
    (form : GlyphForm lead rest glyph) :
    glyph = ⟨replacementCode, [lead]⟩ ∨
      ∃ char : Char, glyph = ⟨char.val.toNat, String.utf8EncodeChar char⟩ := by
  cases form with
  | one small =>
      right
      obtain ⟨char, value⟩ := @char_of_code lead.toNat (.inl (by omega))
      refine ⟨char, ?_⟩
      rw [String.utf8EncodeChar, value, if_pos (by omega), UInt8.ofNat_toNat]
  | @two second left low high next split =>
      right
      have bounds := continuation_bounds.mp next
      obtain ⟨char, value⟩ := @char_of_code
        ((lead.toNat - 0xc0) * 64 + continuationBits second)
        (.inl (by unfold continuationBits; omega))
      refine ⟨char, ?_⟩
      simp only [String.utf8EncodeChar, value]
      unfold continuationBits
      rw [if_neg (by omega), if_pos (by omega),
        eq_of_nat lead (by omega), eq_of_nat second (by omega)]
  | @three second third left low high next last split =>
      right
      have bounds := second_bounds next
      have lastBounds := continuation_bounds.mp last
      obtain ⟨char, value⟩ := @char_of_code
        (((lead.toNat - 0xe0) * 64 + continuationBits second) * 64 + continuationBits third)
        (by unfold continuationBits Nat.isValidChar; omega)
      refine ⟨char, ?_⟩
      simp only [String.utf8EncodeChar, value]
      unfold continuationBits
      rw [if_neg (by omega), if_neg (by omega), if_pos (by omega),
        eq_of_nat lead (by omega), eq_of_nat second (by omega), eq_of_nat third (by omega)]
  | @four second third fourth left low high next middle last split =>
      right
      have bounds := second_bounds next
      have middleBounds := continuation_bounds.mp middle
      have lastBounds := continuation_bounds.mp last
      obtain ⟨char, value⟩ := @char_of_code
        ((((lead.toNat - 0xf0) * 64 + continuationBits second) * 64 +
          continuationBits third) * 64 + continuationBits fourth)
        (by unfold continuationBits Nat.isValidChar; omega)
      refine ⟨char, ?_⟩
      simp only [String.utf8EncodeChar, value]
      unfold continuationBits
      rw [if_neg (by omega), if_neg (by omega), if_neg (by omega),
        eq_of_nat lead (by omega), eq_of_nat second (by omega), eq_of_nat third (by omega),
        eq_of_nat fourth (by omega)]
  | alone => exact .inl rfl

section Read

variable {lead second third fourth : UInt8} (rest : Bytes)

theorem first_glyph_two (low : 0xc2 ≤ lead.toNat) (high : lead.toNat ≤ 0xdf)
    (next : isContinuation second = true) :
    firstGlyph lead (second :: rest) =
      ⟨(lead.toNat - 0xc0) * 64 + continuationBits second, [lead, second]⟩ := by
  have range : (decide (0xc2 ≤ lead.toNat) && decide (lead.toNat ≤ 0xdf)) = true := by
    simp [low, high]
  unfold firstGlyph
  dsimp only
  rw [if_neg (by omega), if_pos range, if_pos next]

theorem first_glyph_three (low : 0xe0 ≤ lead.toNat) (high : lead.toNat ≤ 0xef)
    (next : IsSecond lead second) (last : isContinuation third = true) :
    firstGlyph lead (second :: third :: rest) =
      ⟨((lead.toNat - 0xe0) * 64 + continuationBits second) * 64 + continuationBits third,
        [lead, second, third]⟩ := by
  have range : (decide (0xe0 ≤ lead.toNat) && decide (lead.toNat ≤ 0xef)) = true := by
    simp [low, high]
  have fits : (within (secondRange lead.toNat).1 (secondRange lead.toNat).2 second &&
      isContinuation third) = true := by
    rw [Bool.and_eq_true]
    exact ⟨next, last⟩
  unfold firstGlyph
  dsimp only
  rw [if_neg (by omega), if_neg (by simp; omega), if_pos range, if_pos fits]

theorem first_glyph_four (low : 0xf0 ≤ lead.toNat) (high : lead.toNat ≤ 0xf4)
    (next : IsSecond lead second) (middle : isContinuation third = true)
    (last : isContinuation fourth = true) :
    firstGlyph lead (second :: third :: fourth :: rest) =
      ⟨(((lead.toNat - 0xf0) * 64 + continuationBits second) * 64 + continuationBits third) * 64 +
        continuationBits fourth, [lead, second, third, fourth]⟩ := by
  have range : (decide (0xf0 ≤ lead.toNat) && decide (lead.toNat ≤ 0xf4)) = true := by
    simp [low, high]
  have fits : (within (secondRange lead.toNat).1 (secondRange lead.toNat).2 second &&
      isContinuation third && isContinuation fourth) = true := by
    rw [Bool.and_eq_true, Bool.and_eq_true]
    exact ⟨⟨next, middle⟩, last⟩
  unfold firstGlyph
  dsimp only
  rw [if_neg (by omega), if_neg (by simp; omega), if_neg (by simp; omega), if_pos range]
  exact if_pos fits

end Read

-- The bound is a literal, unlike `UInt8.size`, for `omega` to show.
theorem to_nat_of_nat {value : Nat} (small : value < 256) : (UInt8.ofNat value).toNat = value :=
  UInt8.toNat_ofNat_of_lt' small

theorem continuation_byte (code : Nat) :
    isContinuation (UInt8.ofNat (code % 64 + 128)) = true ∧
      continuationBits (UInt8.ofNat (code % 64 + 128)) = code % 64 := by
  refine ⟨continuation_bounds.mpr ?_, ?_⟩
  · rw [to_nat_of_nat (by omega)]
    omega
  · unfold continuationBits
    rw [to_nat_of_nat (by omega)]
    exact Nat.add_sub_cancel _ _

theorem first_glyph_encoded {char : Char} {lead : UInt8} {rest later : Bytes}
    (front : lead :: rest = String.utf8EncodeChar char ++ later) :
    firstGlyph lead rest = ⟨char.val.toNat, String.utf8EncodeChar char⟩ := by
  have valid : char.val.toNat.isValidChar := char.valid
  unfold String.utf8EncodeChar at front ⊢
  generalize char.val.toNat = code at front valid ⊢
  unfold Nat.isValidChar at valid
  dsimp only at front ⊢
  -- The four lengths of an encoding, the shortest first.
  by_cases one : code ≤ 127
  · rw [if_pos one] at front ⊢
    obtain ⟨rfl, rfl⟩ := List.cons.inj front
    have value : (UInt8.ofNat code).toNat = code := to_nat_of_nat (by omega)
    unfold firstGlyph
    dsimp only
    rw [value, if_pos (by omega)]
  · rw [if_neg one] at front ⊢
    by_cases two : code ≤ 2047
    · rw [if_pos two] at front ⊢
      obtain ⟨rfl, rfl⟩ := List.cons.inj front
      have first : (UInt8.ofNat (code / 64 % 32 + 192)).toNat = code / 64 + 192 := by
        rw [to_nat_of_nat (by omega)]
        omega
      obtain ⟨next, bits⟩ := continuation_byte code
      change firstGlyph _ (_ :: later) = _
      rw [first_glyph_two later (by omega) (by omega) next, first, bits,
        show (code / 64 + 192 - 0xc0) * 64 + code % 64 = code by omega]
    · rw [if_neg two] at front ⊢
      by_cases three : code ≤ 65535
      · rw [if_pos three] at front ⊢
        obtain ⟨rfl, rfl⟩ := List.cons.inj front
        have first : (UInt8.ofNat (code / 4096 % 16 + 224)).toNat = code / 4096 + 224 := by
          rw [to_nat_of_nat (by omega)]
          omega
        have second : (UInt8.ofNat (code / 64 % 64 + 128)).toNat = code / 64 % 64 + 128 := by
          rw [to_nat_of_nat (by omega)]
        obtain ⟨_, secondBits⟩ := continuation_byte (code / 64)
        obtain ⟨next, bits⟩ := continuation_byte code
        have follows : IsSecond (UInt8.ofNat (code / 4096 % 16 + 224))
            (UInt8.ofNat (code / 64 % 64 + 128)) := by
          apply is_second <;> omega
        change firstGlyph _ (_ :: _ :: later) = _
        rw [first_glyph_three later (by omega) (by omega) follows next, first, bits, secondBits,
          show ((code / 4096 + 224 - 0xe0) * 64 + code / 64 % 64) * 64 + code % 64 = code by omega]
      · rw [if_neg three] at front ⊢
        obtain ⟨rfl, rfl⟩ := List.cons.inj front
        have first : (UInt8.ofNat (code / 262144 % 8 + 240)).toNat = code / 262144 + 240 := by
          rw [to_nat_of_nat (by omega)]
          omega
        have second : (UInt8.ofNat (code / 4096 % 64 + 128)).toNat = code / 4096 % 64 + 128 := by
          rw [to_nat_of_nat (by omega)]
        obtain ⟨_, secondBits⟩ := continuation_byte (code / 4096)
        obtain ⟨middle, middleBits⟩ := continuation_byte (code / 64)
        obtain ⟨next, bits⟩ := continuation_byte code
        have follows : IsSecond (UInt8.ofNat (code / 262144 % 8 + 240))
            (UInt8.ofNat (code / 4096 % 64 + 128)) := by
          apply is_second <;> omega
        change firstGlyph _ (_ :: _ :: _ :: later) = _
        rw [first_glyph_four later (by omega) (by omega) follows middle next, first, bits,
          middleBits, secondBits,
          show (((code / 262144 + 240 - 0xf0) * 64 + code / 4096 % 64) * 64 + code / 64 % 64) * 64 +
            code % 64 = code by omega]

/-- Reading gives the character in front, or else one byte with the replacement code. -/
theorem first_glyph_cases (lead : UInt8) (rest : Bytes) :
    (∃ char : Char, String.utf8EncodeChar char <+: lead :: rest ∧
        firstGlyph lead rest = ⟨char.val.toNat, String.utf8EncodeChar char⟩) ∨
      (∀ char : Char, ¬String.utf8EncodeChar char <+: lead :: rest) ∧
        firstGlyph lead rest = ⟨replacementCode, [lead]⟩ := by
  by_cases encoded : ∃ char : Char, String.utf8EncodeChar char <+: lead :: rest
  · obtain ⟨char, later, front⟩ := encoded
    exact .inl ⟨char, ⟨later, front⟩, first_glyph_encoded front.symm⟩
  · have none : ∀ char : Char, ¬String.utf8EncodeChar char <+: lead :: rest :=
      not_exists.mp encoded
    refine .inr ⟨none, ?_⟩
    rcases char_of_form (first_glyph_form lead rest) with alone | ⟨char, form⟩
    · exact alone
    · obtain ⟨_, taken, left, split, bytes⟩ := first_glyph_shape lead rest
      have front : String.utf8EncodeChar char = lead :: taken := by
        rw [← bytes, form]
      exact absurd ⟨left, by rw [front, split, List.cons_append]⟩ (none char)

end ExprCompiler.Text
