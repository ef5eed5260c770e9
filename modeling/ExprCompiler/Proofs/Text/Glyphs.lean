import ExprCompiler.Text.Blank

/-!
Glyphs of a text: they are made of its bytes in order, and a byte of the ASCII range is always a
glyph of its own.
-/

namespace ExprCompiler.Text

/-- A character of the ASCII range, or bytes outside of it. -/
def Glyph.IsWhole (glyph : Glyph) : Prop :=
  (∃ byte : UInt8, byte.toNat < 0x80 ∧ glyph = ⟨byte.toNat, [byte]⟩) ∨
    ∀ byte ∈ glyph.bytes, 0x80 ≤ byte.toNat

theorem continuation_high {byte : UInt8} (continues : isContinuation byte = true) :
    0x80 ≤ byte.toNat := by
  simp only [isContinuation, within, Bool.and_eq_true, decide_eq_true_eq] at continues
  exact continues.1

theorem second_high {lead : Nat} {byte : UInt8}
    (inside : within (secondRange lead).1 (secondRange lead).2 byte = true) :
    0x80 ≤ byte.toNat := by
  have low : 0x80 ≤ (secondRange lead).1 := by
    unfold secondRange
    repeat' split
    all_goals decide
  simp only [within, Bool.and_eq_true, decide_eq_true_eq] at inside
  exact Nat.le_trans low inside.1

theorem first_glyph_shape (lead : UInt8) (rest : Bytes) :
    (firstGlyph lead rest).IsWhole ∧ ∃ taken left, rest = taken ++ left ∧
      (firstGlyph lead rest).bytes = lead :: taken := by
  by_cases small : lead.toNat < 0x80
  · have ascii : firstGlyph lead rest = ⟨lead.toNat, [lead]⟩ := by simp [firstGlyph, small]
    rw [ascii]
    exact ⟨.inl ⟨lead, small, rfl⟩, [], rest, rfl, rfl⟩
  · have shape (code : Nat) (taken left : Bytes) (split : rest = taken ++ left)
        (high : ∀ byte ∈ taken, 0x80 ≤ byte.toNat) :
        Glyph.IsWhole ⟨code, lead :: taken⟩ ∧ ∃ taken' left', rest = taken' ++ left' ∧
          lead :: taken = lead :: taken' :=
      ⟨.inr (List.forall_mem_cons.mpr ⟨Nat.not_lt.mp small, high⟩), taken, left, split, rfl⟩
    unfold firstGlyph
    simp only [if_neg small]
    split
    · split
      · rename_i second left
        split
        · rename_i continues
          exact shape _ [second] left rfl (by simpa using continuation_high continues)
        · exact shape _ [] _ rfl (by simp)
      · exact shape _ [] _ rfl (by simp)
    · split
      · split
        · rename_i second third left
          split
          · rename_i inside
            rw [Bool.and_eq_true] at inside
            exact shape _ [second, third] left rfl
              (by simpa using ⟨second_high inside.1, continuation_high inside.2⟩)
          · exact shape _ [] _ rfl (by simp)
        · exact shape _ [] _ rfl (by simp)
      · split
        · split
          · rename_i second third fourth left
            split
            · rename_i inside
              rw [Bool.and_eq_true, Bool.and_eq_true] at inside
              exact shape _ [second, third, fourth] left rfl
                (by simpa using ⟨second_high inside.1.1, continuation_high inside.1.2,
                  continuation_high inside.2⟩)
            · exact shape _ [] _ rfl (by simp)
          · exact shape _ [] _ rfl (by simp)
        · exact shape _ [] _ rfl (by simp)

theorem glyph_bytes_glyphs (text : Bytes) : glyphBytes (glyphs text) = text := by
  fun_induction glyphs text with
  | case1 => rfl
  | case2 lead rest induction =>
      obtain ⟨_, taken, left, split, bytes⟩ := first_glyph_shape lead rest
      rw [glyphBytes, List.flatMap_cons, ← glyphBytes, induction, bytes, split]
      simp

theorem glyphs_whole (text : Bytes) : ∀ glyph ∈ glyphs text, glyph.IsWhole := by
  fun_induction glyphs text with
  | case1 => simp
  | case2 lead rest induction =>
      intro glyph member
      rcases List.mem_cons.mp member with rfl | later
      · exact (first_glyph_shape lead rest).1
      · exact induction glyph later

end ExprCompiler.Text
