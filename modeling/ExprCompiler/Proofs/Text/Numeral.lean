import ExprCompiler.Text.Integer
import ExprCompiler.Proofs.Text.Ascii

/-!
Decimal texts are read back as the numbers they were written for.
-/

namespace ExprCompiler.Text

theorem digit_byte_value {digit : Nat} (small : digit < 10) :
    (UInt8.ofNat (48 + digit)).toNat = 48 + digit := by
  rw [UInt8.toNat_ofNat']
  omega

theorem digit_value_of_digit {digit : Nat} (small : digit < 10) :
    digitValue? (UInt8.ofNat (48 + digit)) = some digit := by
  simp only [digitValue?, digit_byte_value small]
  rw [if_pos (by simp; omega)]
  simp

theorem digit_ne_underscore {digit : Nat} (small : digit < 10) :
    UInt8.ofNat (48 + digit) ≠ underscore := by
  intro same
  have value := digit_byte_value small
  rw [same, show underscore.toNat = 95 from rfl] at value
  omega

theorem decimal_nat_digits (value : Nat) :
    ∀ byte ∈ decimalNat value, 48 ≤ byte.toNat ∧ byte.toNat ≤ 57 := by
  induction value using Nat.strongRecOn with
  | ind value smaller =>
      intro byte member
      rw [decimalNat] at member
      split at member
      · rename_i single
        rw [List.mem_singleton.mp member, digit_byte_value single]
        omega
      · rcases List.mem_append.mp member with earlier | last
        · exact smaller (value / 10) (by omega) byte earlier
        · rw [List.mem_singleton.mp last, digit_byte_value (Nat.mod_lt _ (by decide))]
          omega

/-- The first digit of a number is zero for zero only. -/
theorem decimal_nat_starts (value : Nat) :
    ∃ first rest, decimalNat value = first :: rest ∧ (first = 0x30 → value = 0 ∧ rest = []) := by
  induction value using Nat.strongRecOn with
  | ind value smaller =>
      by_cases single : value < 10
      · refine ⟨_, [], by rw [decimalNat, if_pos single], ?_⟩
        intro isZero
        have digit := digit_byte_value single
        rw [isZero, show (0x30 : UInt8).toNat = 48 from rfl] at digit
        exact ⟨by omega, rfl⟩
      · obtain ⟨first, rest, digits, onlyZero⟩ := smaller (value / 10) (by omega)
        refine ⟨first, rest ++ [UInt8.ofNat (48 + value % 10)], ?_, ?_⟩
        · rw [decimalNat, if_neg single, digits, List.cons_append]
        · intro isZero
          have := (onlyZero isZero).1
          omega

theorem read_digits_append (base limit start : Nat) (left right : Bytes) {value : Nat}
    (read : readDigits base limit start left = .ok value) :
    readDigits base limit start (left ++ right) = readDigits base limit value right := by
  induction left generalizing start with
  | nil =>
      cases read
      rfl
  | cons byte rest induction =>
      rw [readDigits] at read
      rw [List.cons_append, readDigits]
      split at read
      · rename_i blank
        rw [if_pos blank]
        exact induction start read
      · rename_i visible
        rw [if_neg visible]
        cases digit : digitValue? byte with
        | none => simp [digit] at read
        | some number =>
            simp only [digit] at read ⊢
            split at read
            · cases read
            · rename_i below
              split at read
              · cases read
              · rename_i inRange
                rw [if_neg below, if_neg inRange]
                exact induction _ read

theorem read_digit {limit start digit : Nat} (small : digit < 10)
    (inRange : start * 10 + digit ≤ limit) :
    readDigits 10 limit start [UInt8.ofNat (48 + digit)] = .ok (start * 10 + digit) := by
  simp only [readDigits, digit_value_of_digit small]
  rw [if_neg (digit_ne_underscore small), if_neg (by omega), if_neg (by omega)]

theorem read_digits_decimal {value limit : Nat} (inRange : value ≤ limit) :
    readDigits 10 limit 0 (decimalNat value) = .ok value := by
  induction value using Nat.strongRecOn with
  | ind value smaller =>
      rw [decimalNat]
      split
      · rename_i single
        have read := @read_digit limit 0 value single (by omega)
        rwa [Nat.zero_mul, Nat.zero_add] at read
      · have earlier := smaller (value / 10) (by omega) (by omega)
        have whole : value / 10 * 10 + value % 10 = value := by omega
        rw [read_digits_append _ _ _ _ _ earlier,
          read_digit (Nat.mod_lt _ (by decide)) (by omega), whole]

theorem no_underscore_in_decimal (value : Nat) :
    (decimalNat value).contains underscore = false := by
  rw [← Bool.not_eq_true, List.contains_iff_mem]
  intro member
  have range := decimal_nat_digits value underscore member
  rw [show underscore.toNat = 95 from rfl] at range
  omega

theorem read_unsigned_decimal {value limit : Nat} (inRange : value ≤ limit) :
    readUnsigned limit (decimalNat value) = .ok value := by
  obtain ⟨first, rest, digits, onlyZero⟩ := decimal_nat_starts value
  have some : decimalNat value ≠ [] := by simp [digits]
  rw [readUnsigned, if_neg some, no_underscore_in_decimal]
  by_cases isZero : first = 0x30
  · obtain ⟨rfl, rfl⟩ := onlyZero isZero
    rw [digits, isZero]
    rfl
  · have decimalBase : splitBase (decimalNat value) = (10, decimalNat value) := by
      rw [digits]
      unfold splitBase
      split
      · rename_i same
        exact absurd (List.cons.inj same).1 isZero
      · rename_i same
        exact absurd (List.cons.inj same).1 isZero
      · rfl
    rw [decimalBase]
    simp only [read_digits_decimal inRange]
    rfl

theorem split_sign_decimal (value : Nat) :
    splitSign (decimalNat value) = (false, decimalNat value) := by
  obtain ⟨first, rest, digits, _⟩ := decimal_nat_starts value
  have range := decimal_nat_digits value first (by simp [digits])
  rw [digits]
  unfold splitSign
  split
  · rename_i same
    rw [(List.cons.inj same).1] at range
    exact absurd range (by decide)
  · rename_i same
    rw [(List.cons.inj same).1] at range
    exact absurd range (by decide)
  · rfl

theorem read_integer_decimal {bits bound : Nat} (some : 0 < bits)
    (isBound : Nat.pow 2 (bits - 1) = bound) {value : Int} (above : -(bound : Int) ≤ value)
    (below : value < bound) : readInteger bits (decimal value) = .ok value := by
  have double : Nat.pow 2 bits = bound * 2 := by
    have next : Nat.pow 2 (bits - 1 + 1) = Nat.pow 2 (bits - 1) * 2 := rfl
    rw [Nat.sub_add_cancel some, isBound] at next
    exact next
  have positive : 0 < bound := by
    rw [← isBound]
    exact Nat.two_pow_pos _
  cases value with
  | ofNat number =>
      have small : number < bound := Int.ofNat_lt.mp below
      rw [decimal, readInteger, split_sign_decimal]
      simp only [double, isBound]
      rw [read_unsigned_decimal (by omega)]
      simp only [Bool.false_eq_true, if_false]
      rw [if_neg (by omega)]
      rfl
  | negSucc number =>
      have small : number + 1 ≤ bound := by omega
      rw [decimal, readInteger]
      simp only [splitSign, double, isBound]
      rw [read_unsigned_decimal (by omega)]
      simp only [if_true]
      rw [if_neg (by omega)]
      rfl

theorem read_integer_range {bits bound : Nat} (isBound : Nat.pow 2 (bits - 1) = bound) {text : Bytes}
    {value : Int} (read : readInteger bits text = .ok value) :
    -(bound : Int) ≤ value ∧ value < bound := by
  have positive : 0 < bound := by
    rw [← isBound]
    exact Nat.two_pow_pos _
  rw [readInteger, isBound] at read
  simp only at read
  split at read
  · cases read
  · split at read
    · split at read
      · cases read
      · cases read
        omega
    · split at read
      · cases read
      · cases read
        omega

def isDecimalPart (byte : UInt8) : Bool := byte == 45 || isDecimalByte byte

theorem decimal_parts (value : Int) : ∀ byte ∈ decimal value, isDecimalPart byte = true := by
  have digit {number : Nat} {byte : UInt8} (member : byte ∈ decimalNat number) :
      isDecimalPart byte = true := by
    have range := decimal_nat_digits number byte member
    simp [isDecimalPart, isDecimalByte, range]
  intro byte member
  cases value with
  | ofNat number => exact digit member
  | negSucc number =>
      rcases List.mem_cons.mp member with rfl | inDigits
      · rfl
      · exact digit inDigits

theorem decimal_ne_nil (value : Int) : decimal value ≠ [] := by
  cases value with
  | ofNat number =>
      obtain ⟨first, rest, digits, _⟩ := decimal_nat_starts number
      simp [decimal, digits]
  | negSucc number => simp [decimal]

end ExprCompiler.Text
