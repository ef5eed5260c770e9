import ExprCompiler.Proofs.Machine.Faults

/-!
The hardware division. The number that edx and eax make up is divided by a signed word, and quotient
and remainder come out whole: the instruction fails just where the quotient is no signed word. Once
the sign of eax is extended, the dividend is the word in eax, and division is that of words.
-/

namespace ExprCompiler

theorem dividend_sign (word : Word) :
    ((if word.slt 0 then BitVec.allOnes 32 else 0) ++ word : BitVec 64).toInt = word.toInt := by
  have sign : word.slt 0 = word.msb := BitVec.slt_zero_eq_msb
  have extended : ((if word.slt 0 then BitVec.allOnes 32 else 0) ++ word : BitVec 64) =
      word.signExtend 64 := by
    rw [sign, BitVec.signExtend_eq_append_of_le (by decide)]
    cases word.msb <;> rfl
  rw [extended, BitVec.toInt_signExtend_of_le (by decide)]

theorem dividend_zero (word : Word) : ((0 : Word) ++ word : BitVec 64).toInt = word.toNat := by
  have bound := word.isLt
  rw [BitVec.toInt_eq_toNat_cond, BitVec.toNat_append]
  simp
  omega

def IsSigned (value : Int) : Prop := -2147483648 ≤ value ∧ value ≤ 2147483647

instance (value : Int) : Decidable (IsSigned value) := inferInstanceAs (Decidable (_ ∧ _))

theorem to_int_is_signed (word : Word) : IsSigned word.toInt :=
  ⟨word.le_toInt, Int.le_of_lt_add_one word.toInt_lt⟩

theorem outside_iff (value : Int) :
    (decide (value < -2147483648) || decide (2147483647 < value)) = true ↔ ¬IsSigned value := by
  unfold IsSigned
  simp only [Bool.or_eq_true, decide_eq_true_eq]
  omega

theorem IsSigned.to_int_of_int {value : Int} (signed : IsSigned value) :
    (BitVec.ofInt 32 value).toInt = value := by
  rw [BitVec.toInt_ofInt]
  exact Int.bmod_eq_of_le signed.1 (Int.lt_add_one_of_le signed.2)

namespace Core

def dividend (core : Core) : Int :=
  (core.get .edx).toInt * 4294967296 + (core.get .eax).toNat

variable (core : Core) (divisor : Word)

theorem dividend_bits :
    (core.get .edx ++ core.get .eax : BitVec 64).toInt = core.dividend := by
  rw [BitVec.toInt_append, dividend, if_neg (by decide), Int.mul_comm]
  rfl

/-- A division as registers of 64 bits carry it out: the high word is shifted over the low one, and
the quotient of the least number by minus one wraps to the least number. -/
def divideWide : Effect :=
  let dividend : BitVec 64 :=
    (core.get .edx).setWidth 64 <<< 32 ||| (core.get .eax).setWidth 64
  let quotient := dividend.sdiv (divisor.signExtend 64)
  let remainder := dividend.srem (divisor.signExtend 64)
  if divisor = 0 then ⟨core, some .divisionByZero⟩
  else if (2147483647 : BitVec 64).slt quotient || quotient.slt (-2147483648) then
    ⟨core, some .quotientOverflow⟩
  else ⟨(core.set .eax (quotient.setWidth 32)).set .edx (remainder.setWidth 32), none⟩

variable {core divisor}

theorem divide_eq : core.divide divisor =
    if divisor = 0 then ⟨core, some .divisionByZero⟩
    else if IsSigned (core.dividend.tdiv divisor.toInt) then
      ⟨(core.set .eax (BitVec.ofInt 32 (core.dividend.tdiv divisor.toInt))).set .edx
        (BitVec.ofInt 32 (core.dividend.tmod divisor.toInt)), none⟩
    else ⟨core, some .quotientOverflow⟩ := by
  unfold divide
  simp only [dividend_bits, outside_iff, ite_not]

theorem to_int_ne_zero (some : divisor ≠ 0) : divisor.toInt ≠ 0 :=
  fun zero => some (BitVec.toInt_inj.mp zero)

theorem remainder_smaller (dividend : Int) (some : divisor ≠ 0) :
    (dividend.tmod divisor.toInt).natAbs < divisor.toInt.natAbs := by
  rw [Int.natAbs_tmod]
  exact Nat.mod_lt _ (Int.natAbs_pos.mpr (to_int_ne_zero some))

/-- A remainder is smaller than a signed word, so it is one. -/
theorem remainder_signed (dividend : Int) (some : divisor ≠ 0) :
    IsSigned (dividend.tmod divisor.toInt) := by
  have smaller := remainder_smaller dividend some
  have bounds := to_int_is_signed divisor
  unfold IsSigned at bounds ⊢
  omega

theorem remainder_sign (dividend divisor : Int) :
    dividend.tmod divisor = 0 ∨ (dividend.tmod divisor).sign = dividend.sign := by
  rw [Int.sign_tmod]
  split
  · rename_i divides
    exact .inl (Int.tmod_eq_zero_of_dvd divides)
  · exact .inr rfl

section Wide

theorem shift_or_eq_append (high low : Word) :
    (high.setWidth 64 <<< 32 ||| low.setWidth 64 : BitVec 64) = high ++ low := by
  have highBound := high.isLt
  have lowBound := low.isLt
  have shifted : high.toNat <<< 32 < 2 ^ 64 := by
    rw [Nat.shiftLeft_eq]
    omega
  apply BitVec.eq_of_toNat_eq
  rw [BitVec.toNat_append, BitVec.toNat_or, BitVec.toNat_shiftLeft, BitVec.toNat_setWidth,
    BitVec.toNat_setWidth, Nat.mod_eq_of_lt (show high.toNat < 2 ^ 64 by omega),
    Nat.mod_eq_of_lt (show low.toNat < 2 ^ 64 by omega), Nat.mod_eq_of_lt shifted]

theorem wide_outside_iff (wide : BitVec 64) :
    ((2147483647 : BitVec 64).slt wide || wide.slt (-2147483648)) = true ↔
      ¬IsSigned wide.toInt := by
  have largest : (2147483647 : BitVec 64).toInt = 2147483647 := by decide
  have least : (-2147483648 : BitVec 64).toInt = -2147483648 := by decide
  rw [Bool.or_eq_true, BitVec.slt_iff_toInt_lt, BitVec.slt_iff_toInt_lt, largest, least, IsSigned]
  omega

theorem set_width_eq_of_int (wide : BitVec 64) :
    wide.setWidth 32 = BitVec.ofInt 32 wide.toInt := by
  apply BitVec.eq_of_toInt_eq
  rw [BitVec.toInt_setWidth, BitVec.toInt_ofInt, BitVec.toInt_eq_toNat_bmod,
    Int.bmod_bmod_of_dvd (by decide)]

/-- The only quotient that wraps is that of the least number by minus one, and no signed word is
what it wraps to. -/
theorem wide_quotient (dividend : BitVec 64) (divisor : Word) :
    (IsSigned (dividend.sdiv (divisor.signExtend 64)).toInt ↔
        IsSigned (dividend.toInt.tdiv divisor.toInt)) ∧
      (IsSigned (dividend.toInt.tdiv divisor.toInt) →
        (dividend.sdiv (divisor.signExtend 64)).toInt = dividend.toInt.tdiv divisor.toInt) := by
  have extended : (divisor.signExtend 64).toInt = divisor.toInt :=
    BitVec.toInt_signExtend_of_le (by decide)
  have lower := dividend.le_toInt
  have upper := dividend.toInt_lt
  have smaller := Int.natAbs_tdiv_le_natAbs dividend.toInt divisor.toInt
  rw [BitVec.toInt_sdiv, extended]
  by_cases wraps : dividend.toInt.tdiv divisor.toInt = 9223372036854775808
  · rw [wraps]
    decide
  · have same : (dividend.toInt.tdiv divisor.toInt).bmod (2 ^ 64) =
        dividend.toInt.tdiv divisor.toInt :=
      Int.bmod_eq_of_le (by omega) (by omega)
    rw [same]
    exact ⟨Iff.rfl, fun _ => rfl⟩

theorem divide_wide (core : Core) (divisor : Word) :
    core.divideWide divisor = core.divide divisor := by
  have extended : (divisor.signExtend 64).toInt = divisor.toInt :=
    BitVec.toInt_signExtend_of_le (by decide)
  obtain ⟨alike, exactly⟩ := wide_quotient (core.get .edx ++ core.get .eax) divisor
  rw [dividend_bits] at alike exactly
  rw [divideWide, divide_eq, shift_or_eq_append]
  simp only [wide_outside_iff, alike, ite_not, set_width_eq_of_int, BitVec.toInt_srem, extended,
    dividend_bits]
  split
  · rfl
  · split
    · rename_i signed
      rw [exactly signed]
    · rfl

end Wide

theorem no_fault : ¬∃ fault, (none : Option Fault) = some fault := by
  rintro ⟨fault, same⟩
  cases same

/-- How a division ends: it fails and changes nothing, or quotient and remainder come out whole. -/
theorem divide_exact (core : Core) (divisor : Word) :
    ((∃ fault, (core.divide divisor).fault = some fault) ↔
        divisor = 0 ∨ ¬IsSigned (core.dividend.tdiv divisor.toInt)) ∧
      (∀ fault, (core.divide divisor).fault = some fault → (core.divide divisor).core = core) ∧
      ((core.divide divisor).fault = none → ∃ quotient remainder : Word,
        (core.divide divisor).core = (core.set .eax quotient).set .edx remainder ∧
        core.dividend = quotient.toInt * divisor.toInt + remainder.toInt ∧
        remainder.toInt.natAbs < divisor.toInt.natAbs ∧
        (remainder.toInt = 0 ∨ remainder.toInt.sign = core.dividend.sign)) := by
  rw [divide_eq]
  split
  · rename_i zero
    exact ⟨iff_of_true ⟨_, rfl⟩ (.inl zero), fun _ _ => rfl,
      fun quiet => absurd quiet (Option.some_ne_none _)⟩
  · rename_i nonzero
    split
    · rename_i signed
      refine ⟨iff_of_false no_fault ?_, ?_, ?_⟩
      · rintro (zero | outside)
        · exact nonzero zero
        · exact outside signed
      · intro fault failed
        cases failed
      · intro _
        refine ⟨_, _, rfl, ?_⟩
        rw [signed.to_int_of_int, (remainder_signed core.dividend nonzero).to_int_of_int]
        exact ⟨(Int.tdiv_mul_add_tmod _ _).symm, remainder_smaller _ nonzero, remainder_sign _ _⟩
    · rename_i outside
      exact ⟨iff_of_true ⟨_, rfl⟩ (.inr outside), fun _ _ => rfl,
        fun quiet => absurd quiet (Option.some_ne_none _)⟩

section Extended

theorem dividend_extended (core : Core) : core.extendSign.dividend = (core.get .eax).toInt := by
  rw [← dividend_bits]
  exact dividend_sign (core.get .eax)

theorem word_quotient (left right : Word) :
    (IsSigned (left.toInt.tdiv right.toInt) ↔ ¬(left = Word.least ∧ right = -1)) ∧
      (IsSigned (left.toInt.tdiv right.toInt) →
        BitVec.ofInt 32 (left.toInt.tdiv right.toInt) = left.sdiv right) := by
  by_cases wraps : left = Word.least ∧ right = -1
  · obtain ⟨rfl, rfl⟩ := wraps
    decide
  · have quotient : (left.sdiv right).toInt = left.toInt.tdiv right.toInt :=
      BitVec.toInt_sdiv_of_ne_or_ne left right (Decidable.not_and_iff_or_not.mp wraps)
    rw [← quotient]
    exact ⟨iff_of_true (to_int_is_signed _) wraps, fun _ => BitVec.ofInt_toInt⟩

theorem division_faults_numbers (left right : Word) :
    Word.divisionFaults left right = true ↔
      right.toInt = 0 ∨ left.toInt = -2147483648 ∧ right.toInt = -1 := by
  have zero : (0 : Word).toInt = 0 := by decide
  have least : Word.least.toInt = -2147483648 := by decide
  have minusOne : (-1 : Word).toInt = -1 := by decide
  rw [← zero, ← least, ← minusOne, BitVec.toInt_inj, BitVec.toInt_inj, BitVec.toInt_inj]
  simp [Word.divisionFaults]

theorem division_faults_of_words (left right : Word) :
    Word.divisionFaults left right = true ↔
      right = 0 ∨ ¬IsSigned (left.toInt.tdiv right.toInt) := by
  rw [(word_quotient left right).1, Decidable.not_not]
  simp [Word.divisionFaults]

theorem divide_extended (core : Core) (divisor : Word) :
    core.extendSign.divide divisor =
      if Word.divisionFaults (core.get .eax) divisor then
        ⟨core.extendSign, some (if divisor = 0 then .divisionByZero else .quotientOverflow)⟩
      else
        ⟨(core.extendSign.set .eax ((core.get .eax).sdiv divisor)).set .edx
          ((core.get .eax).srem divisor), none⟩ := by
  have remainder : BitVec.ofInt 32 ((core.get .eax).toInt.tmod divisor.toInt) =
      (core.get .eax).srem divisor := by
    rw [← BitVec.toInt_srem, BitVec.ofInt_toInt]
  simp only [divide_eq, dividend_extended, remainder, division_faults_of_words]
  by_cases zero : divisor = 0
  · simp only [zero, true_or, if_true]
  · by_cases signed : IsSigned ((core.get .eax).toInt.tdiv divisor.toInt)
    · simp only [zero, signed, not_true, or_self, if_false, if_true,
        (word_quotient _ _).2 signed]
    · simp only [zero, signed, not_false_eq_true, or_true, if_false, if_true]

end Extended
end Core

/-- A division by a word that its operand stands for. It fails with a divide error, and then changes
nothing, just if the divisor is zero or the quotient toward zero is no signed word. Else eax and edx
take quotient and remainder, whole and with the signs of a division toward zero. Behind an extension
of the sign these are the quotient and the remainder of words, and the failures those that folding
leaves alone. -/
theorem hardware_division_exact (image : Image) (number : Nat) (operand : Operand) (core : Core)
    (divisor : Word) (loaded : image.load core operand = .ok divisor) :
    let effect := image.compute ⟨number, .idiv, [operand]⟩ core
    effect = core.divideWide divisor ∧
      ((∃ fault, effect.fault = some fault) ↔
        divisor = 0 ∨ ¬IsSigned (core.dividend.tdiv divisor.toInt)) ∧
      (∀ fault, effect.fault = some fault → fault.kind = .divideError ∧ effect.core = core) ∧
      (effect.fault = none → ∃ quotient remainder : Word,
        effect.core = (core.set .eax quotient).set .edx remainder ∧
        core.dividend = quotient.toInt * divisor.toInt + remainder.toInt ∧
        remainder.toInt.natAbs < divisor.toInt.natAbs ∧
        (remainder.toInt = 0 ∨ remainder.toInt.sign = core.dividend.sign)) ∧
      ∀ line operands before, image.compute ⟨line, .cdq, operands⟩ before = ⟨core, none⟩ →
        ((∃ fault, effect.fault = some fault) ↔
          Word.divisionFaults (core.get .eax) divisor = true) ∧
        ((∃ fault, effect.fault = some fault) ↔
          divisor.toInt = 0 ∨ (core.get .eax).toInt = -2147483648 ∧ divisor.toInt = -1) ∧
        (effect.fault = none → effect.core =
          (core.set .eax ((core.get .eax).sdiv divisor)).set .edx
            ((core.get .eax).srem divisor)) := by
  intro effect
  have divides : effect = core.divide divisor := by
    simp only [effect, Image.compute, Image.withWord, loaded]
  rw [divides]
  obtain ⟨fails, unchanged, divided⟩ := Core.divide_exact core divisor
  refine ⟨(Core.divide_wide core divisor).symm, fails, ?_, divided, ?_⟩
  · intro fault failed
    exact ⟨divide_fails failed, unchanged fault failed⟩
  · intro line operands before extended
    obtain rfl : before.extendSign = core := congrArg Effect.core extended
    have eax : before.extendSign.get .eax = before.get .eax := rfl
    rw [eax, ← Core.division_faults_numbers, Core.divide_extended]
    split
    · rename_i faults
      exact ⟨iff_of_true ⟨_, rfl⟩ faults, iff_of_true ⟨_, rfl⟩ faults,
        fun quiet => absurd quiet (Option.some_ne_none _)⟩
    · rename_i quiet
      exact ⟨iff_of_false Core.no_fault quiet, iff_of_false Core.no_fault quiet, fun _ => rfl⟩

def emptyImage : Image := ⟨{}, [], 0, 1, standardRoutines⟩

def sevenBelowZero : Core := { registers := { eax := -7, ebx := 2 }, memory := #[] }

/-- Quotient and remainder of minus seven and two, both toward zero. -/
theorem seven_below_zero_halved :
    emptyImage.load sevenBelowZero.extendSign (.register .ebx) = .ok 2 ∧
      sevenBelowZero.extendSign.dividend = -7 ∧
      (emptyImage.compute ⟨1, .idiv, [.register .ebx]⟩ sevenBelowZero.extendSign).core =
        (sevenBelowZero.extendSign.set .eax (-3)).set .edx (-1) := by
  obtain ⟨_, _, _, _, extended⟩ :=
    hardware_division_exact emptyImage 1 (.register .ebx) sevenBelowZero.extendSign 2 rfl
  obtain ⟨_, _, divided⟩ := extended 0 [] sevenBelowZero rfl
  exact ⟨rfl, by decide, divided (by decide)⟩

end ExprCompiler
