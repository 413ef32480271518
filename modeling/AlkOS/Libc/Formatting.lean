import AlkOS.Libc.Strings

/-!
# Items of a format

What an item of a format writes, and the condition under which this is the text that
C prescribes for it.
-/

namespace AlkOS.Libc

open Kernel

variable {item : Item} {directive : Directive} {modifier : LengthModifier} {spec : Spec}
  {conversion : IntegerConversion} {bits : BitVec 64} {array : List Char} {isWide : Bool}

namespace Item

/-- What an item writes, unless it leaves the scratch buffer or an array. -/
def output : Item → Option (List Char)
  | char c => some [c]
  | integer directive modifier conversion bits =>
    if conversion.base = 10 then
      some (padded (convertDecimal (!conversion.isSigned) (directive.specOf modifier) bits))
    else
      scratched (convertUnsigned conversion.format (directive.specOf modifier)
        (integerArg true modifier bits).toNat)
  | character directive isWide bits =>
    some (padded (convertChar (directive.specOf (if isWide then .l else .none)) bits))
  | string directive isWide array =>
    stringOutput (directive.specOf (if isWide then .l else .none))
      (if isWide then array.flatMap wideBytes else array)

/-- The condition under which an item is written as C prescribes. -/
def Meets : Item → Prop
  | char _ => True
  | integer directive modifier conversion bits =>
    let v := conversion.value modifier bits
    if conversion.base = 10 then
      DecimalCondition directive (conversion.sign directive.flags v) v
          (conversion.plain v).length ∧
        (conversion = .u → Flag.plus ∉ directive.flags ∧
          (Flag.space ∈ directive.flags → directive.isLeft = false ∧
            ¬ (Flag.zero ∈ directive.flags ∧ directive.rawPrecision < 0) ∧
            (conversion.digits (directive.precisionOf.getD 1) v).length < directive.fieldWidth))
    else UnsignedCondition directive conversion v
  | character _ _ _ => True
  | string directive isWide array =>
    if isWide then WideCondition directive array else StringCondition directive array

end Item

/-- A directive of a text that can be counted. -/
theorem sized_specOf (proper : directive.Proper) (room : directive.fieldWidth ≤ kIntMax)
    (modifier : LengthModifier) : Sized directive modifier (directive.specOf modifier) := by
  have range : -2 ^ 31 ≤ directive.rawPrecision ∧ directive.rawPrecision ≤ kIntMax := by
    unfold Directive.rawPrecision kIntMax
    cases given : directive.precision with
    | none => decide
    | some number =>
      have fits := proper.2 number given
      cases number with
      | digits ds =>
        have fits : ofDigits ds ≤ 2 ^ 31 - 1 := fits
        simp only [Option.map_some, Option.getD_some, Number.value]
        omega
      | star bits =>
        have low := BitVec.le_toInt (bits.setWidth 32)
        have high := BitVec.toInt_lt (x := bits.setWidth 32)
        simp only [Option.map_some, Option.getD_some, Number.value]
        omega
  exact ⟨reads_specOf room modifier, room, range.1, range.2⟩

theorem value_signed (signed : conversion.isSigned = true) :
    conversion.value modifier bits = (integerArg false modifier bits).toInt := by
  rw [IntegerConversion.value, if_pos signed, toInt_integerArg]

theorem value_unsigned (signed : conversion.isSigned = false) :
    conversion.value modifier bits = (integerArg true modifier bits).toNat := by
  rw [IntegerConversion.value, if_neg (by simp [signed]), toNat_integerArg]

theorem length_plain_value (conversion : IntegerConversion) (modifier : LengthModifier)
    (bits : BitVec 64) : (conversion.plain (conversion.value modifier bits)).length ≤ 64 := by
  apply length_plain_le
  cases signed : conversion.isSigned with
  | true =>
    have low := BitVec.le_toInt (integerArg false modifier bits)
    have high := BitVec.toInt_lt (x := integerArg false modifier bits)
    rw [value_signed signed]
    omega
  | false =>
    rw [value_unsigned signed]
    omega

/-- The sign that a decimal number is written with. -/
def signChar (flags : List Flag) (v : ℤ) : Option Char :=
  if v < 0 then some '-' else if Flag.plus ∈ flags then some '+'
  else if Flag.space ∈ flags then some ' ' else none

/-- `d`, `i` and `u`. -/
theorem convertDecimal_eq (reads : Reads directive modifier spec) (decimal : conversion.base = 10) :
    convertDecimal (!conversion.isSigned) spec bits =
      decimalOf spec (signChar directive.flags (conversion.value modifier bits))
        (conversion.plain (conversion.value modifier bits)) := by
  rw [← formatUInt_natAbs decimal]
  cases signed : conversion.isSigned with
  | true =>
    rw [value_signed signed, ← toNat_magnitude]
    by_cases negative : (integerArg false modifier bits).msb = true
    · have below := (msb_iff _).mp negative
      simp [convertDecimal, decimalOf, reads.modifier, negative, signChar, below]
    · have above : ¬ (integerArg false modifier bits).toInt < 0 := fun below =>
        negative ((msb_iff _).mpr below)
      simp [convertDecimal, decimalOf, reads.modifier, negative, signChar, above, reads.plus,
        reads.space]
  | false =>
    have above : ¬ ((integerArg true modifier bits).toNat : ℤ) < 0 := by omega
    rw [value_unsigned signed, signChar, if_neg above]
    simp [convertDecimal, decimalOf, reads.modifier, reads.plus, reads.space]

theorem fieldWidth_le (zerosFlag : Bool) (sign body : List Char)
    (fits : (directive.pad zerosFlag sign body).length ≤ kIntMax) :
    directive.fieldWidth ≤ kIntMax := by
  rw [length_pad] at fits
  exact (le_max_left _ _).trans fits

/-- Signed numbers. -/
theorem padded_signed_iff {v : ℤ} (sized : Sized directive modifier spec)
    (short : (conversion.plain v).length ≤ 64)
    (fits : (decimalText directive (conversion.sign directive.flags v) conversion v).length ≤
      kIntMax)
    (signed : conversion.isSigned = true) :
    padded (decimalOf spec (signChar directive.flags v) (conversion.plain v)) =
        decimalText directive (conversion.sign directive.flags v) conversion v ↔
      DecimalCondition directive (conversion.sign directive.flags v) v
        (conversion.plain v).length := by
  have same : (signChar directive.flags v).toList = conversion.sign directive.flags v := by
    cases conversion with
    | d =>
      simp only [IntegerConversion.sign, signChar]
      split_ifs <;> rfl
    | i =>
      simp only [IntegerConversion.sign, signChar]
      split_ifs <;> rfl
    | _ => cases signed
  have none : (conversion.sign directive.flags v).count '0' = 0 := by
    rw [← same, signChar]
    split_ifs <;> rfl
  exact padded_decimal_iff sized same none short fits

/-- Unsigned decimal numbers. -/
theorem padded_unsigned_iff {v : ℤ} (sized : Sized directive modifier spec)
    (short : (conversion.plain v).length ≤ 64)
    (fits : (decimalText directive [] conversion v).length ≤ kIntMax) (above : 0 ≤ v) :
    padded (decimalOf spec (signChar directive.flags v) (conversion.plain v)) =
        decimalText directive [] conversion v ↔
      DecimalCondition directive [] v (conversion.plain v).length ∧
        Flag.plus ∉ directive.flags ∧
        (Flag.space ∈ directive.flags → directive.isLeft = false ∧
          ¬ (Flag.zero ∈ directive.flags ∧ directive.rawPrecision < 0) ∧
          (conversion.digits (directive.precisionOf.getD 1) v).length < directive.fieldWidth) := by
  rw [signChar, if_neg (by omega)]
  by_cases plus : Flag.plus ∈ directive.flags
  · rw [if_pos plus]
    exact iff_of_false padded_decimal_plus_ne fun holds => holds.2.1 plus
  · rw [if_neg plus]
    by_cases space : Flag.space ∈ directive.flags
    · rw [if_pos space, padded_decimal_space_iff sized short fits]
      exact ⟨fun holds => ⟨holds.1, plus, fun _ => holds.2⟩,
        fun holds => ⟨holds.1, holds.2.2 space⟩⟩
    · have mark : (none : Option Char).toList = [] := rfl
      have unsigned : ([] : List Char).count '0' = 0 := rfl
      rw [if_neg space, padded_decimal_iff sized mark unsigned short fits]
      exact ⟨fun holds => ⟨holds, plus, fun member => absurd member space⟩, fun holds => holds.1⟩

/-- When a decimal number is written as prescribed. -/
theorem decimal_output_iff (proper : directive.Proper) (decimal : conversion.base = 10)
    (fits : (Item.integer directive modifier conversion bits).text.length ≤ kIntMax) :
    (Item.integer directive modifier conversion bits).output =
        some (Item.integer directive modifier conversion bits).text ↔
      (Item.integer directive modifier conversion bits).Meets := by
  have sized := sized_specOf proper (fieldWidth_le _ _ _ fits) modifier
  have short := length_plain_value conversion modifier bits
  have body : ∀ p, conversion.body directive.flags p (conversion.value modifier bits) =
      conversion.digits p (conversion.value modifier bits) := by
    have other : conversion ≠ .o := fun same => by simp [same, IntegerConversion.base] at decimal
    simp [IntegerConversion.body, other]
  simp only [Item.text, body] at fits ⊢
  simp only [Item.output, Item.Meets, decimal, ↓reduceIte, convertDecimal_eq sized.reads decimal,
    Option.some.injEq]
  cases signed : conversion.isSigned with
  | true =>
    refine (padded_signed_iff sized short fits signed).trans ?_
    refine ⟨fun holds => ⟨holds, fun same => ?_⟩, fun holds => holds.1⟩
    simp [same, IntegerConversion.isSigned] at signed
  | false =>
    have isU : conversion = .u := by
      cases conversion with
      | u => rfl
      | x => exact absurd decimal (by decide)
      | bigX => exact absurd decimal (by decide)
      | o => exact absurd decimal (by decide)
      | _ => exact nomatch signed
    subst isU
    have above : 0 ≤ IntegerConversion.u.value modifier bits := by
      exact Int.natCast_nonneg _
    refine (padded_unsigned_iff sized short fits above).trans ?_
    exact ⟨fun holds => ⟨holds.1, fun _ => holds.2⟩, fun holds => ⟨holds.1, holds.2 rfl⟩⟩

/-- An item is written as C prescribes exactly under its condition. -/
theorem output_iff_meets (proper : item.Proper) (fits : item.text.length ≤ kIntMax) :
    item.output = some item.text ↔ item.Meets := by
  cases item with
  | char c => exact iff_of_true rfl trivial
  | character directive isWide bits =>
    have sized := sized_specOf proper.1 (fieldWidth_le _ _ _ fits)
      (if isWide then .l else .none)
    exact iff_of_true (congrArg some (padded_convertChar sized)) trivial
  | string directive isWide array =>
    have sized := sized_specOf proper.1 (fieldWidth_le _ _ _ fits)
      (if isWide then .l else .none)
    cases isWide with
    | true => exact wideOutput_iff sized (proper.2.2 rfl) fits
    | false => exact stringOutput_iff sized fits
  | integer directive modifier conversion bits =>
    by_cases decimal : conversion.base = 10
    · exact decimal_output_iff proper.1 decimal fits
    · have sized := sized_specOf proper.1 (fieldWidth_le _ _ _ fits) modifier
      have unsigned : conversion.isSigned = false := by
        cases conversion with
        | d => exact absurd rfl decimal
        | i => exact absurd rfl decimal
        | _ => rfl
      have short := proper.2 decimal
      simp only [Item.text, value_unsigned unsigned] at fits short ⊢
      simp only [Item.output, Item.Meets, decimal, value_unsigned unsigned]
      exact scratched_iff sized decimal short fits

end AlkOS.Libc
