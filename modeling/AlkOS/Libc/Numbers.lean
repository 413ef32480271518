import AlkOS.Libc.Parsing

/-!
# Digits and padding

The integers that `vsnprintf` formats are those C prescribes, and so are their
digits. The padding is the one of the directive as long as no difference of lengths
leaves the range of `int`.
-/

namespace AlkOS.Libc

open Kernel

variable {num p : ℕ} {v width precision : ℤ} {bits : BitVec 64} {modifier : LengthModifier}
  {conversion : IntegerConversion} {flags : List Flag}

theorem toInt_integerArg : (integerArg false modifier bits).toInt =
    (bits.setWidth modifier.bits).toInt := by
  cases modifier <;>
    simp [integerArg, LengthModifier.bits,
      BitVec.toInt_signExtend_of_le]

theorem toNat_integerArg : (integerArg true modifier bits).toNat =
    (bits.setWidth modifier.bits).toNat := by
  cases modifier <;> simp [integerArg, LengthModifier.bits] <;> omega

theorem msb_iff (d : BitVec 64) : d.msb = true ↔ d.toInt < 0 := by
  rw [BitVec.msb_eq_toInt]
  simp

/-- The number without its sign. -/
theorem toNat_magnitude (d : BitVec 64) :
    (if d.msb = true then -d else d).toNat = d.toInt.natAbs := by
  by_cases negative : d.msb = true
  · rw [if_pos negative, BitVec.toNat_neg]
    rw [msb_iff] at negative
    rw [BitVec.toInt_eq_toNat_cond] at negative ⊢
    split at negative <;> split <;> omega
  · rw [if_neg negative]
    rw [msb_iff] at negative
    rw [BitVec.toInt_eq_toNat_cond] at negative ⊢
    split at negative <;> split <;> omega

/-- The digits of a number that is written without a precision. -/
abbrev IntegerConversion.plain (conversion : IntegerConversion) (v : ℤ) : List Char :=
  conversion.digits 1 v

theorem base_ge_two : 1 < conversion.base := by
  cases conversion <;> decide

theorem plain_zero : conversion.plain 0 = ['0'] := by
  simp [IntegerConversion.digits]

theorem digits_zero : conversion.digits p 0 = List.replicate p '0' := by
  simp [IntegerConversion.digits]

theorem plain_of_ne (nonzero : v ≠ 0) : conversion.plain v =
    ((Nat.digits conversion.base v.natAbs).map
      (digitChar (conversion = IntegerConversion.bigX))).reverse := by
  have nonempty : Nat.digits conversion.base v.natAbs ≠ [] :=
    Nat.digits_ne_nil_iff_ne_zero.mpr (by omega)
  have positive := List.length_pos_iff.mpr nonempty
  have enough : 1 - (Nat.digits conversion.base v.natAbs).length = 0 := by omega
  simp [IntegerConversion.digits, enough]

theorem length_plain_pos : 0 < (conversion.plain v).length := by
  simp only [IntegerConversion.digits, List.length_append,
    List.length_replicate]
  omega

/-- A precision adds zeros; a precision of 0 leaves none for zero. -/
theorem digits_eq_plain (nonempty : v ≠ 0 ∨ p ≠ 0) : conversion.digits p v =
    List.replicate (p - (conversion.plain v).length) '0' ++ conversion.plain v := by
  by_cases zero : v = 0
  · subst zero
    obtain ⟨n, rfl⟩ : ∃ n, p = n + 1 := ⟨p - 1, by omega⟩
    rw [digits_zero, plain_zero, List.replicate_succ']
    rfl
  · rw [plain_of_ne zero]
    simp [IntegerConversion.digits]

/-- The first digit of a number other than zero. -/
theorem head_plain_ne (nonzero : v ≠ 0) : (conversion.plain v).head? ≠ some '0' := by
  have nonempty : Nat.digits conversion.base v.natAbs ≠ [] :=
    Nat.digits_ne_nil_iff_ne_zero.mpr (by omega)
  have last := Nat.getLast_digit_ne_zero conversion.base (m := v.natAbs) (by omega)
  have small := Nat.digits_lt_base base_ge_two (List.getLast_mem nonempty)
  have none : ∀ upper : Bool, ∀ k < 16, k ≠ 0 → digitChar upper k ≠ '0' := by decide
  have bound : conversion.base ≤ 16 := by cases conversion <;> decide
  rw [plain_of_ne nonzero, List.head?_reverse, List.getLast?_map,
    List.getLast?_eq_some_getLast nonempty]
  intro same
  exact none _ _ (small.trans_le bound) last (Option.some.inj same)

/-- Digits are not spaces or signs. -/
theorem mem_digits {c : Char} (member : c ∈ conversion.digits p v) : c ≠ ' ' ∧ c ≠ '+' := by
  have digit : ∀ upper : Bool, ∀ k < 16, digitChar upper k ≠ ' ' ∧ digitChar upper k ≠ '+' := by
    decide
  have bound : conversion.base ≤ 16 := by cases conversion <;> decide
  simp only [IntegerConversion.digits, List.mem_append, List.mem_replicate, List.mem_reverse,
    List.mem_map] at member
  rcases member with ⟨_, rfl⟩ | ⟨k, known, rfl⟩
  · decide
  · exact digit _ k ((Nat.digits_lt_base base_ge_two known).trans_le bound)

/-- Numbers of 64 bits have at most 64 digits. -/
theorem length_plain_le (small : v.natAbs < 2 ^ 64) : (conversion.plain v).length ≤ 64 := by
  by_cases zero : v = 0
  · subst zero
    rw [plain_zero]
    decide
  · rw [plain_of_ne zero, List.length_reverse, List.length_map,
      Nat.digits_length_le_iff base_ge_two]
    exact small.trans_le (Nat.pow_le_pow_left base_ge_two 64)

/-- `FormatUInt`. -/
theorem formatUInt_natAbs (decimal : conversion.base = 10) :
    formatUInt v.natAbs = conversion.plain v := by
  unfold formatUInt
  by_cases zero : v = 0
  · subst zero
    rw [plain_zero]
    rfl
  · rw [if_neg (by omega), plain_of_ne zero, decimal]
    congr 1
    refine List.map_congr_left ?_
    intro digit member
    have small := Nat.digits_lt_base (by decide) member
    simp [digitChar, small]

namespace IntegerConversion

/-- The functions that format hexadecimal and octal numbers. -/
def format : IntegerConversion → ℕ → Bool → ℤ → Bool → ℤ → List Char
  | x => formatHex 0x20
  | bigX => formatHex 0
  | _ => formatOct

end IntegerConversion

theorem orLower_kHexDigits : ∀ k < 16, orLower 0x20 (kHexDigits.getD k '0') = digitChar false k ∧
    orLower 0 (kHexDigits.getD k '0') = digitChar true k := by
  decide

theorem map_digits_eq {base : ℕ} {first second : ℕ → Char} (large : 1 < base)
    (same : ∀ k < base, first k = second k) (n : ℕ) :
    (Nat.digits base n).map first = (Nat.digits base n).map second :=
  List.map_congr_left fun _ member => same _ (Nat.digits_lt_base large member)

/-- The zeros and the mark in front of the digits. -/
theorem formatHex_of_ne {lower : ℕ} {hash zeroPadding : Bool} (nonzero : num ≠ 0) :
    formatHex lower num hash precision zeroPadding width =
      (if hash then ['0', orLower lower 'X'] else []) ++
      List.replicate (if zeroPadding = true then
        if precision ≠ -1 then precision - (Nat.digits 16 num).length
        else width - (Nat.digits 16 num).length - if hash then 2 else 0 else (0 : ℤ)).toNat '0' ++
      ((Nat.digits 16 num).map fun digit => orLower lower (kHexDigits.getD digit '0')).reverse := by
  unfold formatHex
  rw [if_neg nonzero]
  cases hash <;> simp

theorem formatOct_of_ne {hash zeroPadding : Bool} (nonzero : num ≠ 0) :
    formatOct num hash precision zeroPadding width =
      (if hash then ['0'] else []) ++
      List.replicate (if zeroPadding = true then
        if precision ≠ -1 then precision - (Nat.digits 8 num).length - if hash then 1 else 0
        else width - (Nat.digits 8 num).length - if hash then 1 else 0 else (0 : ℤ)).toNat '0' ++
      ((Nat.digits 8 num).map fun digit => Char.ofNat (48 + digit)).reverse := by
  unfold formatOct
  rw [if_neg nonzero]
  cases hash <;> simp

theorem format_zero (hash zeroPadding : Bool) :
    conversion.format 0 hash precision zeroPadding width = formatZero precision := by
  cases conversion <;> rfl

/-- A number other than zero is formatted with a precision, plain, or with zeros up to a width. -/
structure Formats (conversion : IntegerConversion) (flags : List Flag) (num : ℕ) : Prop where
  precision : ∀ p : ℕ, conversion.format num (decide (Flag.hash ∈ flags)) p true (-1) =
    conversion.sign flags num ++ conversion.body flags p num
  plain : conversion.format num (decide (Flag.hash ∈ flags)) (-1) false (-1) =
    conversion.sign flags num ++ conversion.body flags 1 num
  width : ∀ width : ℤ, conversion.format num (decide (Flag.hash ∈ flags)) (-1) true width =
    conversion.sign flags num ++ List.replicate (width - (conversion.sign flags num).length -
      (conversion.body flags 1 num).length).toNat '0' ++ conversion.body flags 1 num

/-- The digits in either case. -/
theorem formats_hex (upper : Bool) (nonzero : num ≠ 0)
    (known : conversion = if upper then .bigX else .x) : Formats conversion flags num := by
  have value : (num : ℤ) ≠ 0 := by omega
  have lower : conversion.format = formatHex (if upper then 0 else 0x20) := by
    cases upper <;> rw [known] <;> rfl
  have base : conversion.base = 16 := by cases upper <;> rw [known] <;> rfl
  have letters : ∀ k < 16, orLower (if upper then 0 else 0x20) (kHexDigits.getD k '0') =
      digitChar (conversion = IntegerConversion.bigX) k := by
    intro k small
    cases upper with
    | false => rw [known]; exact (orLower_kHexDigits k small).1
    | true => rw [known]; exact (orLower_kHexDigits k small).2
  have digits : ((Nat.digits 16 num).map fun digit =>
      orLower (if upper then 0 else 0x20) (kHexDigits.getD digit '0')).reverse =
        conversion.plain num := by
    rw [plain_of_ne value, base, Int.natAbs_natCast, map_digits_eq (by decide) letters]
  have length : (conversion.plain num).length = (Nat.digits 16 num).length := by
    rw [← digits, List.length_reverse, List.length_map]
  have sign : (if decide (Flag.hash ∈ flags) = true then
      ['0', orLower (if upper then 0 else 0x20) 'X'] else []) = conversion.sign flags num := by
    cases upper <;> by_cases hash : Flag.hash ∈ flags <;>
      simp [known, IntegerConversion.sign, hash, nonzero] <;> decide
  have marks : (conversion.sign flags num).length = if Flag.hash ∈ flags then 2 else 0 := by
    rw [← sign]
    by_cases hash : Flag.hash ∈ flags <;> simp [hash]
  have body : ∀ p, conversion.body flags p num = conversion.digits p num := by
    cases upper <;> simp [known, IntegerConversion.body]
  refine ⟨?_, ?_, ?_⟩
  · intro p
    rw [lower, formatHex_of_ne nonzero, digits, sign, body, digits_eq_plain (.inl value), length]
    simp
  · rw [lower, formatHex_of_ne nonzero, digits, sign, body]
    simp
  · intro width
    rw [lower, formatHex_of_ne nonzero, sign, body, length, marks]
    simp only [↓reduceIte, decide_eq_true_eq, ne_eq, not_true_eq_false]
    congr 3
    split <;> omega

/-- A leading zero is one of the zeros in front of the digits. -/
theorem zero_cons_replicate (n : ℕ) (rest : List Char) :
    '0' :: (List.replicate n '0' ++ rest) = List.replicate n '0' ++ '0' :: rest := by
  rw [← List.cons_append, ← List.replicate_succ, List.replicate_succ', List.append_assoc]
  rfl

/-- The body of an octal number with a `#` flag. -/
theorem body_octal (nonzero : v ≠ 0) (hash : Flag.hash ∈ flags) :
    IntegerConversion.o.body flags p v =
      '0' :: (List.replicate (p - (IntegerConversion.o.plain v).length - 1) '0' ++
        IntegerConversion.o.plain v) := by
  unfold IntegerConversion.body
  simp only [hash]
  rw [digits_eq_plain (.inl nonzero)]
  cases more : p - (IntegerConversion.o.plain v).length with
  | zero =>
    have head : (IntegerConversion.o.plain v).head? ≠ some '0' := head_plain_ne nonzero
    simp [head]
  | succ n => simp [List.replicate_succ]

/-- `FormatUInt` with base 8. -/
theorem formats_oct (nonzero : num ≠ 0) : Formats .o flags num := by
  have value : (num : ℤ) ≠ 0 := by omega
  have digits : ((Nat.digits 8 num).map fun digit => Char.ofNat (48 + digit)).reverse =
      IntegerConversion.o.plain num := by
    have letters : ∀ k < 8, Char.ofNat (48 + k) = digitChar false k := by decide
    rw [plain_of_ne value, map_digits_eq (by decide) letters]
    rfl
  have length : (IntegerConversion.o.plain num).length = (Nat.digits 8 num).length := by
    rw [← digits, List.length_reverse, List.length_map]
  have format : IntegerConversion.o.format = formatOct := rfl
  have sign : IntegerConversion.o.sign flags num = [] := rfl
  by_cases hash : Flag.hash ∈ flags
  · refine ⟨?_, ?_, ?_⟩
    · intro p
      rw [format, formatOct_of_ne nonzero, digits, sign, body_octal value hash, length]
      simp [hash]
    · rw [format, formatOct_of_ne nonzero, digits, sign, body_octal value hash]
      simp [hash]
    · intro width
      rw [format, formatOct_of_ne nonzero, sign, body_octal value hash, length]
      simp only [hash, decide_true, ↓reduceIte, List.nil_append,
        List.cons_append]
      rw [zero_cons_replicate]
      have none : 1 - (Nat.digits 8 num).length - 1 = 0 := by omega
      rw [none]
      congr 2
      simp only [List.length_nil, List.length_cons, List.replicate_zero, List.nil_append]
      omega
  · have body : ∀ p, IntegerConversion.o.body flags p num = IntegerConversion.o.digits p num := by
      simp [IntegerConversion.body, hash]
    refine ⟨?_, ?_, ?_⟩
    · intro p
      rw [format, formatOct_of_ne nonzero, digits, sign, body, digits_eq_plain (.inl value), length]
      simp [hash]
    · rw [format, formatOct_of_ne nonzero, digits, sign, body]
      simp [hash]
    · intro width
      rw [format, formatOct_of_ne nonzero, digits, sign, body, length]
      simp [hash]

theorem formats (other : conversion.base ≠ 10) (nonzero : num ≠ 0) :
    Formats conversion flags num := by
  cases conversion with
  | x => exact formats_hex false nonzero rfl
  | bigX => exact formats_hex true nonzero rfl
  | o => exact formats_oct nonzero
  | d => exact absurd rfl other
  | i => exact absurd rfl other
  | u => exact absurd rfl other

end AlkOS.Libc
