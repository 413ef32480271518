import AlkOS.Libc.Conversions

/-!
# Hexadecimal and octal numbers, characters and strings

`FormatHex` and `FormatOct` apply the precision themselves, and the width together
with a `0` flag as well, inside the scratch buffer. Strings are padded with zeros up
to their precision.
-/

namespace AlkOS.Libc

open Kernel

variable {directive : Directive} {modifier : LengthModifier} {spec : Spec} {num : ℕ} {v : ℤ}
  {sign body data : List Char} {conversion : IntegerConversion}

section

variable (sized : Sized directive modifier spec) {converted : Converted}
  (width : converted.spec.width = spec.width)
  (side : converted.spec.reversePadding = spec.reversePadding)
  (zero : converted.spec.zeroPadding = false) (mark : converted.prefixChar = none)
  (small : converted.data.length ≤ kIntMax)
include sized width side zero mark small

/-- Text without a sign of its own, spaces around it. -/
theorem padded_plain (low : -2 ^ 31 ≤ converted.spec.precision - converted.data.length)
    (high : converted.spec.precision ≤ kIntMax) :
    padded converted = directive.pad false []
      (List.replicate (converted.spec.precision - converted.data.length).toNat '0' ++
        converted.data) := by
  have start : converted.start = converted.spec.precision := by
    rw [Converted.start, if_neg (by simp [zero])]
  have lowWidth := sized.width_low
  have highWidth := sized.width_high
  have count := sized.toNat_width
  rw [kIntMax] at small high
  rw [padded_of_range start (by omega) (by omega) low (by omega) (by omega), pad_eq_layout,
    if_pos (.inr rfl), layout_zeros, mark, zero, side, sized.reads.reverse, Bool.not_false,
    Bool.and_true, Directive.fillOf, List.length_nil,
    List.length_append, List.length_replicate, ← count]
  congr 1
  omega

/-- Without a precision, unless a difference wraps around. -/
theorem padded_missing_iff (missing : directive.rawPrecision < 0)
    (same : converted.spec.precision = spec.precision) {text : List Char}
    (fits : text.length ≤ kIntMax) :
    padded converted = text ↔ -2 ^ 31 ≤ directive.rawPrecision - converted.data.length ∧
      directive.pad false [] converted.data = text := by
  have precision := same.trans sized.reads.precision
  have written (range : -2 ^ 31 ≤ directive.rawPrecision - converted.data.length) :
      padded converted = directive.pad false [] converted.data := by
    have none : (directive.rawPrecision - converted.data.length).toNat = 0 := by omega
    rw [padded_plain sized width side zero mark small (by rw [precision]; exact range)
      (by rw [precision]; exact sized.high), precision, none]
    rfl
  constructor
  · rintro rfl
    have start : converted.start = directive.rawPrecision := by
      rw [Converted.start, if_neg (by simp [zero])]
      exact precision
    have range := range_of_padded start sized.low (lt_of_le_of_lt small (by decide)) fits
    exact ⟨range, (written range).symm⟩
  · rintro ⟨range, rfl⟩
    exact written range

end

/-- A sign can be taken with what follows it. -/
theorem pad_sign (directive : Directive) (sign body : List Char) :
    directive.pad false sign body = directive.pad false [] (sign ++ body) := by
  rw [pad_eq_layout, pad_eq_layout]
  simp [layout, Directive.fillOf]

/-- A text as wide as the field. -/
theorem pad_full (full : directive.fieldWidth ≤ data.length) :
    directive.pad false [] data = data := by
  have none : directive.fillOf [] data = 0 := Nat.sub_eq_zero_of_le (by simpa using full)
  rw [pad_eq_layout, if_pos (.inr rfl), none, layout_no_fill]
  rfl

/-- An octal zero with a `#` flag and a precision of 0 has no digits; the `0` flag holds although a
`-` flag follows, and its zeros go to the scratch buffer. -/
def UnsignedCondition (directive : Directive) (conversion : IntegerConversion) (v : ℤ) : Prop :=
  let length := (conversion.sign directive.flags v ++ conversion.body directive.flags 1 v).length
  (directive.rawPrecision = 0 → conversion = .o → Flag.hash ∈ directive.flags → v ≠ 0) ∧
  (directive.rawPrecision < 0 → zeroFirst directive.flags = true →
    (directive.isLeft = true → directive.fieldWidth ≤ length) ∧
    (v ≠ 0 → directive.fieldWidth < kBufferSize ∧
      -2 ^ 31 ≤ directive.rawPrecision - max directive.fieldWidth length)) ∧
  (directive.rawPrecision < 0 → zeroFirst directive.flags = false →
    -2 ^ 31 ≤ directive.rawPrecision - length)

/-- The text of a hexadecimal or octal number. -/
def unsignedText (directive : Directive) (conversion : IntegerConversion) (v : ℤ) : List Char :=
  directive.pad (decide (Flag.zero ∈ directive.flags) && directive.precisionOf.isNone)
    (conversion.sign directive.flags v)
    (conversion.body directive.flags (directive.precisionOf.getD 1) v)

/-- What the scratch buffer lets through. -/
def scratched (converted : Converted) : Option (List Char) :=
  if converted.data.length < kBufferSize then some (padded converted) else none

theorem sign_zero (other : conversion.base ≠ 10) (flags : List Flag) :
    conversion.sign flags 0 = [] := by
  cases conversion with
  | d => exact absurd rfl other
  | i => exact absurd rfl other
  | _ => simp [IntegerConversion.sign]

theorem body_zero (flags : List Flag) (p : ℕ) : conversion.body flags p 0 =
    if conversion = .o ∧ Flag.hash ∈ flags ∧ p = 0 then ['0'] else List.replicate p '0' := by
  unfold IntegerConversion.body
  rw [digits_zero]
  cases p with
  | zero => simp
  | succ n => simp [List.replicate_succ]

theorem body_one_zero (flags : List Flag) : conversion.body flags 1 0 = ['0'] := by
  simp [IntegerConversion.body, digits_zero]

theorem le_length_body (flags : List Flag) (p : ℕ) : p ≤ (conversion.body flags p v).length := by
  have digits : p ≤ (conversion.digits p v).length := by
    simp only [IntegerConversion.digits, List.length_append, List.length_replicate]
    omega
  unfold IntegerConversion.body
  simp only
  split
  · exact digits.trans (Nat.le_succ _)
  · exact digits

theorem unsignedText_of_nonneg (given : 0 ≤ directive.rawPrecision) :
    unsignedText directive conversion v = directive.pad false []
      (conversion.sign directive.flags v ++
      conversion.body directive.flags directive.rawPrecision.toNat v) := by
  rw [unsignedText, precisionOf_of_nonneg given, Option.isNone_some, Bool.and_false, pad_sign]
  rfl

theorem unsignedText_of_neg (missing : directive.rawPrecision < 0) :
    unsignedText directive conversion v =
      directive.pad (decide (Flag.zero ∈ directive.flags)) (conversion.sign directive.flags v)
        (conversion.body directive.flags 1 v) := by
  rw [unsignedText, precisionOf_of_neg missing, Option.isNone_none, Bool.and_true]
  rfl

variable (sized : Sized directive modifier spec) (other : conversion.base ≠ 10)
include sized other

/-- With a precision. -/
theorem scratched_precision (given : 0 ≤ directive.rawPrecision)
    (short : (conversion.sign directive.flags num ++ conversion.body directive.flags
      directive.rawPrecision.toNat num).length < kBufferSize) :
    scratched (convertUnsigned conversion.format spec num) =
        some (unsignedText directive conversion num) ↔
      (directive.rawPrecision = 0 → conversion = .o → Flag.hash ∈ directive.flags →
        (num : ℤ) ≠ 0) := by
  obtain ⟨p, raw⟩ := Int.eq_ofNat_of_zero_le given
  have precision := sized.reads.precision
  have converted : convertUnsigned conversion.format spec num =
      { spec := { spec with zeroPadding := false }
        prefixChar := none
        data := conversion.format num (decide (Flag.hash ∈ directive.flags)) p true (-1) } := by
    rw [convertUnsigned, if_pos (by rw [precision]; exact given), precision, raw, sized.reads.hash]
  have text : ∀ data : List Char, p ≤ data.length → data.length < kBufferSize →
      scratched { spec := { spec with zeroPadding := false }, prefixChar := none, data := data } =
        some (directive.pad false [] data) := by
    intro data long short
    rw [scratched, if_pos short, padded_plain sized rfl rfl rfl rfl]
    · have none : (spec.precision - data.length).toNat = 0 := by omega
      rw [none]
      rfl
    · exact le_trans (le_of_lt short) (by decide)
    · change -2 ^ 31 ≤ spec.precision - data.length
      rw [kBufferSize] at short
      omega
    · rw [precision]
      exact sized.high
  rw [unsignedText_of_nonneg given, converted]
  rw [raw, Int.toNat_natCast] at short ⊢
  by_cases zero : num = 0
  · subst zero
    have data : conversion.format 0 (decide (Flag.hash ∈ directive.flags)) p true (-1) =
        List.replicate p '0' := by
      rw [format_zero, formatZero, if_neg (by omega), Int.toNat_natCast]
    have room : (List.replicate p '0').length < kBufferSize := by
      have long : p ≤ (conversion.body directive.flags p ((0 : ℕ) : ℤ)).length :=
        le_length_body directive.flags p
      rw [List.length_append] at short
      rw [List.length_replicate]
      omega
    rw [data, text _ (by rw [List.length_replicate]) room, Nat.cast_zero, sign_zero other,
      body_zero]
    by_cases exceptional : conversion = .o ∧ Flag.hash ∈ directive.flags ∧ p = 0
    · rw [if_pos exceptional, exceptional.2.2]
      refine iff_of_false ?_ (fun holds => holds rfl exceptional.1 exceptional.2.1 rfl)
      intro same
      have counts := congrArg (List.count '0') (Option.some.inj same)
      rw [pad_eq_layout, pad_eq_layout, if_pos (Or.inr rfl), if_pos (Or.inr rfl), count_layout,
        count_layout] at counts
      simp at counts
    · rw [if_neg exceptional]
      refine iff_of_true rfl ?_
      intro none octal hash
      exact absurd ⟨octal, hash, by omega⟩ exceptional
  · have formats : Formats conversion directive.flags num := formats other zero
    rw [formats.precision, text _ _ short]
    · simp [zero]
    · rw [List.length_append]
      exact (le_length_body directive.flags p).trans (Nat.le_add_left _ _)

section

variable (missing : directive.rawPrecision < 0)
  (short : (conversion.sign directive.flags num ++
    conversion.body directive.flags 1 num).length < kBufferSize)
  (fits : (unsignedText directive conversion num).length ≤ kIntMax)
include missing short fits

/-- Without a `0` flag. -/
theorem scratched_plain (first : zeroFirst directive.flags = false) :
    scratched (convertUnsigned conversion.format spec num) =
        some (unsignedText directive conversion num) ↔
      -2 ^ 31 ≤ directive.rawPrecision - (conversion.sign directive.flags num ++
        conversion.body directive.flags 1 num).length := by
  have precision := sized.reads.precision
  have zero : spec.zeroPadding = false := sized.reads.zero.trans first
  have data : conversion.format num (decide (Flag.hash ∈ directive.flags)) (-1) false (-1) =
      conversion.sign directive.flags num ++ conversion.body directive.flags 1 num := by
    by_cases none : num = 0
    · subst none
      rw [format_zero, Nat.cast_zero, sign_zero other, body_one_zero]
      rfl
    · have formats : Formats conversion directive.flags num := formats other none
      exact formats.plain
  have converted : convertUnsigned conversion.format spec num = ⟨spec, none,
      conversion.sign directive.flags num ++ conversion.body directive.flags 1 num⟩ := by
    rw [convertUnsigned, if_neg (by omega), if_neg (by simp [zero]), sized.reads.hash, data]
  rw [converted, scratched, if_pos short, Option.some.injEq,
    padded_missing_iff sized rfl rfl zero rfl (short.le.trans (by decide)) missing rfl fits,
    and_iff_left]
  rw [unsignedText_of_neg missing, ← pad_sign, pad_eq_layout, pad_eq_layout, if_pos (.inr rfl)]
  by_cases side : directive.isLeft = true
  · rw [if_pos (.inl side)]
  · have none := zeroFirst_of_not_minus (not_minus_of_not_isLeft (by simpa using side))
    rw [first] at none
    rw [if_pos (.inr none.symm)]

/-- A number other than zero with a `0` flag. -/
theorem scratched_width (first : zeroFirst directive.flags = true) (nonzero : num ≠ 0) :
    scratched (convertUnsigned conversion.format spec num) =
        some (unsignedText directive conversion num) ↔
      (directive.isLeft = true → directive.fieldWidth ≤ (conversion.sign directive.flags num ++
        conversion.body directive.flags 1 num).length) ∧
      directive.fieldWidth < kBufferSize ∧
      -2 ^ 31 ≤ directive.rawPrecision - max directive.fieldWidth
        (conversion.sign directive.flags num ++
          conversion.body directive.flags 1 num).length := by
  have precision := sized.reads.precision
  have zero : spec.zeroPadding = true := sized.reads.zero.trans first
  have flag := zero_mem_of_zeroFirst first
  have formats : Formats conversion directive.flags num := formats other nonzero
  have data := formats.width spec.width
  rw [unsignedText_of_neg missing, decide_eq_true flag] at *
  generalize conversion.sign directive.flags num = sign at *
  generalize conversion.body directive.flags 1 num = body at *
  have fill : (spec.width - sign.length - body.length).toNat = directive.fillOf sign body := by
    rw [Directive.fillOf, ← sized.toNat_width (sign.length + body.length)]
    omega
  have converted : convertUnsigned conversion.format spec num =
      ⟨{ spec with zeroPadding := false }, none,
        sign ++ List.replicate (directive.fillOf sign body) '0' ++ body⟩ := by
    rw [convertUnsigned, if_neg (by omega), if_pos zero, sized.reads.hash, data, fill]
    simp [nonzero]
  have length : (sign ++ List.replicate (directive.fillOf sign body) '0' ++ body).length =
      max directive.fieldWidth (sign ++ body).length := by
    simp only [List.length_append, List.length_replicate, Directive.fillOf]
    omega
  generalize text : sign ++ List.replicate (directive.fillOf sign body) '0' ++ body = data at *
  rw [converted, scratched]
  by_cases room : directive.fieldWidth < kBufferSize
  · have small : data.length < kBufferSize := by
      rw [length]
      exact max_lt room short
    rw [if_pos small, ← length, Option.some.injEq,
      padded_missing_iff sized rfl rfl rfl rfl (small.le.trans (by decide)) missing rfl fits,
      pad_full (by rw [length]; exact le_max_left _ _)]
    constructor
    · rintro ⟨range, same⟩
      refine ⟨?_, room, range⟩
      intro side
      have counts := congrArg (List.count ' ') same
      rw [← text, pad_eq_layout, if_pos (Or.inl side), count_layout,
        List.count_append, List.count_append, count_replicate_eq] at counts
      simp only [Char.reduceEq, ↓reduceIte, Directive.fillOf] at counts
      rw [List.length_append]
      omega
    · rintro ⟨left, -, range⟩
      refine ⟨range, ?_⟩
      rw [pad_eq_layout]
      by_cases side : directive.isLeft = true
      · have none : directive.fillOf sign body = 0 := by
          have full := left side
          rw [List.length_append] at full
          exact Nat.sub_eq_zero_of_le full
        rw [if_pos (.inl side), ← text, none, layout_no_fill]
      · rw [if_neg (by simp [side]), layout_no_fill, text]
  · rw [if_neg (by rw [length]; omega)]
    exact iff_of_false (Option.some_ne_none _).symm fun holds => room holds.2.1

end

/-- Zero with a `0` flag. -/
theorem scratched_zero (missing : directive.rawPrecision < 0)
    (first : zeroFirst directive.flags = true) :
    scratched (convertUnsigned conversion.format spec 0) =
        some (unsignedText directive conversion 0) ↔
      (directive.isLeft = true → directive.fieldWidth ≤ 1) := by
  have precision := sized.reads.precision
  have zero : spec.zeroPadding = true := sized.reads.zero.trans first
  have flag := zero_mem_of_zeroFirst first
  have converted : convertUnsigned conversion.format spec 0 = ⟨spec, none, ['0']⟩ := by
    rw [convertUnsigned, if_neg (by omega), format_zero, formatZero]
    simp [← zero]
  have low := sized.width_low
  have high := sized.width_high
  have start : Converted.start ⟨spec, none, ['0']⟩ = spec.width := by
    exact if_pos ⟨by rw [precision]; exact missing, zero⟩
  have written : padded ⟨spec, none, ['0']⟩ =
      List.replicate (directive.fieldWidth - 1) '0' ++ ['0'] := by
    have none : (spec.width - (1 : ℕ) - (spec.width - (1 : ℕ)).toNat : ℤ).toNat = 0 := by omega
    have low : -2 ^ 31 ≤ spec.width - (1 : ℕ) := by omega
    rw [padded_of_range start low high low high (by intro _; simp), ← sized.toNat_width]
    simp only [List.length_singleton]
    rw [none, layout_no_fill]
    rfl
  have text : unsignedText directive conversion 0 =
      directive.pad true [] ['0'] := by
    rw [unsignedText_of_neg missing, decide_eq_true flag, sign_zero other, body_one_zero]
  rw [converted, scratched, if_pos (by simp [kBufferSize]), text, written, pad_eq_layout,
    Option.some.injEq]
  by_cases side : directive.isLeft = true
  · rw [if_pos (.inl side)]
    constructor
    · intro same _
      have counts := congrArg (List.count ' ') same
      rw [count_layout, List.count_append, count_replicate_eq] at counts
      simp [Directive.fillOf] at counts
      omega
    · intro full
      have none : directive.fieldWidth - 1 = 0 := by
        have := full side
        omega
      have fill : directive.fillOf [] ['0'] = 0 := none
      rw [none, fill, layout_no_fill]
      rfl
  · rw [if_neg (by simp [side]), layout_no_fill]
    exact iff_of_true rfl fun left => absurd left side

/-- When a hexadecimal or octal number is written as prescribed. -/
theorem scratched_iff
    (short : (conversion.sign directive.flags num ++ conversion.body directive.flags
      (directive.precisionOf.getD 1) num).length < kBufferSize)
    (fits : (unsignedText directive conversion num).length ≤ kIntMax) :
    scratched (convertUnsigned conversion.format spec num) =
        some (unsignedText directive conversion num) ↔
      UnsignedCondition directive conversion num := by
  unfold UnsignedCondition
  by_cases given : 0 ≤ directive.rawPrecision
  · rw [precisionOf_of_nonneg given] at short
    rw [scratched_precision sized other given short]
    constructor
    · intro nonzero
      exact ⟨nonzero, fun missing => by omega, fun missing => by omega⟩
    · exact fun holds => holds.1
  · have missing : directive.rawPrecision < 0 := by omega
    rw [precisionOf_of_neg missing] at short
    cases first : zeroFirst directive.flags with
    | false =>
      rw [scratched_plain sized other missing short fits first]
      constructor
      · intro range
        exact ⟨fun none => by omega, fun _ flag => by simp at flag, fun _ _ => range⟩
      · exact fun holds => holds.2.2 missing rfl
    | true =>
      by_cases zero : num = 0
      · subst zero
        rw [Nat.cast_zero, scratched_zero sized other missing first, sign_zero other,
          body_one_zero]
        constructor
        · intro left
          exact ⟨fun none => by omega, fun _ _ => ⟨left, fun none => absurd rfl none⟩,
            fun _ flag => by simp at flag⟩
        · exact fun holds => (holds.2.1 missing rfl).1
      · rw [scratched_width sized other missing short fits first zero]
        constructor
        · intro ⟨left, room, range⟩
          exact ⟨fun none => by omega, fun _ _ => ⟨left, fun _ => ⟨room, range⟩⟩,
            fun _ flag => by simp at flag⟩
        · intro holds
          obtain ⟨left, rest⟩ := holds.2.1 missing rfl
          exact ⟨left, rest (by omega)⟩

end AlkOS.Libc
