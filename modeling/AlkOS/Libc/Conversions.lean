import AlkOS.Libc.Numbers

/-!
# Conversions

The text that `vsnprintf` writes for a directive is the prescribed one exactly under a
condition on the directive and its argument. Other texts are told apart by their
lengths, by how often a character occurs in them, or by their first characters.
-/

namespace AlkOS.Libc

open Kernel

variable {converted : Converted} {directive : Directive} {modifier : LengthModifier} {spec : Spec}
  {sign body data : List Char} {fill zeros : ℕ} {q v : ℤ} {zerosFlag : Bool}
  {conversion : IntegerConversion} {c : Char}

variable (before : Bool)

/-- Spaces on one side of a sign, zeros and characters. -/
def layout (fill : ℕ) (sign : List Char) (zeros : ℕ) (data : List Char) :
    List Char :=
  (if before then List.replicate fill ' ' else []) ++ sign ++ List.replicate zeros '0' ++ data ++
    if before then [] else List.replicate fill ' '

theorem count_replicate_eq (n : ℕ) (c c' : Char) :
    (List.replicate n c).count c' = if c' = c then n else 0 := by
  rw [List.count_replicate]
  by_cases same : c' = c
  · simp [same]
  · simp [same, Ne.symm same]

theorem count_layout (c : Char) : (layout before fill sign zeros data).count c =
    (if c = ' ' then fill else 0) + sign.count c + (if c = '0' then zeros else 0) +
      data.count c := by
  cases before with
  | true =>
    simp only [layout, ↓reduceIte, List.count_append, count_replicate_eq, List.append_nil]
  | false =>
    simp only [layout, Bool.false_eq_true, ↓reduceIte, List.count_append, count_replicate_eq,
      List.nil_append]
    omega

theorem length_layout : (layout before fill sign zeros data).length =
    fill + sign.length + zeros + data.length := by
  cases before with
  | true => simp [layout]; omega
  | false => simp [layout]; omega

/-- The precision that the padding starts from. -/
def Converted.start (converted : Converted) : ℤ :=
  if converted.spec.precision < 0 ∧ converted.spec.zeroPadding = true then converted.spec.width
  else converted.spec.precision

/-- The number of zeros that the padding adds. -/
def Converted.zeroCount (converted : Converted) : ℤ :=
  toInt32 (converted.start - converted.data.length)

/-- The number of spaces that the padding adds. -/
def Converted.spaceCount (converted : Converted) : ℤ :=
  if 0 < converted.zeroCount then
    toInt32 (toInt32 (converted.spec.width - converted.data.length) - converted.zeroCount)
  else toInt32 (converted.spec.width - converted.data.length)

theorem padded_eq_layout (converted : Converted) : padded converted =
    layout (!converted.spec.reversePadding && !converted.spec.zeroPadding)
      converted.spaceCount.toNat
      converted.prefixChar.toList converted.zeroCount.toNat converted.data := rfl

/-- The padding in the range of `int`. -/
theorem padded_of_range (start : converted.start = q)
    (lowWidth : -2 ^ 31 ≤ converted.spec.width - converted.data.length)
    (highWidth : converted.spec.width < 2 ^ 31)
    (low : -2 ^ 31 ≤ q - converted.data.length) (high : q < 2 ^ 31)
    (room : 0 < q - converted.data.length → -2 ^ 31 ≤ converted.spec.width - q) :
    padded converted =
      layout (!converted.spec.reversePadding && !converted.spec.zeroPadding)
        (converted.spec.width - converted.data.length -
          (q - converted.data.length).toNat).toNat
        converted.prefixChar.toList (q - converted.data.length).toNat converted.data := by
  have zeros : converted.zeroCount = q - converted.data.length := by
    rw [Converted.zeroCount, start, toInt32_of_range low (by omega)]
  have width := toInt32_of_range lowWidth (by omega)
  have fill : converted.spaceCount.toNat = (converted.spec.width - converted.data.length -
      (q - converted.data.length).toNat).toNat := by
    rw [Converted.spaceCount]
    split
    · rw [toInt32_of_range (by omega) (by omega)]
      omega
    · omega
  rw [padded_eq_layout, zeros, fill]

/-- A text that can be counted has no difference that wraps around. -/
theorem range_of_padded (start : converted.start = q) (low : -2 ^ 31 ≤ q)
    (small : converted.data.length < 2 ^ 31) (fits : (padded converted).length ≤ kIntMax) :
    -2 ^ 31 ≤ q - converted.data.length := by
  by_contra wraps
  have zeros : converted.zeroCount = q - converted.data.length + 2 ^ 32 := by
    rw [Converted.zeroCount, toInt32, Int.bmod]
    split <;> omega
  rw [padded_eq_layout, length_layout, kIntMax] at fits
  omega

/-- The fill of a field. -/
def Directive.fillOf (directive : Directive) (sign body : List Char) : ℕ :=
  directive.fieldWidth - (sign.length + body.length)

theorem pad_eq_layout (directive : Directive) (zerosFlag : Bool) (sign body : List Char) :
    directive.pad zerosFlag sign body =
      if directive.isLeft = true ∨ zerosFlag = false then
        layout (!directive.isLeft) (directive.fillOf sign body) sign 0 body
      else layout true 0 sign (directive.fillOf sign body) body := by
  unfold Directive.pad layout Directive.fillOf
  cases directive.isLeft <;> cases zerosFlag <;> simp

theorem length_pad (directive : Directive) (zerosFlag : Bool) (sign body : List Char) :
    (directive.pad zerosFlag sign body).length =
      max directive.fieldWidth (sign.length + body.length) := by
  rw [pad_eq_layout]
  split
  · rw [length_layout, Directive.fillOf]
    omega
  · rw [length_layout, Directive.fillOf]
    omega

/-- Padding adds spaces and zeros only. -/
theorem count_pad (notSpace : c ≠ ' ') (notZero : c ≠ '0') :
    (directive.pad zerosFlag sign body).count c = sign.count c + body.count c := by
  rw [pad_eq_layout]
  split
  · rw [count_layout, if_neg notSpace, if_neg notZero]
    omega
  · rw [count_layout, if_neg notSpace, if_neg notZero]
    omega

/-- A directive whose text can be counted, with numbers of type `int`. -/
structure Sized (directive : Directive) (modifier : LengthModifier) (spec : Spec) : Prop where
  reads : Reads directive modifier spec
  width : directive.fieldWidth ≤ kIntMax
  low : -2 ^ 31 ≤ directive.rawPrecision
  high : directive.rawPrecision ≤ kIntMax

theorem layout_zeros : layout before fill sign zeros data =
    layout before fill sign 0 (List.replicate zeros '0' ++ data) := by
  simp [layout]

theorem layout_no_fill : layout before 0 sign zeros data =
    sign ++ List.replicate zeros '0' ++ data := by
  cases before <;> simp [layout]

/-- Without a `-` flag every `0` flag counts. -/
theorem zeroFirst_of_not_minus {flags : List Flag} (none : Flag.minus ∉ flags) :
    zeroFirst flags = decide (Flag.zero ∈ flags) := by
  unfold zeroFirst
  rw [List.takeWhile_eq_self_iff.mpr]
  intro flag member
  rw [decide_eq_true_eq]
  intro same
  exact none (same ▸ member)

theorem zero_mem_of_zeroFirst {flags : List Flag} (first : zeroFirst flags = true) :
    Flag.zero ∈ flags :=
  (List.takeWhile_sublist _).subset (of_decide_eq_true first)

theorem not_minus_of_not_isLeft (right : directive.isLeft = false) :
    Flag.minus ∉ directive.flags := by
  intro member
  simp [Directive.isLeft, member] at right

section

variable (sized : Sized directive modifier spec)
include sized

/-- The difference of a width and a length. -/
theorem Sized.toNat_width (n : ℕ) : (spec.width - n).toNat = directive.fieldWidth - n := by
  rcases sized.reads.width with same | ⟨none, low, high⟩ <;> omega

theorem Sized.width_low : -1 ≤ spec.width := by
  rcases sized.reads.width with same | ⟨none, low, high⟩ <;> omega

theorem Sized.width_high : spec.width < 2 ^ 31 := by
  have bound := sized.width
  rw [kIntMax] at bound
  rcases sized.reads.width with same | ⟨none, low, high⟩ <;> omega

end

/-- What `d`, `i` and `u` leave for the output. -/
def decimalOf (spec : Spec) (prefixChar : Option Char) (data : List Char) : Converted :=
  { spec := { spec with
      width := if prefixChar.isSome then spec.width - 1 else spec.width
      zeroPadding := if spec.precision ≠ -1 then false else spec.zeroPadding }
    prefixChar := prefixChar
    data := data }

section Decimal

variable {prefixChar : Option Char}

theorem width_decimalOf : (decimalOf spec prefixChar data).spec.width =
    spec.width - prefixChar.toList.length := by
  cases prefixChar <;> simp [decimalOf]

/-- With a `0` flag and no precision, zeros up to the width. -/
theorem padded_decimal_zero (sized : Sized directive modifier spec)
    (first : zeroFirst directive.flags = true) (missing : directive.rawPrecision = -1)
    (short : data.length ≤ 64) :
    padded (decimalOf spec prefixChar data) =
      prefixChar.toList ++ List.replicate (directive.fillOf prefixChar.toList data)
        '0' ++ data := by
  have zero : (decimalOf spec prefixChar data).spec.zeroPadding = true := by
    simp [decimalOf, sized.reads.precision, missing, sized.reads.zero, first]
  have start : (decimalOf spec prefixChar data).start = spec.width - prefixChar.toList.length := by
    rw [Converted.start, if_pos, width_decimalOf]
    refine ⟨?_, zero⟩
    change spec.precision < 0
    rw [sized.reads.precision, missing]
    decide
  have one : prefixChar.toList.length ≤ 1 := by cases prefixChar <;> simp
  have low := sized.width_low
  have high := sized.width_high
  have count := sized.toNat_width (prefixChar.toList.length + data.length)
  have here : (decimalOf spec prefixChar data).data = data := rfl
  rw [padded_of_range start, width_decimalOf, here]
  · have none : (spec.width - prefixChar.toList.length - data.length -
        (spec.width - prefixChar.toList.length - data.length).toNat : ℤ).toNat = 0 := by omega
    rw [none, layout_no_fill, Directive.fillOf]
    congr 3
    omega
  all_goals
    try rw [width_decimalOf]
    try rw [here]
    omega

/-- The padding otherwise. -/
theorem padded_decimal_plain (sized : Sized directive modifier spec)
    (other : ¬ (zeroFirst directive.flags = true ∧ directive.rawPrecision = -1))
    (short : data.length ≤ 64) (range : -2 ^ 31 ≤ directive.rawPrecision - data.length)
    (room : prefixChar.toList.length + directive.rawPrecision ≤ kIntMax ∨
      0 < directive.fieldWidth) :
    padded (decimalOf spec prefixChar data) =
      layout (!directive.isLeft) (directive.fillOf prefixChar.toList
          (List.replicate (directive.rawPrecision - data.length).toNat '0' ++ data))
        prefixChar.toList (directive.rawPrecision - data.length).toNat data := by
  have zero : (decimalOf spec prefixChar data).spec.zeroPadding = false := by
    simp only [decimalOf, sized.reads.precision, sized.reads.zero]
    by_cases missing : directive.rawPrecision = -1
    · simpa [missing] using other
    · simp [missing]
  have start : (decimalOf spec prefixChar data).start = directive.rawPrecision := by
    rw [Converted.start, if_neg (by simp [zero])]
    exact sized.reads.precision
  have one : prefixChar.toList.length ≤ 1 := by cases prefixChar <;> simp
  have low := sized.width_low
  have high := sized.width_high
  have top := sized.high
  rw [kIntMax] at top room
  have count := sized.toNat_width (prefixChar.toList.length +
    ((directive.rawPrecision - data.length).toNat + data.length))
  have here : (decimalOf spec prefixChar data).data = data := rfl
  have side : (decimalOf spec prefixChar data).spec.reversePadding = directive.isLeft :=
    sized.reads.reverse
  rw [padded_of_range start, zero, side, width_decimalOf, here]
  · rw [Bool.not_false, Bool.and_true, Directive.fillOf, List.length_append,
      List.length_replicate]
    congr 1
    omega
  · rw [width_decimalOf, here]
    omega
  · rw [width_decimalOf]
    omega
  · exact range
  · omega
  · rw [width_decimalOf]
    rcases room with room | wide
    · omega
    · rcases sized.reads.width with same | ⟨none, _, _⟩ <;> omega

/-- Zero with a precision of 0 is written as `0`; the `0` flag holds although a `-` flag follows,
and is lost with a negative precision other than -1. -/
def DecimalCondition (directive : Directive) (sign : List Char) (v : ℤ) (digits : ℕ) : Prop :=
  (directive.rawPrecision = 0 → v ≠ 0) ∧
  (directive.rawPrecision = -1 → zeroFirst directive.flags = true → directive.isLeft = true →
    directive.fieldWidth ≤ sign.length + digits) ∧
  (directive.rawPrecision < -1 → Flag.zero ∈ directive.flags → directive.isLeft = false →
    directive.fieldWidth ≤ sign.length + digits) ∧
  (directive.rawPrecision < 0 → -2 ^ 31 ≤ directive.rawPrecision - digits)

/-- The text of a decimal number. -/
def decimalText (directive : Directive) (sign : List Char) (conversion : IntegerConversion)
    (v : ℤ) : List Char :=
  directive.pad (decide (Flag.zero ∈ directive.flags) && directive.precisionOf.isNone) sign
    (conversion.digits (directive.precisionOf.getD 1) v)

theorem precisionOf_of_nonneg (given : 0 ≤ directive.rawPrecision) :
    directive.precisionOf = some directive.rawPrecision.toNat := if_pos given

theorem precisionOf_of_neg (missing : directive.rawPrecision < 0) :
    directive.precisionOf = none := if_neg (by omega)

theorem decimalText_of_nonneg (given : 0 ≤ directive.rawPrecision) :
    decimalText directive sign conversion v =
      directive.pad false sign (conversion.digits directive.rawPrecision.toNat v) := by
  rw [decimalText, precisionOf_of_nonneg given, Option.isNone_some, Bool.and_false]
  rfl

theorem decimalText_of_neg (missing : directive.rawPrecision < 0) :
    decimalText directive sign conversion v =
      directive.pad (decide (Flag.zero ∈ directive.flags)) sign (conversion.plain v) := by
  rw [decimalText, precisionOf_of_neg missing, Option.isNone_none, Bool.and_true]
  rfl

/-- Zeros are padded unless there is a precision. -/
theorem zeros_eq_false :
    (decide (Flag.zero ∈ directive.flags) && directive.precisionOf.isNone) = false ↔
      ¬ (Flag.zero ∈ directive.flags ∧ directive.rawPrecision < 0) := by
  unfold Directive.precisionOf
  split_ifs with given
  · simp [given]
  · simp [not_le.mp given]

/-- The digits behind the zeros that the precision asks for. -/
theorem digits_precision (nonzero : directive.rawPrecision = 0 → v ≠ 0) :
    conversion.digits (directive.precisionOf.getD 1) v =
      List.replicate (directive.rawPrecision - (conversion.plain v).length).toNat '0' ++
        conversion.plain v := by
  by_cases given : 0 ≤ directive.rawPrecision
  · rw [precisionOf_of_nonneg given, Option.getD_some, digits_eq_plain (by omega)]
    congr 2
    omega
  · have none : (directive.rawPrecision - (conversion.plain v).length).toNat = 0 := by omega
    rw [precisionOf_of_neg (by omega), none]
    rfl

/-- Under the condition the text is the prescribed one. -/
theorem padded_decimal_of_condition (sized : Sized directive modifier spec)
    (mark : prefixChar.toList = sign) (short : (conversion.plain v).length ≤ 64)
    (fits : (decimalText directive sign conversion v).length ≤ kIntMax)
    (condition : DecimalCondition directive sign v (conversion.plain v).length) :
    padded (decimalOf spec prefixChar (conversion.plain v)) =
      decimalText directive sign conversion v := by
  obtain ⟨nonzero, left, right, range⟩ := condition
  have body : conversion.digits (directive.precisionOf.getD 1) v = _ := digits_precision nonzero
  rw [decimalText, length_pad, body, List.length_append, List.length_replicate] at fits
  by_cases zero : zeroFirst directive.flags = true ∧ directive.rawPrecision = -1
  · have flag := zero_mem_of_zeroFirst zero.1
    rw [decimalText_of_neg (by omega), pad_eq_layout, padded_decimal_zero sized zero.1 zero.2 short,
      mark]
    by_cases side : directive.isLeft = true
    · have full : directive.fillOf sign (conversion.plain v) = 0 :=
        Nat.sub_eq_zero_of_le (left zero.2 zero.1 side)
      rw [if_pos (.inl side), full, layout_no_fill]
    · rw [if_neg (by simp [side, flag]), layout_no_fill]
  · rw [padded_decimal_plain sized zero short (by omega) (.inl (by rw [mark]; omega)),
      layout_zeros, mark, ← body, decimalText, pad_eq_layout]
    split_ifs with side
    · rfl
    · -- The `0` flag would count, but the field is full already.
      rw [not_or, zeros_eq_false, not_not, Bool.not_eq_true] at side
      have first := zeroFirst_of_not_minus (not_minus_of_not_isLeft side.1)
      rw [decide_eq_true side.2.1] at first
      have other : directive.rawPrecision ≠ -1 := fun same => zero ⟨first, same⟩
      have wide := right (by omega) side.2.1 side.1
      have full : directive.fillOf sign
          (conversion.digits (directive.precisionOf.getD 1) v) = 0 := by
        rw [body, Directive.fillOf, List.length_append]
        omega
      rw [full, layout_no_fill, layout_no_fill]

/-- A text that can be counted has no difference that wraps around. -/
theorem range_of_padded_decimal (sized : Sized directive modifier spec) (short : data.length ≤ 64)
    (fits : (padded (decimalOf spec prefixChar data)).length ≤ kIntMax) :
    -2 ^ 31 ≤ directive.rawPrecision - data.length := by
  by_cases one : directive.rawPrecision = -1
  · omega
  · have start : (decimalOf spec prefixChar data).start = directive.rawPrecision := by
      rw [Converted.start, if_neg]
      · exact sized.reads.precision
      · simp [decimalOf, sized.reads.precision, one]
    exact range_of_padded start sized.low (lt_of_le_of_lt short (by decide)) fits

/-- Zero is written as a digit. -/
theorem nonzero_of_padded_decimal (unsigned : sign.count '0' = 0)
    (same : padded (decimalOf spec prefixChar (conversion.plain v)) =
      decimalText directive sign conversion v) (given : directive.rawPrecision = 0) : v ≠ 0 := by
  intro zero
  subst zero
  have counts := congrArg (List.count '0') same
  rw [padded_eq_layout, count_layout, decimalText_of_nonneg (by omega), given, digits_zero,
    pad_eq_layout, if_pos (Or.inr rfl), count_layout, unsigned] at counts
  have one : (decimalOf spec prefixChar (conversion.plain 0)).data.count '0' = 1 := by
    rw [plain_zero]
    rfl
  rw [one] at counts
  simp at counts

section

variable (sized : Sized directive modifier spec) (mark : prefixChar.toList = sign)
  (unsigned : sign.count '0' = 0) (short : (conversion.plain v).length ≤ 64)
  (fits : (decimalText directive sign conversion v).length ≤ kIntMax)
include sized mark unsigned short fits

/-- The condition is necessary. -/
theorem condition_of_padded_decimal
    (same : padded (decimalOf spec prefixChar (conversion.plain v)) =
      decimalText directive sign conversion v) :
    DecimalCondition directive sign v (conversion.plain v).length := by
  have range := range_of_padded_decimal sized short (by rw [same]; exact fits)
  refine ⟨nonzero_of_padded_decimal unsigned same, ?_, ?_, fun _ => range⟩
  · intro missing first side
    have counts := congrArg (List.count ' ') same
    rw [padded_decimal_zero sized first missing short, decimalText_of_neg (by omega),
      pad_eq_layout, if_pos (Or.inl side), count_layout, List.count_append, List.count_append,
      count_replicate_eq, mark] at counts
    simp only [Char.reduceEq, ↓reduceIte, Directive.fillOf] at counts
    omega
  · intro missing flag side
    have counts := congrArg (List.count '0') same
    have none : (directive.rawPrecision - (conversion.plain v).length).toNat = 0 := by omega
    rw [padded_decimal_plain sized (by omega) short range
        (.inl (by
          have one : prefixChar.toList.length ≤ 1 := by cases prefixChar <;> simp
          omega)), none, decimalText_of_neg (by omega), pad_eq_layout,
      if_neg (by simp [side, flag]), count_layout, count_layout, mark] at counts
    simp only [Char.reduceEq, ↓reduceIte, Directive.fillOf] at counts
    omega

theorem padded_decimal_iff :
    padded (decimalOf spec prefixChar (conversion.plain v)) =
      decimalText directive sign conversion v ↔
        DecimalCondition directive sign v (conversion.plain v).length :=
  ⟨condition_of_padded_decimal sized mark unsigned short fits,
    padded_decimal_of_condition sized mark short fits⟩

end

theorem head_padded_space (converted : Converted) (mark : converted.prefixChar = some ' ') :
    (padded converted).head? = some ' ' := by
  rw [padded_eq_layout, mark]
  cases !converted.spec.reversePadding && !converted.spec.zeroPadding with
  | false => rfl
  | true =>
    cases converted.spaceCount.toNat with
    | zero => rfl
    | succ n => rfl

/-- The `+` of an unsigned number is not prescribed. -/
theorem padded_decimal_plus_ne :
    padded (decimalOf spec (some '+') (conversion.plain v)) ≠
      decimalText directive [] conversion v := by
  intro same
  have counts := congrArg (List.count '+') same
  have none : ∀ p, (conversion.digits p v).count '+' = 0 := fun p =>
    List.count_eq_zero.mpr fun member => (mem_digits member).2 rfl
  rw [padded_eq_layout, count_layout, decimalText, count_pad (by decide) (by decide),
    none] at counts
  simp [decimalOf] at counts

/-- A field starts with a space if spaces are padded in front. -/
theorem of_head_pad {first : Char} {rest : List Char} (digit : first ≠ ' ')
    (head : (directive.pad zerosFlag [] (first :: rest)).head? = some ' ') :
    directive.isLeft = false ∧ zerosFlag = false ∧
      (first :: rest).length < directive.fieldWidth := by
  rw [pad_eq_layout] at head
  cases side : directive.isLeft with
  | true =>
    rw [side] at head
    exact absurd (Option.some.inj head) digit
  | false =>
    cases fill : directive.fillOf [] (first :: rest) with
    | zero =>
      rw [fill, layout_no_fill, layout_no_fill, ite_self] at head
      exact absurd (Option.some.inj head) digit
    | succ n =>
      cases zerosFlag with
      | true =>
        rw [side, fill] at head
        exact absurd (Option.some.inj head) (by decide)
      | false =>
        rw [Directive.fillOf] at fill
        exact ⟨rfl, rfl, by omega⟩

/-- The space of an unsigned number takes the place of one of the padding in front. -/
theorem padded_decimal_space_iff (sized : Sized directive modifier spec)
    (short : (conversion.plain v).length ≤ 64)
    (fits : (decimalText directive [] conversion v).length ≤ kIntMax) :
    padded (decimalOf spec (some ' ') (conversion.plain v)) =
      decimalText directive [] conversion v ↔
        DecimalCondition directive [] v (conversion.plain v).length ∧
        directive.isLeft = false ∧
        ¬ (Flag.zero ∈ directive.flags ∧ directive.rawPrecision < 0) ∧
        (conversion.digits (directive.precisionOf.getD 1) v).length < directive.fieldWidth := by
  constructor
  · intro same
    have range := range_of_padded_decimal sized short (by rw [same]; exact fits)
    have nonzero := nonzero_of_padded_decimal rfl same
    have head := head_padded_space (decimalOf spec (some ' ') (conversion.plain v)) rfl
    obtain ⟨first, rest, body⟩ : ∃ first rest,
        conversion.digits (directive.precisionOf.getD 1) v = first :: rest := by
      refine List.exists_cons_of_ne_nil ?_
      rw [digits_precision nonzero]
      exact List.append_ne_nil_of_right_ne_nil _ (List.length_pos_iff.mp length_plain_pos)
    have digit : first ≠ ' ' := by
      have member : first ∈ conversion.digits (directive.precisionOf.getD 1) v := by simp [body]
      exact (mem_digits member).1
    rw [same, decimalText, body] at head
    obtain ⟨side, flag, wide⟩ := of_head_pad digit head
    have zeros := zeros_eq_false.mp flag
    refine ⟨⟨nonzero, fun _ _ left => ?_, fun missing member _ => ?_, fun _ => range⟩, side, zeros,
      body ▸ wide⟩
    · simp [side] at left
    · exact absurd ⟨member, by omega⟩ zeros
  · intro ⟨⟨nonzero, _, _, range⟩, right, zeros, wide⟩
    have other : ¬ (zeroFirst directive.flags = true ∧ directive.rawPrecision = -1) := by
      intro ⟨first, missing⟩
      exact zeros ⟨zero_mem_of_zeroFirst first, by omega⟩
    have body : conversion.digits (directive.precisionOf.getD 1) v = _ := digits_precision nonzero
    have fill : directive.fillOf [] (conversion.digits (directive.precisionOf.getD 1) v) =
        directive.fillOf [' '] (conversion.digits (directive.precisionOf.getD 1) v) + 1 := by
      simp only [Directive.fillOf, List.length_nil, List.length_singleton]
      omega
    rw [padded_decimal_plain sized other short (by omega) (.inr (by omega)), decimalText,
      zeros_eq_false.mpr zeros, pad_eq_layout, fill, right, layout_zeros,
      ← body]
    simp [layout, List.replicate_succ']

end Decimal

end AlkOS.Libc
