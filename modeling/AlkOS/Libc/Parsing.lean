import AlkOS.Libc.FormatText

/-!
# Parsing of directives

The loop of `vsnprintf` over a directive arrives at the conversion with the local
variables that the flags, the width, the precision and the modifier determine. A `0`
that is not taken as a flag begins a width, which the width proper replaces.
-/

namespace AlkOS.Libc

open Kernel

variable {size fuel : ℕ} {iter rest : List Char} {spec : Spec} {s : Printf} {c : Char}
  {va : List Arg}

theorem length_getDecimal (i : ℕ) (iter : List Char) :
    (getDecimal i iter).2.length ≤ iter.length := by
  induction iter generalizing i with
  | nil => exact le_rfl
  | cons c rest ih =>
    unfold getDecimal
    split
    · exact (ih _).trans (Nat.le_succ _)
    · exact le_rfl

theorem length_getDecimal_lt (rest : List Char) (digit : c.isDigit = true) :
    (getDecimal 0 (c :: rest)).2.length < (c :: rest).length := by
  rw [getDecimal, if_pos digit]
  exact Nat.lt_succ_of_le (length_getDecimal _ rest)

/-- Every character that is read takes one unit. -/
theorem directive_eq {fuel' : ℕ} (enough : iter.length < fuel) (enough' : iter.length < fuel') :
    directive size fuel iter spec = directive size fuel' iter spec := by
  induction fuel generalizing fuel' iter spec with
  | zero => omega
  | succ fuel ih =>
    obtain ⟨fuel', rfl⟩ : ∃ n, fuel' = n + 1 := ⟨fuel' - 1, by omega⟩
    cases iter with
    | nil => rfl
    | cons c rest =>
      rw [List.length_cons] at enough enough'
      have next : ∀ spec, directive size fuel rest spec = directive size fuel' rest spec :=
        fun spec => ih (by omega) (by omega)
      have number : c.isDigit = true → ∀ spec,
          directive size fuel (getDecimal 0 (c :: rest)).2 spec =
            directive size fuel' (getDecimal 0 (c :: rest)).2 spec := by
        intro digit spec
        have shorter := length_getDecimal_lt rest digit
        rw [List.length_cons] at shorter
        exact ih (by omega) (by omega)
      unfold directive
      by_cases digit : c.isDigit = true
      · simp only [next, number digit]
      · simp only [next, digit, Bool.false_eq_true, ↓reduceIte]

/-- A directive with enough fuel. -/
def parse (size : ℕ) (iter : List Char) (spec : Spec) : Kernel Printf (Option (List Char)) :=
  directive size (iter.length + 1) iter spec

theorem parse_dot : parse size ('.' :: rest) spec =
    parse size rest { spec with precision := 0 } := rfl

theorem parse_zero (flag : spec.takesZero = true) : parse size ('0' :: rest) spec =
    parse size rest { spec with zeroPadding := true } := by
  unfold parse
  rw [directive]
  simp [flag]

theorem parse_star : parse size ('*' :: rest) spec =
    vaInt >>= fun value => parse size rest (spec.withStar value) := rfl

/-- A number that is not a flag. -/
theorem parse_digit (digit : c.isDigit = true) (number : ¬ (c = '0' ∧ spec.takesZero = true))
    (fits : (getDecimal 0 (c :: rest)).1 ≤ kIntMax) :
    parse size (c :: rest) spec = parse size (getDecimal 0 (c :: rest)).2
      (spec.withNumber (getDecimal 0 (c :: rest)).1) := by
  have minus : c ≠ '-' := fun same => by simp [same] at digit
  have dot : c ≠ '.' := fun same => by simp [same] at digit
  have shorter := length_getDecimal_lt rest digit
  unfold parse
  rw [directive, if_neg minus, if_neg dot, if_neg number, if_pos digit, if_pos fits]
  exact directive_eq (by rwa [List.length_cons] at shorter) (Nat.lt_succ_self _)

/-- What follows a number. -/
def EndsNumber (iter : List Char) : Prop := ∀ c, iter.head? = some c → c.isDigit = false

theorem getDecimal_of_end (i : ℕ) (stop : EndsNumber iter) : getDecimal i iter = (i, iter) := by
  cases iter with
  | nil => rfl
  | cons c rest => rw [getDecimal, stop c rfl, if_neg (by decide)]

variable (digit : Fin 10)

theorem isDigit_digitOf : (digitOf digit).isDigit = true := by
  revert digit
  decide

theorem toNat_digitOf : (digitOf digit).toNat - 48 = digit.val := by
  revert digit
  decide

theorem digitOf_eq_zero_iff : digitOf digit = '0' ↔ digit = 0 := by
  revert digit
  decide

theorem getDecimal_digits (i : ℕ) (ds : List (Fin 10)) (stop : EndsNumber iter) :
    getDecimal i (ds.map digitOf ++ iter) =
      (ds.foldl (fun value digit => value * 10 + digit.val) i, iter) := by
  induction ds generalizing i with
  | nil => exact getDecimal_of_end i stop
  | cons digit ds ih =>
    rw [List.map_cons, List.cons_append, getDecimal, if_pos (isDigit_digitOf digit),
      toNat_digitOf, ih]
    rfl

/-- A `0` before a width is read with it. -/
theorem parse_zero_number (number : spec.takesZero = false) (missing : spec.precision < 0)
    (fits : (getDecimal 0 rest).1 ≤ kIntMax) :
    parse size ('0' :: rest) spec = parse size rest { spec with width := 0 } := by
  have same : getDecimal 0 ('0' :: rest) = getDecimal 0 rest := rfl
  have set : ∀ (spec : Spec) value, spec.precision < 0 →
      spec.withNumber value = { spec with width := value } := by
    intro spec value missing
    rw [Spec.withNumber, if_neg (by omega)]
  rw [parse_digit rfl (by simp [number]) (by rwa [same]), same, set spec _ missing]
  cases rest with
  | nil => rfl
  | cons c rest =>
    by_cases digit : c.isDigit = true
    · have again : ¬ (c = '0' ∧ Spec.takesZero { spec with width := 0 } = true) := by
        simp [Spec.takesZero]
      rw [parse_digit digit again fits, set { spec with width := 0 } _ missing]
    · rw [getDecimal_of_end 0 (by intro c' here; rw [← Option.some.inj here]; simpa using digit)]
      rfl

/-- The local variables after a flag. -/
def Spec.withFlag (spec : Spec) : Flag → Spec
  | .minus => { spec with reversePadding := true }
  | .plus => { spec with isPlus := true }
  | .space => { spec with isSpace := true }
  | .hash => { spec with isHash := true }
  | .zero => if spec.takesZero then { spec with zeroPadding := true } else { spec with width := 0 }

variable (flags : List Flag)

/-- A `0` flag that no `-` flag precedes. -/
def zeroFirst : Bool :=
  decide (Flag.zero ∈ flags.takeWhile fun flag => decide (flag ≠ Flag.minus))

/-- What flags leave unchanged, and what they set. -/
structure Flagged (spec after : Spec) : Prop where
  precision : after.precision = spec.precision
  modifier : after.lengthModifier = spec.lengthModifier
  width : after.width = spec.width ∨ after.width = 0
  reverse : after.reversePadding = (spec.reversePadding || decide (Flag.minus ∈ flags))
  plus : after.isPlus = (spec.isPlus || decide (Flag.plus ∈ flags))
  space : after.isSpace = (spec.isSpace || decide (Flag.space ∈ flags))
  hash : after.isHash = (spec.isHash || decide (Flag.hash ∈ flags))

/-- A flag sets its own variable. -/
theorem flagged_withFlag (spec : Spec) (flag : Flag) :
    Flagged [flag] spec (spec.withFlag flag) := by
  cases flag with
  | zero =>
    by_cases taken : spec.takesZero = true
    · simp only [Spec.withFlag, taken]
      exact ⟨rfl, rfl, .inl rfl, by simp, by simp, by simp, by simp⟩
    · simp only [Spec.withFlag, taken]
      exact ⟨rfl, rfl, .inr rfl, by simp, by simp, by simp, by simp⟩
  | _ => exact ⟨rfl, rfl, .inl rfl, by simp [Spec.withFlag], by simp [Spec.withFlag],
      by simp [Spec.withFlag], by simp [Spec.withFlag]⟩

/-- Flags are recorded and nothing else changes. -/
theorem flagged_foldl (spec : Spec) :
    Flagged flags spec (flags.foldl Spec.withFlag spec) := by
  induction flags generalizing spec with
  | nil => exact ⟨rfl, rfl, .inl rfl, by simp, by simp, by simp, by simp⟩
  | cons flag flags ih =>
    have first := flagged_withFlag spec flag
    have rest := ih (spec.withFlag flag)
    rw [List.foldl_cons]
    refine ⟨rest.precision.trans first.precision, rest.modifier.trans first.modifier, ?_, ?_, ?_,
      ?_, ?_⟩
    · rcases rest.width with same | zero
      · rw [same]
        exact first.width
      · exact .inr zero
    · rw [rest.reverse, first.reverse]
      simp [Bool.or_assoc]
    · rw [rest.plus, first.plus]
      simp [Bool.or_assoc]
    · rw [rest.space, first.space]
      simp [Bool.or_assoc]
    · rw [rest.hash, first.hash]
      simp [Bool.or_assoc]

/-- The `0` flag is kept once it is set, and not set after a `-` flag. -/
theorem zeroPadding_of_set (set : spec.takesZero = false) :
    (flags.foldl Spec.withFlag spec).zeroPadding = spec.zeroPadding ∧
      (flags.foldl Spec.withFlag spec).takesZero = false := by
  induction flags generalizing spec with
  | nil => exact ⟨rfl, set⟩
  | cons flag flags ih =>
    have kept : (spec.withFlag flag).zeroPadding = spec.zeroPadding ∧
        (spec.withFlag flag).takesZero = false := by
      cases flag with
      | zero =>
        rw [Spec.withFlag, if_neg (by simp [set])]
        simp [Spec.takesZero]
      | minus => simp [Spec.withFlag, Spec.takesZero]
      | _ => exact ⟨rfl, set⟩
    obtain ⟨same, still⟩ := ih kept.2
    exact ⟨same.trans kept.1, still⟩

/-- The `0` flag counts up to the first `-` flag. -/
theorem zeroPadding_foldl (free : spec.takesZero = true) :
    (flags.foldl Spec.withFlag spec).zeroPadding = zeroFirst flags := by
  induction flags generalizing spec with
  | nil =>
    simp only [Spec.takesZero, Bool.and_eq_true, Bool.not_eq_true'] at free
    exact free.1.2
  | cons flag flags ih =>
    rw [List.foldl_cons]
    cases flag with
    | zero =>
      have set : Spec.takesZero { spec with zeroPadding := true } = false := by
        simp [Spec.takesZero]
      rw [Spec.withFlag, if_pos free, (zeroPadding_of_set flags set).1]
      simp [zeroFirst]
    | minus =>
      have set : Spec.takesZero { spec with reversePadding := true } = false := by
        simp [Spec.takesZero]
      rw [Spec.withFlag, (zeroPadding_of_set flags set).1]
      simp only [Spec.takesZero, Bool.and_eq_true, Bool.not_eq_true'] at free
      simp [zeroFirst, free.1.2]
    | plus =>
      rw [ih (by exact free)]
      simp [zeroFirst]
    | space =>
      rw [ih (by exact free)]
      simp [zeroFirst]
    | hash =>
      rw [ih (by exact free)]
      simp [zeroFirst]

theorem getDecimal_flags (fits : (getDecimal 0 iter).1 ≤ kIntMax) :
    (getDecimal 0 (flags.map Flag.render ++ iter)).1 ≤ kIntMax := by
  induction flags with
  | nil => exact fits
  | cons flag flags ih =>
    cases flag with
    | zero => exact ih
    | _ => exact Nat.zero_le _

/-- Flags are read in turn. -/
theorem parse_flags (missing : spec.precision < 0)
    (fits : (getDecimal 0 iter).1 ≤ kIntMax) :
    parse size (flags.map Flag.render ++ iter) spec =
      parse size iter (flags.foldl Spec.withFlag spec) := by
  induction flags generalizing spec with
  | nil => rfl
  | cons flag flags ih =>
    rw [List.foldl_cons, ← ih (by rwa [(flagged_withFlag spec flag).precision])]
    cases flag with
    | minus => rfl
    | plus => rfl
    | space => rfl
    | hash => rfl
    | zero =>
      unfold Spec.withFlag
      by_cases flag : spec.takesZero = true
      · rw [if_pos flag]
        exact parse_zero flag
      · rw [if_neg flag]
        exact parse_zero_number (by simpa using flag) missing (getDecimal_flags flags fits)

/-- The local variables after the width. -/
def Spec.withWidth (spec : Spec) : Option Number → Spec
  | none => spec
  | some (.digits ds) => { spec with width := ofDigits ds }
  | some (.star bits) => spec.withStar (Number.star bits).value

/-- The local variables after the precision. -/
def Spec.withPrecision (spec : Spec) : Option Number → Spec
  | none => spec
  | some number => { spec with precision := number.value }

/-- The local variables at the conversion. -/
def Directive.specOf (directive : Directive) (modifier : LengthModifier) : Spec :=
  { ((directive.flags.foldl Spec.withFlag {}).withWidth directive.width).withPrecision
      directive.precision with lengthModifier := modifier }

theorem run_vaInt {bits : BitVec 64} (here : s.va = .word bits :: va) :
    EStateM.run vaInt s = .ok (bits.setWidth 32).toInt { s with va := va } := by
  have word : EStateM.run vaWord s = .ok bits { s with va := va } := by
    unfold vaWord
    rw [run_get_bind, here]
    rfl
  unfold vaInt
  rw [run_bind word]
  rfl

/-- A width, followed by something other than a digit. -/
theorem run_parse_width (width : Option Number) (missing : spec.precision < 0)
    (proper : ∀ number, width = some number → number.Fits ∧ number.IsWidth)
    (stop : EndsNumber iter) (here : s.va = (width.map Number.args).getD [] ++ va) :
    (parse size ((width.map Number.render).getD [] ++ iter) spec).run s =
      (parse size iter (spec.withWidth width)).run { s with va := va } := by
  cases width with
  | none =>
    subst here
    rfl
  | some number =>
    obtain ⟨fits, isWidth⟩ := proper number rfl
    cases number with
    | star bits =>
      change (parse size ('*' :: iter) spec).run s = _
      rw [parse_star, run_bind (run_vaInt here)]
      rfl
    | digits ds =>
      subst here
      obtain ⟨digit, rest, rfl, nonzero⟩ := isWidth
      have read := getDecimal_digits 0 (digit :: rest) stop
      change (parse size (digitOf digit :: (rest.map digitOf ++ iter)) spec).run s = _
      rw [List.map_cons, List.cons_append] at read
      rw [parse_digit (isDigit_digitOf digit) (by simp [digitOf_eq_zero_iff, nonzero])
        (by rw [read]; exact fits), read, Spec.withNumber, if_neg (by omega)]
      rfl

/-- A precision, followed by something other than a digit. -/
theorem run_parse_precision (precision : Option Number)
    (proper : ∀ number, precision = some number → number.Fits)
    (stop : EndsNumber iter) (here : s.va = (precision.map Number.args).getD [] ++ va) :
    EStateM.run (parse size
        ((precision.map fun number => '.' :: number.render).getD [] ++ iter) spec) s =
      (parse size iter (spec.withPrecision precision)).run { s with va := va } := by
  cases precision with
  | none =>
    subst here
    rfl
  | some number =>
    have fits := proper number rfl
    cases number with
    | star bits =>
      change (parse size ('.' :: '*' :: iter) spec).run s = _
      rw [parse_dot, parse_star, run_bind (run_vaInt here)]
      rfl
    | digits ds =>
      subst here
      change (parse size ('.' :: (ds.map digitOf ++ iter)) spec).run s = _
      rw [parse_dot]
      cases ds with
      | nil => rfl
      | cons digit rest =>
        have read := getDecimal_digits 0 (digit :: rest) stop
        rw [List.map_cons, List.cons_append] at read ⊢
        rw [parse_digit (isDigit_digitOf digit) (by simp [Spec.takesZero])
          (by rw [read]; exact fits), read]
        rfl

theorem parse_modifier (modifier : LengthModifier) (unset : spec.lengthModifier = .none) :
    parse size (modifier.render ++ iter) spec =
      parse size iter { spec with lengthModifier := modifier } := by
  cases modifier with
  | none =>
    have same : { spec with lengthModifier := .none } = spec := by rw [← unset]
    rw [same]
    rfl
  | _ => simp [parse, directive, LengthModifier.render, LengthModifier.extend, unset, modifierOf]

/-- The characters of the conversions. -/
def IsConversion (c : Char) : Prop := c ∈ ['d', 'i', 'u', 'x', 'X', 'o', 'c', 's']

theorem parse_conversion (conversion : IsConversion c) :
    parse size (c :: rest) spec = (do
      let converted ← convert size c spec
      putAll size (padded converted)
      return some rest) := by
  simp only [IsConversion, List.mem_cons, List.not_mem_nil, or_false] at conversion
  rcases conversion with rfl | rfl | rfl | rfl | rfl | rfl | rfl | rfl <;> rfl

theorem endsNumber_modifier (modifier : LengthModifier) (conversion : IsConversion c) :
    EndsNumber (modifier.render ++ c :: rest) := by
  intro c' here
  cases modifier with
  | none =>
    rw [← Option.some.inj here]
    simp only [IsConversion, List.mem_cons, List.not_mem_nil, or_false] at conversion
    rcases conversion with rfl | rfl | rfl | rfl | rfl | rfl | rfl | rfl <;> rfl
  | _ =>
    rw [← Option.some.inj here]
    rfl

/-- A width leaves everything but itself and the side of the padding. -/
theorem kept_withWidth (width : Option Number) (missing : spec.precision < 0) :
    spec.withWidth width = { spec with
      width := (spec.withWidth width).width
      reversePadding := (spec.withWidth width).reversePadding } := by
  cases width with
  | none => rfl
  | some number =>
    cases number with
    | digits ds => rfl
    | star bits =>
      simp only [Spec.withWidth, Spec.withStar, if_neg (not_le.mpr missing)]
      split <;> rfl

/-- A directive arrives at its conversion. -/
theorem run_parse_directive {directive : Directive} (proper : directive.Proper)
    (modifier : LengthModifier) (conversion : IsConversion c)
    (here : s.va = directive.args ++ va) :
    (parse size (directive.render ++ modifier.render ++ c :: rest) {}).run s =
      EStateM.run (do
        let converted ← convert size c (directive.specOf modifier)
        putAll size (padded converted)
        return some rest) { s with va := va } := by
  have stop : EndsNumber (modifier.render ++ c :: rest) := endsNumber_modifier modifier conversion
  have stop' : EndsNumber ((directive.precision.map fun number => '.' :: number.render).getD [] ++
      (modifier.render ++ c :: rest)) := by
    cases directive.precision with
    | none => exact stop
    | some number =>
      intro c' first
      rw [← Option.some.inj first]
      rfl
  have fits : (getDecimal 0 ((directive.width.map Number.render).getD [] ++
      ((directive.precision.map fun number => '.' :: number.render).getD [] ++
        (modifier.render ++ c :: rest)))).1 ≤ kIntMax := by
    cases width : directive.width with
    | none =>
      rw [Option.map_none, Option.getD_none, List.nil_append, getDecimal_of_end 0 stop']
      exact Nat.zero_le _
    | some number =>
      have fits := (proper.1 number width).1
      cases number with
      | star bits => exact Nat.zero_le _
      | digits ds =>
        change (getDecimal 0 (ds.map digitOf ++ _)).1 ≤ _
        rw [getDecimal_digits 0 ds stop']
        exact fits
  have flagged := flagged_foldl directive.flags {}
  have missing : (directive.flags.foldl Spec.withFlag {}).precision < 0 := by
    rw [flagged.precision]
    decide
  unfold Directive.render
  rw [List.append_assoc, List.append_assoc, List.append_assoc,
    parse_flags directive.flags (by decide) fits,
    run_parse_width directive.width missing proper.1 stop'
      (here.trans (List.append_assoc _ _ _)),
    run_parse_precision directive.precision proper.2 stop rfl,
    parse_modifier modifier ?_, parse_conversion conversion]
  · rfl
  · cases directive.precision with
    | none =>
      rw [kept_withWidth directive.width missing]
      exact flagged.modifier
    | some number =>
      rw [kept_withWidth directive.width missing]
      exact flagged.modifier

/-- The local variables hold the directive; a missing width may be 0 or -1. -/
structure Reads (directive : Directive) (modifier : LengthModifier) (spec : Spec) : Prop where
  width : spec.width = directive.fieldWidth ∨
    directive.fieldWidth = 0 ∧ -1 ≤ spec.width ∧ spec.width ≤ 0
  precision : spec.precision = directive.rawPrecision
  reverse : spec.reversePadding = directive.isLeft
  zero : spec.zeroPadding = zeroFirst directive.flags
  plus : spec.isPlus = decide (Flag.plus ∈ directive.flags)
  space : spec.isSpace = decide (Flag.space ∈ directive.flags)
  hash : spec.isHash = decide (Flag.hash ∈ directive.flags)
  modifier : spec.lengthModifier = modifier

theorem toInt32_of_range {n : ℤ} (low : -2 ^ 31 ≤ n) (high : n < 2 ^ 31) : toInt32 n = n :=
  Int.bmod_eq_of_le (by omega) (by omega)

/-- The local variables after the width. -/
theorem width_withWidth {directive : Directive} (room : directive.fieldWidth ≤ kIntMax)
    (missing : spec.precision < 0) (unset : spec.width = -1 ∨ spec.width = 0) :
    ((spec.withWidth directive.width).width = directive.fieldWidth ∨
        directive.fieldWidth = 0 ∧ -1 ≤ (spec.withWidth directive.width).width ∧
          (spec.withWidth directive.width).width ≤ 0) ∧
      (spec.withWidth directive.width).reversePadding = (spec.reversePadding ||
        decide ((directive.width.map Number.value).getD 0 < 0)) := by
  unfold Directive.fieldWidth at room ⊢
  revert room
  cases directive.width with
  | none =>
    intro _
    refine ⟨.inr ⟨rfl, ?_⟩, by simp [Spec.withWidth]⟩
    simp only [Spec.withWidth]
    omega
  | some number =>
    intro room
    cases number with
    | digits ds =>
      have positive : ¬ (ofDigits ds : ℤ) < 0 := by omega
      exact ⟨.inl (by simp [Spec.withWidth, Number.value]),
        by simp [Spec.withWidth, Number.value, positive]⟩
    | star bits =>
      simp only [Spec.withWidth, Spec.withStar, if_neg (not_le.mpr missing), Option.map_some,
        Option.getD_some, kIntMax] at room ⊢
      by_cases negative : (Number.star bits).value < 0
      · simp only [negative, ↓reduceIte, decide_true, Bool.or_true, and_true]
        rw [toInt32_of_range (by omega) (by omega)]
        omega
      · simp only [negative, ↓reduceIte, decide_false, Bool.or_false, and_true]
        omega

/-- Parsing leaves what the directive says. -/
theorem reads_specOf {directive : Directive} (room : directive.fieldWidth ≤ kIntMax)
    (modifier : LengthModifier) : Reads directive modifier (directive.specOf modifier) := by
  have flagged := flagged_foldl directive.flags {}
  have zero : (directive.flags.foldl Spec.withFlag {}).zeroPadding = _ :=
    zeroPadding_foldl directive.flags rfl
  unfold Directive.specOf
  generalize directive.flags.foldl Spec.withFlag {} = spec at flagged zero
  have missing : spec.precision < 0 := by
    rw [flagged.precision]
    decide
  obtain ⟨width, reverse⟩ := width_withWidth room missing flagged.width
  have kept := kept_withWidth directive.width missing
  generalize spec.withWidth directive.width = after at width reverse kept
  have set : after.withPrecision directive.precision =
      { after with precision := directive.rawPrecision } := by
    unfold Directive.rawPrecision
    cases directive.precision with
    | none =>
      rw [kept]
      simp only [flagged.precision]
      rfl
    | some number => rfl
  rw [set]
  refine ⟨width, rfl, ?_, ?_, ?_, ?_, ?_, rfl⟩
  · rw [reverse, flagged.reverse]
    rfl
  · rw [kept]
    exact zero
  · rw [kept, flagged.plus]
    rfl
  · rw [kept, flagged.space]
    rfl
  · rw [kept, flagged.hash]
    rfl

end AlkOS.Libc
