import AlkOS.Libc.Texts

/-!
# Characters and strings

The length of a string is taken before its precision is looked at, zeros fill it up
to the precision, and a wide string is read as a string of bytes.
-/

namespace AlkOS.Libc

open Kernel

variable {directive : Directive} {modifier : LengthModifier} {spec : Spec} {n : ℕ}
  {array characters : List Char} {bits : BitVec 64}

/-- `c`. -/
theorem padded_convertChar (sized : Sized directive modifier spec) :
    padded (convertChar spec bits) =
      directive.pad false [] [Char.ofNat (bits.setWidth 8).toNat] := by
  rw [padded_plain sized (by rfl) (by rfl) (by rfl) (by rfl) (by simp [convertChar, kIntMax])
    (by simp [convertChar]) (by simp [convertChar])]
  rfl

/-- The characters of a string. -/
def charactersOf (array : List Char) : List Char := array.takeWhile (· ≠ '\x00')

theorem findIdx?_eq (array : List Char) : array.findIdx? (· = '\x00') =
    if '\x00' ∈ array then some (charactersOf array).length else none := by
  induction array with
  | nil => rfl
  | cons c rest ih =>
    rw [List.findIdx?_cons, ih]
    by_cases last : c = '\x00'
    · simp [last, charactersOf]
    · by_cases member : '\x00' ∈ rest
      · simp [last, member, charactersOf]
      · simp [last, member, Ne.symm last]

theorem take_length_charactersOf (array : List Char) :
    array.take (charactersOf array).length = charactersOf array :=
  (List.prefix_iff_eq_take.mp (List.takeWhile_prefix _)).symm

/-- With a precision. -/
theorem padded_string_given (sized : Sized directive modifier spec)
    (given : 0 ≤ directive.rawPrecision) (length : (array.take n).length = n) :
    padded (convertString spec array n) = directive.pad false []
      (List.replicate (directive.rawPrecision.toNat - n) '0' ++
        (array.take n).take directive.rawPrecision.toNat) := by
  have precision := sized.reads.precision
  have high := sized.high
  have data : (convertString spec array n).data =
      (array.take n).take directive.rawPrecision.toNat := by
    simp only [convertString, List.take_take]
    congr 1
    split <;> omega
  have short : ((array.take n).take directive.rawPrecision.toNat).length =
      min directive.rawPrecision.toNat n := by
    rw [List.length_take, length]
  have here : (convertString spec array n).spec.precision = directive.rawPrecision := precision
  rw [padded_plain sized rfl rfl rfl rfl, data]
  · congr 3
    omega
  · rw [data]
    omega
  · rw [data]
    omega
  · rw [here]
    exact high

/-- Without one. -/
theorem padded_string_missing (sized : Sized directive modifier spec)
    (missing : directive.rawPrecision < 0) (length : (array.take n).length = n)
    (small : n ≤ kIntMax) {text : List Char} (fits : text.length ≤ kIntMax) :
    padded (convertString spec array n) = text ↔
      -2 ^ 31 ≤ directive.rawPrecision - n ∧ directive.pad false [] (array.take n) = text := by
  have precision := sized.reads.precision
  have data : (convertString spec array n).data = array.take n := by
    simp only [convertString]
    rw [if_neg (by omega)]
  rw [padded_missing_iff sized rfl rfl rfl rfl (by rw [data, length]; exact small) missing rfl fits,
    data, length]

/-- What a string directive writes for an array of bytes. -/
def stringOutput (spec : Spec) (array : List Char) : Option (List Char) :=
  (array.findIdx? (· = '\x00')).map fun length => padded (convertString spec array length)

/-- The text of a string. -/
def stringText (directive : Directive) (characters : List Char) : List Char :=
  directive.pad false [] (match directive.precisionOf with
    | some precision => characters.take precision
    | none => characters)

theorem stringText_of_nonneg (given : 0 ≤ directive.rawPrecision) :
    stringText directive characters =
      directive.pad false [] (characters.take directive.rawPrecision.toNat) := by
  rw [stringText, precisionOf_of_nonneg given]

theorem stringText_of_neg (missing : directive.rawPrecision < 0) :
    stringText directive characters = directive.pad false [] characters := by
  rw [stringText, precisionOf_of_neg missing]

/-- Padding with spaces, character by character. -/
theorem count_pad_false (directive : Directive) (body : List Char) (c : Char) :
    (directive.pad false [] body).count c =
      (if c = ' ' then directive.fillOf [] body else 0) + body.count c := by
  rw [pad_eq_layout, if_pos (.inr rfl), count_layout]
  simp

/-- The array is read to its terminator, and a precision does not exceed its length. -/
def StringCondition (directive : Directive) (array : List Char) : Prop :=
  '\x00' ∈ array ∧
  (0 ≤ directive.rawPrecision → directive.rawPrecision ≤ (charactersOf array).length) ∧
  (directive.rawPrecision < 0 →
    -2 ^ 31 ≤ directive.rawPrecision - (charactersOf array).length)

/-- When a string is written as prescribed. -/
theorem stringOutput_iff (sized : Sized directive modifier spec)
    (fits : (stringText directive (charactersOf array)).length ≤ kIntMax) :
    stringOutput spec array = some (stringText directive (charactersOf array)) ↔
      StringCondition directive array := by
  unfold stringOutput
  rw [findIdx?_eq]
  by_cases terminated : '\x00' ∈ array
  · rw [if_pos terminated, Option.map_some, Option.some.injEq]
    have text := take_length_charactersOf array
    have length : (array.take (charactersOf array).length).length =
        (charactersOf array).length := by
      rw [text]
    by_cases given : 0 ≤ directive.rawPrecision
    · rw [padded_string_given sized given length, stringText_of_nonneg given, text]
      constructor
      · intro same
        have counts := congrArg (List.count '0') same
        rw [count_pad_false, count_pad_false, List.count_append, count_replicate_eq] at counts
        simp only [Char.reduceEq, ↓reduceIte] at counts
        exact ⟨terminated, fun _ => by omega, fun missing => by omega⟩
      · intro ⟨_, short, _⟩
        have none : directive.rawPrecision.toNat - (charactersOf array).length = 0 := by
          omega
        rw [none]
        rfl
    · have missing : directive.rawPrecision < 0 := by omega
      rw [stringText_of_neg missing] at fits ⊢
      have small : (charactersOf array).length ≤ kIntMax := by
        rw [length_pad, List.length_nil, zero_add] at fits
        exact (le_max_right _ _).trans fits
      rw [padded_string_missing sized missing length small fits, text, and_iff_left rfl]
      exact ⟨fun range => ⟨terminated, fun given => by omega, fun _ => range⟩,
        fun holds => holds.2.2 missing⟩
  · rw [if_neg terminated]
    exact iff_of_false nofun fun holds => terminated holds.1

/-- The bytes of a wide character of the basic character set. -/
theorem wideBytes_of_lt {c : Char} (basic : c.toNat < 128) :
    wideBytes c = [c, '\x00', '\x00', '\x00'] := by
  have low : c.toNat % 256 = c.toNat := Nat.mod_eq_of_lt (by omega)
  have second : c.toNat / 256 % 256 = 0 := by omega
  have third : c.toNat / 65536 % 256 = 0 := by omega
  have fourth : c.toNat / 16777216 % 256 = 0 := by omega
  rw [wideBytes, low, second, third, fourth, Char.ofNat_toNat]

/-- At most one character of a wide string is seen. -/
theorem findIdx?_wide (basic : ∀ c ∈ array, c.toNat < 128) (nonempty : array ≠ []) :
    (array.flatMap wideBytes).findIdx? (· = '\x00') =
        some ((charactersOf array).take 1).length ∧
      (array.flatMap wideBytes).take ((charactersOf array).take 1).length =
        (charactersOf array).take 1 := by
  cases array with
  | nil => exact absurd rfl nonempty
  | cons c rest =>
    rw [List.flatMap_cons, wideBytes_of_lt (basic c List.mem_cons_self)]
    by_cases last : c = '\x00'
    · simp [last, charactersOf, List.findIdx?_cons]
    · simp [last, charactersOf, List.findIdx?_cons]

/-- A wide string has at most one character, or padding stands for the others. -/
def WideCondition (directive : Directive) (array : List Char) : Prop :=
  let characters := charactersOf array
  array ≠ [] ∧
  (0 ≤ directive.rawPrecision →
    directive.rawPrecision ≤ (characters.take 1).length ∨
    directive.rawPrecision ≤ characters.length ∧
      ∀ c ∈ characters.take directive.rawPrecision.toNat, c = '0') ∧
  (directive.rawPrecision < 0 →
    (characters.length ≤ 1 ∨ characters.length ≤ directive.fieldWidth ∧
      ∀ c ∈ (if directive.isLeft then characters.drop 1 else characters), c = ' ') ∧
    -2 ^ 31 ≤ directive.rawPrecision - (characters.take 1).length)

theorem pad_false_eq (directive : Directive) (body : List Char) :
    directive.pad false [] body =
      if directive.isLeft = true then
        body ++ List.replicate (directive.fieldWidth - body.length) ' '
      else List.replicate (directive.fieldWidth - body.length) ' ' ++ body := by
  unfold Directive.pad
  cases directive.isLeft <;> simp

/-- Padded texts of the same length are the same. -/
theorem pad_false_inj {first second : List Char} (length : first.length = second.length)
    (same : directive.pad false [] first = directive.pad false [] second) : first = second := by
  rw [pad_false_eq, pad_false_eq, length] at same
  split at same
  · exact List.append_cancel_right same
  · exact List.append_cancel_left same

/-- One character filled up with another one. -/
theorem replicate_append_take_iff {a : Char} (long : 1 < characters.length) :
    List.replicate (characters.length - 1) a ++ characters.take 1 = characters ↔
      ∀ c ∈ characters, c = a := by
  obtain ⟨b, c, rest, rfl⟩ : ∃ b c rest, characters = b :: c :: rest := by
    match characters, long with
    | b :: c :: rest, _ => exact ⟨b, c, rest, rfl⟩
  constructor
  · intro same
    have head : a = b := (List.cons.inj same).1
    rw [← same]
    intro d member
    rcases List.mem_append.mp member with inside | last
    · exact List.eq_of_mem_replicate inside
    · exact (List.mem_singleton.mp last).trans head.symm
  · intro all
    rw [List.eq_replicate_of_mem all, List.length_replicate]
    exact List.replicate_succ'.symm

/-- Zeros in front of the first character, against the characters up to the
precision. -/
theorem pad_wide_given_iff (p : ℕ) (characters : List Char) :
    directive.pad false [] (List.replicate (p - (characters.take 1).length) '0' ++
        (characters.take 1).take p) = directive.pad false [] (characters.take p) ↔
      p ≤ (characters.take 1).length ∨
        p ≤ characters.length ∧ ∀ c ∈ characters.take p, c = '0' := by
  by_cases few : p ≤ (characters.take 1).length
  · refine iff_of_true ?_ (.inl few)
    rw [Nat.sub_eq_zero_of_le few, List.replicate_zero, List.nil_append, List.take_take,
      Nat.min_eq_left (few.trans (List.length_take_le 1 _))]
  · rw [or_iff_right few]
    by_cases long : p ≤ characters.length
    · have length : (characters.take p).length = p := List.length_take_of_le long
      have first : (characters.take 1).take p = (characters.take p).take 1 := by
        rw [List.take_take, List.take_take, Nat.min_comm]
      have one : (characters.take 1).length = 1 := List.length_take_of_le (by omega)
      rw [and_iff_right long, ← replicate_append_take_iff (by omega), length, first, one]
      refine ⟨fun same => pad_false_inj ?_ same, congrArg _⟩
      simp only [List.length_append, List.length_replicate, List.length_take]
      omega
    · refine iff_of_false (fun same => ?_) fun both => long both.1
      have whole : characters.take p = characters := List.take_of_length_le (by omega)
      have counts := congrArg (List.count '0') same
      have all := congrArg (List.count '0') (List.take_append_drop 1 characters)
      have bound := List.count_le_length (a := '0') (l := characters.drop 1)
      rw [count_pad_false, count_pad_false, List.count_append, count_replicate_eq, List.take_take,
        Nat.min_eq_right (by omega), whole] at counts
      rw [List.count_append] at all
      simp only [Char.reduceEq, ↓reduceIte, List.length_take, List.length_drop] at counts bound
      omega

/-- The first character alone, against all of them. -/
theorem pad_wide_missing_iff (characters : List Char) :
    directive.pad false [] (characters.take 1) = directive.pad false [] characters ↔
      characters.length ≤ 1 ∨ characters.length ≤ directive.fieldWidth ∧
        ∀ c ∈ (if directive.isLeft then characters.drop 1 else characters), c = ' ' := by
  rcases Nat.lt_or_ge 1 characters.length with long | short
  · rw [or_iff_right (by omega)]
    by_cases wide : characters.length ≤ directive.fieldWidth
    · have fill : directive.fieldWidth - (characters.take 1).length =
          characters.length - 1 + (directive.fieldWidth - characters.length) := by
        rw [List.length_take]
        omega
      rw [pad_false_eq, pad_false_eq, fill, and_iff_right wide]
      cases directive.isLeft with
      | true =>
        simp only [↓reduceIte]
        rw [← List.replicate_append_replicate, ← List.append_assoc, List.append_left_inj]
        nth_rewrite 3 [← List.take_append_drop 1 characters]
        rw [List.append_right_inj, eq_comm, List.eq_replicate_iff, List.length_drop,
          and_iff_right rfl]
      | false =>
        simp only [Bool.false_eq_true, ↓reduceIte]
        rw [Nat.add_comm, ← List.replicate_append_replicate, List.append_assoc,
          List.append_right_inj]
        exact replicate_append_take_iff long
    · refine iff_of_false (fun same => wide ?_) fun both => wide both.1
      have lengths := congrArg List.length same
      rw [length_pad, length_pad, List.length_take] at lengths
      omega
  · rw [List.take_of_length_le short]
    exact iff_of_true rfl (.inl short)

/-- When a wide string is written as prescribed. -/
theorem wideOutput_iff (sized : Sized directive modifier spec)
    (basic : ∀ c ∈ array, c.toNat < 128)
    (fits : (stringText directive (charactersOf array)).length ≤ kIntMax) :
    stringOutput spec (array.flatMap wideBytes) =
        some (stringText directive (charactersOf array)) ↔
      WideCondition directive array := by
  unfold stringOutput
  by_cases nonempty : array = []
  · subst nonempty
    exact iff_of_false nofun fun holds => holds.1 rfl
  · obtain ⟨found, text⟩ := findIdx?_wide basic nonempty
    have length : ((array.flatMap wideBytes).take ((charactersOf array).take 1).length).length =
        ((charactersOf array).take 1).length := by rw [text]
    rw [found, Option.map_some, Option.some.injEq]
    by_cases given : 0 ≤ directive.rawPrecision
    · rw [padded_string_given sized given length, stringText_of_nonneg given, text,
        pad_wide_given_iff]
      have cast : ∀ n : ℕ, directive.rawPrecision.toNat ≤ n ↔ directive.rawPrecision ≤ n := by
        omega
      rw [cast, cast]
      exact ⟨fun holds => ⟨nonempty, fun _ => holds, fun missing => by omega⟩,
        fun holds => holds.2.1 given⟩
    · have missing : directive.rawPrecision < 0 := by omega
      have small : ((charactersOf array).take 1).length ≤ kIntMax :=
        (List.length_take_le 1 _).trans (by decide)
      rw [stringText_of_neg missing] at fits ⊢
      rw [padded_string_missing sized missing length small fits, text, pad_wide_missing_iff]
      exact ⟨fun holds => ⟨nonempty, fun given => by omega, fun _ => holds.symm⟩,
        fun holds => (holds.2.2 missing).symm⟩

end AlkOS.Libc
