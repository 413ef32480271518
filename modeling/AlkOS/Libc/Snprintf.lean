import AlkOS.Kernel.Basic

/-!
# Formatted output

`vsnprintf` keeps what it has read of a directive in a record of local variables,
formats integers into a scratch buffer and pads the result in one place. Directives for
floating point numbers and the store of `%n` are left out.
-/

namespace AlkOS.Libc

open Kernel

/-- The size of the scratch buffer. -/
def kBufferSize : ℕ := 1024 * 2

/-- The largest `int`. -/
def kIntMax : ℕ := 2 ^ 31 - 1

/-- Conversion to `int`. -/
def toInt32 (n : ℤ) : ℤ := n.bmod (2 ^ 32)

inductive LengthModifier where
  | none
  | h
  | hh
  | l
  | ll
  | j
  | z
  | t
deriving DecidableEq, Repr

/-- A number in a slot of eight bytes, or a pointer to characters or wide characters. -/
inductive Arg where
  | word (bits : BitVec 64)
  | string (array : List Char)
  | wide (array : List Char)
deriving DecidableEq, Repr

/-- The output, `none` where nothing was written, the position, and the arguments left. -/
structure Printf where
  str : ℕ → Option Char
  i : ℕ
  va : List Arg

/-- The local variables of a directive. -/
structure Spec where
  width : ℤ := -1
  precision : ℤ := -1
  reversePadding : Bool := false
  zeroPadding : Bool := false
  isHash : Bool := false
  isSpace : Bool := false
  isPlus : Bool := false
  lengthModifier : LengthModifier := .none
deriving DecidableEq, Repr

/-- Write a character and advance. -/
def putAt (k : ℕ) (c : Char) : Kernel Printf Unit := do
  let s ← get
  if s.i < kIntMax then
    set { s with str := Function.update s.str k (some c), i := s.i + 1 : Printf }
  else throw (.undefined "signed overflow")

variable (size : ℕ) (c : Char)

def putChar : Kernel Printf Unit := do
  if 0 < size then
    let s ← get
    putAt (if (s.i : ℤ) < toInt32 size then s.i else size - 1) c

/-- A loop of `PutChar`. -/
def putAll (text : List Char) : Kernel Printf Unit := text.forM (putChar size)

/-- `va_arg` for a number. -/
def vaWord : Kernel Printf (BitVec 64) := do
  let s ← get
  match s.va with
  | .word bits :: rest =>
    set { s with va := rest }
    return bits
  | _ => throw (.undefined "va_arg")

/-- `va_arg(va, int)`. -/
def vaInt : Kernel Printf ℤ := do
  let bits ← vaWord
  return (bits.setWidth 32).toInt

/-- The bytes of a wide character. -/
def wideBytes : List Char :=
  [Char.ofNat (c.toNat % 256), Char.ofNat (c.toNat / 256 % 256),
    Char.ofNat (c.toNat / 65536 % 256), Char.ofNat (c.toNat / 16777216 % 256)]

/-- The bytes that a pointer refers to, nothing for a null pointer. -/
def vaString : Kernel Printf (Option (List Char)) := do
  let s ← get
  match s.va with
  | .string array :: rest =>
    set { s with va := rest }
    return some array
  | .wide array :: rest =>
    set { s with va := rest }
    return some (array.flatMap wideBytes)
  | .word bits :: rest =>
    if bits = 0 then
      set { s with va := rest }
      return none
    else throw (.undefined "read through a number")
  | [] => throw (.undefined "va_arg")

/-- The argument of an integer directive as a `uintmax_t`. -/
def integerArg (isUnsigned : Bool) : LengthModifier → BitVec 64 → BitVec 64
  | .h, bits =>
    if isUnsigned then ((bits.setWidth 32).setWidth 16).setWidth 64
    else ((bits.setWidth 32).setWidth 16).signExtend 64
  | .hh, bits =>
    if isUnsigned then ((bits.setWidth 32).setWidth 8).setWidth 64
    else ((bits.setWidth 32).setWidth 8).signExtend 64
  | .none, bits =>
    if isUnsigned then (bits.setWidth 32).setWidth 64 else (bits.setWidth 32).signExtend 64
  | .l, bits => bits
  | .ll, bits => bits
  | .j, bits => bits
  | .z, bits => bits
  | .t, bits => bits

/-- `FormatUInt`: the digits are written from the last to the first and reversed. -/
def formatUInt (num : ℕ) : List Char :=
  if num = 0 then ['0'] else ((Nat.digits 10 num).map fun digit => Char.ofNat (48 + digit)).reverse

/-- `"0123456789ABCDEF"`. -/
def kHexDigits : List Char :=
  ['0', '1', '2', '3', '4', '5', '6', '7', '8', '9', 'A', 'B', 'C', 'D', 'E', 'F']

/-- `c | lower`. -/
def orLower (lower : ℕ) (c : Char) : Char := Char.ofNat (c.toNat ||| lower)

/-- Zero in `FormatHex` and `FormatOct`. -/
def formatZero (precision : ℤ) : List Char :=
  if precision = -1 then ['0'] else List.replicate precision.toNat '0'

def formatHex (lower : ℕ) (num : ℕ) (hash : Bool) (precision : ℤ) (zeroPadding : Bool)
    (width : ℤ) : List Char :=
  if num = 0 then formatZero precision
  else
    let digits := (Nat.digits 16 num).map fun digit => orLower lower (kHexDigits.getD digit '0')
    let zeros : ℤ :=
      if zeroPadding then
        if precision ≠ -1 then precision - digits.length
        else width - digits.length - if hash then 2 else 0
      else 0
    (digits ++ List.replicate zeros.toNat '0' ++
      if hash then [orLower lower 'X', '0'] else []).reverse

def formatOct (num : ℕ) (hash : Bool) (precision : ℤ) (zeroPadding : Bool) (width : ℤ) :
    List Char :=
  if num = 0 then formatZero precision
  else
    let digits := (Nat.digits 8 num).map fun digit => Char.ofNat (48 + digit)
    let zeros : ℤ :=
      if zeroPadding then
        if precision ≠ -1 then precision - digits.length - if hash then 1 else 0
        else width - digits.length - if hash then 1 else 0
      else 0
    (digits ++ List.replicate zeros.toNat '0' ++ if hash then ['0'] else []).reverse

/-- What a conversion leaves: the local variables, the sign, and the characters. -/
structure Converted where
  spec : Spec
  prefixChar : Option Char
  data : List Char

/-- `d`, `i` and `u`. -/
def convertDecimal (isUnsigned : Bool) (spec : Spec) (bits : BitVec 64) : Converted :=
  let d := integerArg isUnsigned spec.lengthModifier bits
  let negative := !isUnsigned && d.msb
  let prefixChar :=
    if negative then some '-' else if spec.isPlus then some '+' else if spec.isSpace then some ' '
    else none
  { spec := { spec with
      width := if prefixChar.isSome then spec.width - 1 else spec.width
      zeroPadding := if spec.precision ≠ -1 then false else spec.zeroPadding }
    prefixChar := prefixChar
    data := formatUInt (if negative then -d else d).toNat }

/-- `x`, `X` and `o`, for a function that formats the number. -/
def convertUnsigned (format : ℕ → Bool → ℤ → Bool → ℤ → List Char) (spec : Spec) (num : ℕ) :
    Converted :=
  if 0 ≤ spec.precision then
    { spec := { spec with zeroPadding := false }
      prefixChar := none
      data := format num spec.isHash spec.precision true (-1) }
  else if spec.zeroPadding then
    { spec := { spec with zeroPadding := if num ≠ 0 then false else true }
      prefixChar := none
      data := format num spec.isHash (-1) true spec.width }
  else
    { spec := spec
      prefixChar := none
      data := format num spec.isHash (-1) false (-1) }

variable (spec : Spec)

/-- `s`, for a string of a known length. -/
def convertString (array : List Char) (strlen : ℕ) : Converted :=
  { spec := { spec with zeroPadding := false }
    prefixChar := none
    data := array.take (if 0 ≤ spec.precision ∧ spec.precision < strlen then spec.precision.toNat
      else strlen) }

/-- `c`. -/
def convertChar (bits : BitVec 64) : Converted :=
  { spec := { spec with precision := -1, zeroPadding := false }
    prefixChar := none
    data := [Char.ofNat (bits.setWidth 8).toNat] }

/-- Text in the scratch buffer, with its end. -/
def scratch (converted : Converted) : Kernel Printf Converted :=
  if converted.data.length < kBufferSize then return converted
  else throw (.undefined "write past the scratch buffer")

/-- The length of a string. -/
def strlen (array : List Char) : Kernel Printf ℕ :=
  match array.findIdx? (· = '\x00') with
  | some length => return length
  | none => throw (.undefined "read past an array")

/-- The conversions, by their character. -/
def convert (spec : Spec) : Kernel Printf Converted :=
  match c with
  | 'd' => return convertDecimal false spec (← vaWord)
  | 'i' => return convertDecimal false spec (← vaWord)
  | 'u' => return convertDecimal true spec (← vaWord)
  | 'x' => do
      let bits ← vaWord
      scratch (convertUnsigned (formatHex 0x20) spec
        (integerArg true spec.lengthModifier bits).toNat)
  | 'X' => do
      let bits ← vaWord
      scratch (convertUnsigned (formatHex 0) spec (integerArg true spec.lengthModifier bits).toNat)
  | 'p' => do
      let bits ← vaWord
      if bits = 0 then
        return ⟨{ spec with zeroPadding := false, precision := 0 }, none,
          ['(', 'n', 'i', 'l', ')']⟩
      else scratch (convertUnsigned (formatHex 0x20) { spec with isHash := true } bits.toNat)
  | 'o' => do
      let bits ← vaWord
      scratch (convertUnsigned formatOct spec (integerArg true spec.lengthModifier bits).toNat)
  | 's' => do
      match ← vaString with
      | some array => return convertString spec array (← strlen array)
      | none =>
        return ⟨{ spec with zeroPadding := false, precision := 0 }, none,
          ['(', 'n', 'u', 'l', 'l', ')']⟩
  | 'c' => return convertChar spec (← vaWord)
  | '%' => do
      putAt (← get).i '%'
      return ⟨spec, none, []⟩
  | 'n' => do
      let _ ← vaWord
      return ⟨spec, none, []⟩
  | c =>
    if c ∈ ['f', 'F', 'e', 'E', 'g', 'G', 'a', 'A'] then throw (.undefined "left out")
    else do
      putChar size '%'
      putChar size c
      return ⟨spec, none, []⟩

/-- Padding. Lengths are unsigned 64-bit numbers, and differences become `int` again. -/
def padded (converted : Converted) : List Char :=
  let spec := converted.spec
  let length : ℤ := converted.data.length
  let precision := if spec.precision < 0 ∧ spec.zeroPadding then spec.width else spec.precision
  let width := toInt32 (spec.width - length)
  let precision := toInt32 (precision - length)
  let width := if 0 < precision then toInt32 (width - precision) else width
  let spaces := List.replicate width.toNat ' '
  let before := !spec.reversePadding && !spec.zeroPadding
  (if before then spaces else []) ++ converted.prefixChar.toList ++
    List.replicate precision.toNat '0' ++ converted.data ++ if before then [] else spaces

def getDecimal (i : ℕ) : List Char → ℕ × List Char
  | [] => (i, [])
  | c :: rest => if c.isDigit then getDecimal (i * 10 + (c.toNat - 48)) rest else (i, c :: rest)

namespace Spec

/-- Whether `0` is a flag. -/
def takesZero : Bool :=
  spec.width < 0 && spec.precision < 0 && !spec.zeroPadding && !spec.reversePadding

/-- A number in the format. -/
def withNumber (value : ℕ) : Spec :=
  if 0 ≤ spec.precision then { spec with precision := value } else { spec with width := value }

/-- A number in the arguments. -/
def withStar (value : ℤ) : Spec :=
  if 0 ≤ spec.precision then { spec with precision := value }
  else if value < 0 then { spec with width := toInt32 (-value), reversePadding := true }
  else { spec with width := value }

end Spec

/-- The modifier of a character. -/
def modifierOf : Char → Option LengthModifier
  | 'h' => some .h
  | 'l' => some .l
  | 'j' => some .j
  | 'z' => some .z
  | 't' => some .t
  | _ => none

/-- A modifier after another one. -/
def LengthModifier.extend : LengthModifier → LengthModifier → Option LengthModifier
  | .h, .h => some .hh
  | .l, .l => some .ll
  | .none, modifier => some modifier
  | _, _ => none

/-- A directive after its `%`: what is left of the format, if it has not ended. -/
def directive : ℕ → List Char → Spec → Kernel Printf (Option (List Char))
  | 0, _, _ => throw (.undefined "out of fuel")
  | _ + 1, [], _ => return none
  | fuel + 1, c :: rest, spec =>
    if c = '-' then directive fuel rest { spec with reversePadding := true }
    else if c = '.' then directive fuel rest { spec with precision := 0 }
    else if c = '0' ∧ spec.takesZero = true then
      directive fuel rest { spec with zeroPadding := true }
    else if c.isDigit then
      if (getDecimal 0 (c :: rest)).1 ≤ kIntMax then
        directive fuel (getDecimal 0 (c :: rest)).2
          (spec.withNumber (getDecimal 0 (c :: rest)).1)
      else throw (.undefined "signed overflow")
    else if c = '*' then do
      let value ← vaInt
      directive fuel rest (spec.withStar value)
    else if c = '+' then directive fuel rest { spec with isPlus := true }
    else if c = ' ' then directive fuel rest { spec with isSpace := true }
    else if c = '#' then directive fuel rest { spec with isHash := true }
    else
      match modifierOf c with
      | some modifier =>
        match spec.lengthModifier.extend modifier with
        | some modifier => directive fuel rest { spec with lengthModifier := modifier }
        | none => do
            putAll size ['%', c]
            putAll size (padded ⟨spec, none, []⟩)
            return some rest
      | none => do
          let converted ← convert size c spec
          putAll size (padded converted)
          return some rest

/-- The loop over the format. -/
def formatLoop : ℕ → List Char → Kernel Printf ℤ
  | 0, _ => throw (.undefined "out of fuel")
  | _ + 1, [] => do
      putChar size '\x00'
      return (← get).i - 1
  | fuel + 1, c :: rest =>
    if c = '%' then do
      match ← directive size (rest.length + 1) rest {} with
      | none => return -1
      | some rest => formatLoop fuel rest
    else do
      putChar size c
      formatLoop fuel rest

/-- `vsnprintf`; the end of the format stands for its terminator. -/
def vsnprintf (format : List Char) : Kernel Printf ℤ :=
  formatLoop size (format.length + 1) format

end AlkOS.Libc
