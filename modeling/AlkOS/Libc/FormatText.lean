import AlkOS.Libc.Snprintf

/-!
# What C prescribes

A format is a sequence of ordinary characters and directives. A directive is given here
with the arguments it takes, so that a sequence of items determines the format, the
arguments and the prescribed text. Wide characters are those of the basic character set.
-/

namespace AlkOS.Libc

/-- The flags of a directive. -/
inductive Flag where
  | minus
  | plus
  | space
  | hash
  | zero
deriving DecidableEq, Repr

/-- The integer conversions. -/
inductive IntegerConversion where
  | d
  | i
  | u
  | x
  | bigX
  | o
deriving DecidableEq, Repr

/-- A width or a precision: digits, or an argument for a `*`. -/
inductive Number where
  | digits (ds : List (Fin 10))
  | star (bits : BitVec 64)
deriving DecidableEq, Repr

/-- Flags in any order, a width and a precision. -/
structure Directive where
  flags : List Flag
  width : Option Number
  precision : Option Number
deriving DecidableEq, Repr

/-- A character or a directive, with its arguments. -/
inductive Item where
  | char (c : Char)
  | integer (directive : Directive) (modifier : LengthModifier) (conversion : IntegerConversion)
      (bits : BitVec 64)
  | character (directive : Directive) (isWide : Bool) (bits : BitVec 64)
  | string (directive : Directive) (isWide : Bool) (array : List Char)
deriving DecidableEq, Repr

/-- The number that digits stand for. -/
def ofDigits (ds : List (Fin 10)) : ℕ := ds.foldl (fun value digit => value * 10 + digit.val) 0

def digitOf (digit : Fin 10) : Char := Char.ofNat (48 + digit)

namespace Number

def value : Number → ℤ
  | digits ds => ofDigits ds
  | star bits => (bits.setWidth 32).toInt

def render : Number → List Char
  | digits ds => ds.map digitOf
  | star _ => ['*']

def args : Number → List Arg
  | digits _ => []
  | star bits => [.word bits]

/-- Numbers are of type `int`. -/
def Fits : Number → Prop
  | digits ds => ofDigits ds ≤ kIntMax
  | star _ => True

/-- A width does not begin with a zero, which would be a flag. -/
def IsWidth : Number → Prop
  | digits ds => ∃ digit rest, ds = digit :: rest ∧ digit ≠ 0
  | star _ => True

end Number

def Flag.render : Flag → Char
  | minus => '-'
  | plus => '+'
  | space => ' '
  | hash => '#'
  | zero => '0'

def LengthModifier.render : LengthModifier → List Char
  | none => []
  | h => ['h']
  | hh => ['h', 'h']
  | l => ['l']
  | ll => ['l', 'l']
  | j => ['j']
  | z => ['z']
  | t => ['t']

def IntegerConversion.render : IntegerConversion → Char
  | d => 'd'
  | i => 'i'
  | u => 'u'
  | x => 'x'
  | bigX => 'X'
  | o => 'o'

namespace Directive

/-- A directive up to its length modifier. -/
def render (directive : Directive) : List Char :=
  directive.flags.map Flag.render ++ (directive.width.map Number.render).getD [] ++
    (directive.precision.map fun number => '.' :: number.render).getD []

def args (directive : Directive) : List Arg :=
  (directive.width.map Number.args).getD [] ++ (directive.precision.map Number.args).getD []

def Proper (directive : Directive) : Prop :=
  (∀ number, directive.width = some number → number.Fits ∧ number.IsWidth) ∧
    ∀ number, directive.precision = some number → number.Fits

end Directive

namespace Item

/-- The part of the format. -/
def render : Item → List Char
  | char c => [c]
  | integer directive modifier conversion _ =>
    '%' :: (directive.render ++ modifier.render ++ [conversion.render])
  | character directive isWide _ =>
    '%' :: (directive.render ++ (if isWide then LengthModifier.l else .none).render ++ ['c'])
  | string directive isWide _ =>
    '%' :: (directive.render ++ (if isWide then LengthModifier.l else .none).render ++ ['s'])

/-- The arguments. -/
def args : Item → List Arg
  | char _ => []
  | integer directive _ _ bits => directive.args ++ [.word bits]
  | character directive _ bits => directive.args ++ [.word bits]
  | string directive isWide array =>
    directive.args ++ [if isWide then .wide array else .string array]

end Item

namespace Directive

variable (directive : Directive)

/-- A negative width argument is a `-` flag and a positive width. -/
def isLeft : Bool :=
  Flag.minus ∈ directive.flags || decide ((directive.width.map Number.value).getD 0 < 0)

def fieldWidth : ℕ := ((directive.width.map Number.value).getD 0).natAbs

/-- The precision as it is written, -1 without one. -/
def rawPrecision : ℤ := (directive.precision.map Number.value).getD (-1)

/-- A negative precision argument is taken as if it were missing. -/
def precisionOf : Option ℕ :=
  if 0 ≤ directive.rawPrecision then some directive.rawPrecision.toNat else none

/-- The padding of a field. A `-` flag overrides a `0` flag. -/
def pad (zeros : Bool) (sign body : List Char) : List Char :=
  let fill := directive.fieldWidth - (sign.length + body.length)
  if directive.isLeft then sign ++ body ++ List.replicate fill ' '
  else if zeros then sign ++ List.replicate fill '0' ++ body
  else List.replicate fill ' ' ++ sign ++ body

end Directive

/-- The number of bits of an argument. -/
def LengthModifier.bits : LengthModifier → ℕ
  | hh => 8
  | h => 16
  | none => 32
  | _ => 64

/-- The digits `0` to `9` and the letters `a` to `f`. -/
def digitChar (isUpper : Bool) (digit : ℕ) : Char :=
  if digit < 10 then Char.ofNat (48 + digit)
  else Char.ofNat ((if isUpper then 65 else 97) + (digit - 10))

namespace IntegerConversion

def isSigned : IntegerConversion → Bool
  | d => true
  | i => true
  | _ => false

def base : IntegerConversion → ℕ
  | x => 16
  | bigX => 16
  | o => 8
  | _ => 10

variable (conversion : IntegerConversion)

/-- The value of an argument, converted to the type of the modifier. -/
def value (modifier : LengthModifier) (bits : BitVec 64) : ℤ :=
  if conversion.isSigned then (bits.setWidth modifier.bits).toInt
  else (bits.setWidth modifier.bits).toNat

/-- The sign of a signed conversion, and the mark of a hexadecimal number with a `#` flag. -/
def sign (flags : List Flag) (value : ℤ) : List Char :=
  match conversion with
  | x => if Flag.hash ∈ flags ∧ value ≠ 0 then ['0', 'x'] else []
  | bigX => if Flag.hash ∈ flags ∧ value ≠ 0 then ['0', 'X'] else []
  | o => []
  | u => []
  | _ =>
    if value < 0 then ['-'] else if Flag.plus ∈ flags then ['+']
    else if Flag.space ∈ flags then [' '] else []

/-- At least as many digits as the precision says; zero alone has none. -/
def digits (precision : ℕ) (value : ℤ) : List Char :=
  let digits :=
    ((Nat.digits conversion.base value.natAbs).map (digitChar (conversion = bigX))).reverse
  List.replicate (precision - digits.length) '0' ++ digits

/-- An octal number with a `#` flag begins with a zero. -/
def body (flags : List Flag) (precision : ℕ) (value : ℤ) :
    List Char :=
  let digits := conversion.digits precision value
  if conversion = o ∧ Flag.hash ∈ flags ∧ digits.head? ≠ some '0' then '0' :: digits else digits

end IntegerConversion

namespace Item

/-- The text that C prescribes. -/
def text : Item → List Char
  | char c => [c]
  | integer directive modifier conversion bits =>
    let value := conversion.value modifier bits
    directive.pad (Flag.zero ∈ directive.flags && directive.precisionOf.isNone)
      (conversion.sign directive.flags value)
      (conversion.body directive.flags (directive.precisionOf.getD 1) value)
  | character directive _ bits => directive.pad false [] [Char.ofNat (bits.setWidth 8).toNat]
  | string directive _ array =>
    let characters := array.takeWhile (· ≠ '\x00')
    directive.pad false [] (match directive.precisionOf with
      | some precision => characters.take precision
      | none => characters)

/-- An item that C allows, with hexadecimal and octal texts shorter than the scratch buffer. -/
def Proper : Item → Prop
  | char c => c ≠ '%' ∧ c ≠ '\x00'
  | integer directive modifier conversion bits =>
    directive.Proper ∧ (conversion.base ≠ 10 →
      (conversion.sign directive.flags (conversion.value modifier bits) ++
        conversion.body directive.flags (directive.precisionOf.getD 1)
          (conversion.value modifier bits)).length < kBufferSize)
  | character directive isWide bits =>
    directive.Proper ∧ (isWide = true →
      0 < (bits.setWidth 32).toNat ∧ (bits.setWidth 32).toNat < 128)
  | string directive isWide array =>
    directive.Proper ∧ ('\x00' ∈ array ∨
      ∃ precision, directive.precisionOf = some precision ∧ precision ≤ array.length) ∧
    (isWide = true → ∀ c ∈ array, c.toNat < 128)

end Item

variable (items : List Item)

/-- The format of a sequence of items. -/
def formatOf : List Char := items.flatMap Item.render

/-- The arguments of a sequence of items. -/
def argsOf : List Arg := items.flatMap Item.args

/-- The text of a sequence of items. -/
def textOf : List Char := items.flatMap Item.text

end AlkOS.Libc
