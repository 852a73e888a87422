import Mathlib.Algebra.Field.Rat
import Mathlib.Algebra.Order.Ring.Rat
import Mathlib.Data.List.DropRight
import Mathlib.Data.Nat.Log
import Mathlib.Tactic.Common

/-! Decimal numerals: the texts that denote a decimal number, an infinity or a NaN, and the
numbers they denote. A text is a list of code points, lone surrogates among them. -/

namespace DecimalNumerals

abbrev CodePoint := Fin 0x110000

abbrev Text := List CodePoint

def codePoint (c : Char) : CodePoint :=
  ⟨c.toNat, by
    have := c.valid
    simp only [UInt32.isValidChar, Nat.isValidChar] at this
    change c.val.toNat < _
    omega⟩

def text (s : String) : Text := s.toList.map codePoint

inductive Dec
  | nan
  | infinity (negative : Bool)
  | finite (value : ℚ)
  deriving DecidableEq, Repr

/-- What a numeral consults of the character database. -/
structure Digits where
  isSpace : CodePoint → Bool
  digit : CodePoint → Option (Fin 10)

namespace Digits

variable (u : Digits)

/-- A code point of a numeral, the digits of every script as ASCII. -/
def ascii (c : CodePoint) : Option Char :=
  if 0 < c.val ∧ c.val < 128 then some (Char.ofNat c.val)
  else if u.isSpace c then some ' '
  else (u.digit c).map fun d => Char.ofNat (48 + d.val)

/-- Whitespace at the ends and underscores do not count. -/
def numericAscii (t : Text) : Option (List Char) :=
  (((t.dropWhile u.isSpace).rdropWhile u.isSpace).filter (· ≠ codePoint '_')).mapM u.ascii

end Digits

def signed : List Char → Bool × List Char
  | '-' :: rest => (true, rest)
  | '+' :: rest => (false, rest)
  | rest => (false, rest)

def ofDigits (digits : List Char) : ℕ := digits.foldl (fun n c => 10 * n + (c.toNat - 48)) 0

def exponentPart : List Char → Option ℤ
  | [] => some 0
  | c :: rest =>
    let (negative, digits) := signed rest
    if (c = 'e' ∨ c = 'E') ∧ digits ≠ [] ∧ digits.all Char.isDigit then
      some (if negative then -ofDigits digits else ofDigits digits)
    else none

def fractionPart : List Char → List Char × List Char
  | '.' :: rest => rest.span Char.isDigit
  | rest => ([], rest)

def coefficient (body : List Char) : Option (ℕ × ℤ) :=
  let (whole, rest) := body.span Char.isDigit
  let (fraction, rest) := fractionPart rest
  if whole = [] ∧ fraction = [] then none
  else (exponentPart rest).map fun exponent =>
    (ofDigits (whole ++ fraction), exponent - fraction.length)

/-- The exponents that decimal numbers have room for. -/
def InRange (coefficient : ℕ) (exponent : ℤ) : Prop :=
  -1999999999999999997 ≤ exponent ∧ exponent + Nat.log 10 coefficient ≤ 999999999999999999

instance (coefficient : ℕ) (exponent : ℤ) : Decidable (InRange coefficient exponent) :=
  inferInstanceAs (Decidable (_ ∧ _))

def isPayload (word : List Char) : Bool := word.all Char.isDigit

def unsignedNumeral (negative : Bool) (body : List Char) : Option Dec :=
  let word := body.map Char.toLower
  if word = "inf".toList ∨ word = "infinity".toList then some (.infinity negative)
  else if word.take 3 = "nan".toList ∧ isPayload (word.drop 3) then some .nan
  else if word.take 4 = "snan".toList ∧ isPayload (word.drop 4) then some .nan
  else (coefficient body).bind fun (digits, exponent) =>
    if InRange digits exponent then
      some (.finite ((if negative then -(digits : ℚ) else digits) * 10 ^ exponent))
    else none

/-- `Decimal(text)`, with nothing for `InvalidOperation`. -/
def Digits.ofText (u : Digits) (t : Text) : Option Dec :=
  (u.numericAscii t).bind fun chars =>
    let (negative, body) := signed chars
    unsignedNumeral negative body

end DecimalNumerals
