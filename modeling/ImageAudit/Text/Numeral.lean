import ImageAudit.Text.Basic

/-!
# Decimal numerals

* `numeral?` reads a numeral below 2^32, which may carry a plus sign.
* `decimal` writes a natural number.
* `hundredths` writes a number of hundredths with the fewest digits after the point.
-/

namespace ImageAudit.Text

/-- The value of a row of digits, read from the left. -/
def digitsValue (t : Text) : Nat := t.foldl (fun n c => 10 * n + (c.toNat - '0'.toNat)) 0

/-- Whether all characters are ASCII digits and there is at least one. -/
def isDigits (t : Text) : Bool := !t.isEmpty && t.all Char.isDigit

/-- The digits of a numeral: what follows a leading plus sign, or everything. -/
def unsigned : Text → Text
  | '+' :: t => t
  | t => t

/-- What numerals stay below: 2^32. -/
def numeralLimit : Nat := 4294967296

/-- The number a numeral below 2^32 stands for. -/
def numeral? (t : Text) : Option Nat :=
  let ds := unsigned t
  if isDigits ds && digitsValue ds < numeralLimit then some (digitsValue ds) else none

/-- The decimal digits of a number. -/
def decimal (n : Nat) : Text := Nat.toDigits 10 n

/-- The digits of a number below 100 after the point: none for zero, one for full tenths. -/
def fraction (n : Nat) : Text :=
  if n = 0 then [] else if n % 10 = 0 then decimal (n / 10)
  else if n < 10 then '0' :: decimal n else decimal n

/-- A number of hundredths, without a point if it is whole. -/
def hundredths (n : Nat) : Text :=
  let f := fraction (n % 100)
  decimal (n / 100) ++ (if f.isEmpty then [] else '.' :: f)

/-- A number of hundredths with at least one digit after the point. -/
def hundredthsWithPoint (n : Nat) : Text :=
  let f := fraction (n % 100)
  decimal (n / 100) ++ '.' :: (if f.isEmpty then ['0'] else f)

end ImageAudit.Text
