import BraceTemplate.Json.Quoted

/-! Numbers, written and read one character at a time. A number has no mark of its
end, so its reader is asked at each character whether the number goes on. -/
namespace BraceTemplate

namespace Number

def intText : Int → Text
  | .ofNat n => Nat.toDigits 10 n
  | .negSucc n => '-' :: Nat.toDigits 10 (n + 1)

/-- A double is written with a point, and with all its digits: the text has its exact value and
is in general not the shortest one that stands for it. -/
def text : Number → Text
  | int value => intText value
  | double negative magnitude =>
    let (digits, power) := magnitude.toDecimal
    (if negative then ['-'] else []) ++ Nat.toDigits 10 digits ++ ".0".toList ++
      if power = 0 then [] else 'e' :: intText power

end Number

namespace Json

/-- The part of a number that was read last. -/
inductive NumeralPart where
  | sign
  | zero
  | whole
  | point
  | fraction
  | mark
  | markSign
  | power
  deriving DecidableEq, Repr

structure Numeral where
  part : NumeralPart
  negative : Bool
  /-- The digits before and after the point, read as one number of at most 64 bits. -/
  digits : Nat
  /-- No further digit of this part fits. -/
  full : Bool
  /-- The power of ten that the digits alone call for. -/
  shift : Int
  powerNegative : Bool
  power : Nat
  deriving DecidableEq, Repr

namespace Numeral

def digitOf (c : Char) : Nat := c.toNat - '0'.toNat

/-- The number that starts with a sign or a digit. -/
def start (c : Char) : Option Numeral :=
  if c = '-' then some ⟨.sign, true, 0, false, 0, false, 0⟩
  else if c = '0' then some ⟨.zero, false, 0, false, 0, false, 0⟩
  else if c.isDigit then some ⟨.whole, false, digitOf c, false, 0, false, 0⟩
  else none

/-- Whether one more digit can be taken in. -/
def hasRoom (n : Numeral) (c : Char) : Bool := !n.full && n.digits * 10 + digitOf c < Nat.pow 2 64

/-- A digit before the point; one without room counts as a place. -/
def pushWhole (n : Numeral) (c : Char) : Numeral :=
  if n.hasRoom c then { n with part := .whole, digits := n.digits * 10 + digitOf c }
  else { n with part := .whole, full := true, shift := n.shift + 1 }

/-- A digit after the point; one without room does not count. -/
def pushFraction (n : Numeral) (c : Char) : Numeral :=
  if n.hasRoom c then
    { n with part := .fraction, digits := n.digits * 10 + digitOf c, shift := n.shift - 1 }
  else { n with part := .fraction, full := true }

def pushPower (n : Numeral) (c : Char) : Numeral :=
  { n with part := .power, power := n.power * 10 + digitOf c }

/-- The point or the exponent mark that may follow a digit. -/
def continuation (n : Numeral) (c : Char) : Option Numeral :=
  if c = '.' ∧ (n.part = .zero ∨ n.part = .whole) then some { n with part := .point }
  else if c = 'e' ∨ c = 'E' then some { n with part := .mark }
  else none

/-- Reads one character; nothing if the number ended before it. -/
def step (n : Numeral) (c : Char) : Except Fault (Option Numeral) :=
  match n.part with
  | .sign =>
    if c = '0' then .ok (some { n with part := .zero })
    else if c.isDigit then .ok (some (n.pushWhole c))
    else .error .malformed
  | .zero => if c.isDigit then .error .malformed else .ok (n.continuation c)
  | .whole => if c.isDigit then .ok (some (n.pushWhole c)) else .ok (n.continuation c)
  | .point =>
    if c.isDigit then .ok (some ({ n with full := false }.pushFraction c))
    else .error .malformed
  | .fraction => if c.isDigit then .ok (some (n.pushFraction c)) else .ok (n.continuation c)
  | .mark =>
    if c = '+' then .ok (some { n with part := .markSign })
    else if c = '-' then .ok (some { n with part := .markSign, powerNegative := true })
    else if c.isDigit then .ok (some (n.pushPower c))
    else .error .malformed
  | .markSign => if c.isDigit then .ok (some (n.pushPower c)) else .error .malformed
  | .power => if c.isDigit then .ok (some (n.pushPower c)) else .ok none

/-- The number may end here. -/
def isComplete (n : Numeral) : Bool :=
  match n.part with
  | .zero | .whole | .fraction | .power => true
  | .sign | .point | .mark | .markSign => false

/-- All digits were taken in, and there is no point and no exponent. -/
def isWhole (n : Numeral) : Bool := (n.part == .zero || n.part == .whole) && !n.full

def exponent (n : Numeral) : Int :=
  n.shift + if n.powerNegative then -(n.power : Int) else n.power

/-- The number that was read, unless it is beyond the range of doubles. A negative zero is no
whole number. -/
def value? (n : Numeral) : Option Number :=
  if n.isWhole && !n.negative then some (.int n.digits)
  else if n.isWhole && n.digits ≠ 0 && n.digits ≤ Nat.pow 2 63 then some (.int (-n.digits))
  else (Double.ofDecimal? n.digits n.exponent).map (.double n.negative)

end Numeral
end Json
end BraceTemplate
