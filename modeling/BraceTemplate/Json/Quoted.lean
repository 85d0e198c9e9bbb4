import BraceTemplate.Json.Basic

/-! Strings between quotation marks, written and read one character at a time.
The reader is strict or lax: a lax one, for strings whose value is not wanted,
takes a surrogate escape without its other half. -/
namespace BraceTemplate

/-- Why a text was refused. -/
inductive Fault where
  /-- The text ends too early. -/
  | truncated
  /-- The text is not JSON. -/
  | malformed
  /-- A value has the wrong type, or a field is given twice. -/
  | mismatched
  deriving DecidableEq, Repr

namespace Json

/-- The letters that stand for control characters after a backslash. -/
def shortEscapes : List (Char × Char) :=
  [('b', '\x08'), ('f', '\x0c'), ('n', '\n'), ('r', '\r'), ('t', '\t')]

def isControl (c : Char) : Bool := c.toNat < 0x20

/-- Quotation marks, backslashes and control characters are escaped. -/
def escapeChar (c : Char) : Text :=
  if c = '"' then ['\\', '"']
  else if c = '\\' then ['\\', '\\']
  else match shortEscapes.find? fun short => short.2 = c with
    | some short => ['\\', short.1]
    | none =>
      if isControl c then
        ['\\', 'u', '0', '0', Nat.digitChar (c.toNat / 16), Nat.digitChar (c.toNat % 16)]
      else [c]

def quote (t : Text) : Text := '"' :: (t.flatMap escapeChar ++ ['"'])

def hexDigit? (c : Char) : Option Nat :=
  if '0' ≤ c ∧ c ≤ '9' then some (c.toNat - '0'.toNat)
  else if 'a' ≤ c ∧ c ≤ 'f' then some (c.toNat - 'a'.toNat + 10)
  else if 'A' ≤ c ∧ c ≤ 'F' then some (c.toNat - 'A'.toNat + 10)
  else none

def isHighSurrogate (code : Nat) : Bool := 0xD800 ≤ code && code ≤ 0xDBFF

def isLowSurrogate (code : Nat) : Bool := 0xDC00 ≤ code && code ≤ 0xDFFF

/-- The code point of a pair of surrogates. -/
def pairCode (high low : Nat) : Nat := 0x10000 + (high - 0xD800) * 0x400 + (low - 0xDC00)

/-- How far an escape has been read. -/
inductive Escape where
  | outside
  | backslash
  /-- Four octets of hexadecimal digits are due, of which some have been seen; the code is
  lost once an octet was no digit. A high surrogate may have come before. -/
  | hex (high : Option Nat) (seen : Nat) (code : Option Nat)
  /-- The other half of a pair is due, from its backslash on. -/
  | half (high : Nat)
  /-- The other half of a pair is due, its backslash already read. -/
  | halfMark (high : Nat)
  deriving DecidableEq, Repr

/-- A string whose opening quotation mark has been read; its characters stand in reverse. -/
structure Quoted where
  seen : Text
  escape : Escape
  deriving DecidableEq, Repr

namespace Quoted

def start : Quoted := ⟨[], .outside⟩

def push (q : Quoted) (c : Char) : Quoted := ⟨c :: q.seen, .outside⟩

/-- A whole hexadecimal escape has been read. -/
def pushCode (q : Quoted) (strict : Bool) : Option Nat → Nat → Except Fault Quoted
  | some high, code =>
    if isLowSurrogate code then .ok (q.push (Char.ofNat (pairCode high code)))
    else .error .malformed
  | none, code =>
    if !strict then .ok (q.push (Char.ofNat code))
    else if isLowSurrogate code then .error .malformed
    else if isHighSurrogate code then .ok { q with escape := .half code }
    else .ok (q.push (Char.ofNat code))

/-- Reads one character; the second case is the closing quotation mark. -/
def step (strict : Bool) (q : Quoted) (c : Char) : Except Fault (Quoted ⊕ Text) :=
  match q.escape with
  | .outside =>
    if c = '"' then .ok (.inr q.seen.reverse)
    else if c = '\\' then .ok (.inl { q with escape := .backslash })
    else if isControl c then .error .malformed
    else .ok (.inl (q.push c))
  | .backslash =>
    if c = 'u' then .ok (.inl { q with escape := .hex none 0 (some 0) })
    else if c = '"' ∨ c = '\\' ∨ c = '/' then .ok (.inl (q.push c))
    else match shortEscapes.lookup c with
      | some control => .ok (.inl (q.push control))
      | none => .error .malformed
  | .hex high seen code =>
    let code := code.bind fun n => (hexDigit? c).map (n * 16 + ·)
    let seen := seen + c.utf8Size
    if seen < 4 then .ok (.inl { q with escape := .hex high seen code })
    else match code with
      | some n => (q.pushCode strict high n).map .inl
      | none => .error .malformed
  | .half high =>
    if c = '\\' then .ok (.inl { q with escape := .halfMark high }) else .error .malformed
  | .halfMark high =>
    if c = 'u' then .ok (.inl { q with escape := .hex (some high) 0 (some 0) })
    else .error .malformed

end Quoted
end Json
end BraceTemplate
