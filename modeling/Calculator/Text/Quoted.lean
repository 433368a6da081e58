import Calculator.Text.Printable

/-!
# Calculator.Text.Quoted

Quoted text: a text between quotation marks in which the marks, the backslash and every character
that cannot be shown are written as escapes. Single marks are used unless the text holds a single
mark and no double one.
-/

namespace Calculator
namespace Quoted

def hexDigit (n : Nat) : Char :=
  if n < 10 then Char.ofNat (48 + n) else Char.ofNat (87 + n)

/-- The lowest `width` hexadecimal digits of a number. -/
def hex : Nat → Nat → List Char
  | 0, _ => []
  | width + 1, n => hex width (n / 16) ++ [hexDigit (n % 16)]

/-- A character as it stands between marks of the given kind. -/
def encodeChar (mark c : Char) : List Char :=
  let n := c.toNat
  if c == mark || c == '\\' then ['\\', c]
  else if c == '\t' then ['\\', 't']
  else if c == '\n' then ['\\', 'n']
  else if c == '\r' then ['\\', 'r']
  else if isPrintable c then [c]
  else if n < 0x100 then '\\' :: 'x' :: hex 2 n
  else if n < 0x10000 then '\\' :: 'u' :: hex 4 n
  else '\\' :: 'U' :: hex 8 n

/-- The mark that a text is quoted with. -/
def markOf (cs : List Char) : Char :=
  if cs.any (·.toNat == 39) && !cs.any (·.toNat == 34) then Char.ofNat 34 else Char.ofNat 39

def encode (cs : List Char) : List Char :=
  let mark := markOf cs
  mark :: cs.flatMap (encodeChar mark) ++ [mark]

end Quoted

def quote (s : String) : String := String.ofList (Quoted.encode s.toList)

end Calculator
