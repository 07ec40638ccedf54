import ToastBoard.Json.Literal
import ToastBoard.Text.Graphic

/-!
# Quoted texts

A text between quotes, as it is shown for inspection: quote, backslash and the common controls
have short escapes, every other character that is not graphic is written by its number.
-/

namespace ToastBoard

namespace Text

/-- The lower-case hexadecimal digits of a number, without zeros in front; so many at most. -/
def hexDigits : Nat → Nat → List Char
  | 0, _ => []
  | width + 1, n => if n < 16 then [hexDigit n] else hexDigits width (n / 16) ++ [hexDigit (n % 16)]

/-- A character by its number. -/
def byNumber (c : Char) : List Char :=
  ['\\', 'u', '\x7b'] ++ hexDigits 6 c.toNat ++ ['\x7d']

/-- What stands for a character between quotes. -/
def quotedChar (c : Char) : List Char :=
  if c = '\x00' then ['\\', '0']
  else if c = '\t' then ['\\', 't']
  else if c = '\r' then ['\\', 'r']
  else if c = '\n' then ['\\', 'n']
  else if c = '\\' then ['\\', '\\']
  else if c = '"' then ['\\', '"']
  else if isGraphic c then [c]
  else byNumber c

/-- A text between quotes. -/
def quoted (s : String) : String :=
  String.ofList ('"' :: (s.toList.flatMap quotedChar ++ ['"']))

end Text

end ToastBoard
