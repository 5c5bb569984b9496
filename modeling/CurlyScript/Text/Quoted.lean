import CurlyScript.Text.Combining
import CurlyScript.Text.Unprintable

/-!
# Quoted text

A text or a character written so that every character of it can be seen: control
characters, combining characters and the backslash become escapes.  Which of the two quotes
is escaped depends on the quote that stands around the text.

## Main definitions

* `Text.Escaping` — which quotes are escaped.
* `Text.escape` — one character written out.
* `Text.quote`, `Text.quoteChar` — a text in double quotes, a character in single ones.
-/

namespace CurlyScript
namespace Text

/-- Which quotes an escaped text may not show bare. -/
structure Escaping where
  /-- The double quote is written with a backslash. -/
  double : Bool
  /-- The single quote is written with a backslash. -/
  single : Bool

/-- Between double quotes only the double quote is escaped. -/
def Escaping.inDouble : Escaping := ⟨true, false⟩

/-- Between single quotes only the single quote is escaped. -/
def Escaping.inSingle : Escaping := ⟨false, true⟩

/-- Outside of quotes both are escaped. -/
def Escaping.both : Escaping := ⟨true, true⟩

/-- A character by its code point, in lower-case hexadecimal digits between braces. -/
def escapeCode (c : Char) : List Char :=
  '\\' :: 'u' :: '{' :: Nat.toDigits 16 c.toNat ++ ['}']

/-- A character written out.  The five characters with a letter of their own come first,
then the quotes, then everything that would not be seen by itself. -/
def escape (mode : Escaping) (c : Char) : List Char :=
  if c = '\x00' then ['\\', '0']
  else if c = '\t' then ['\\', 't']
  else if c = '\r' then ['\\', 'r']
  else if c = '\n' then ['\\', 'n']
  else if c = '\\' then ['\\', '\\']
  else if c = '"' then (if mode.double then ['\\', '"'] else ['"'])
  else if c = '\'' then (if mode.single then ['\\', '\''] else ['\''])
  else if 0x20 ≤ c.toNat ∧ c.toNat < 0x7F then [c]
  else if isCombining c || !isPrintable c then escapeCode c
  else [c]

/-- A text in double quotes. -/
def quote (text : String) : String :=
  String.ofList ('"' :: text.toList.flatMap (escape .inDouble) ++ ['"'])

/-- A character in single quotes. -/
def quoteChar (c : Char) : String :=
  String.ofList ('\'' :: escape .inSingle c ++ ['\''])

end Text
end CurlyScript
