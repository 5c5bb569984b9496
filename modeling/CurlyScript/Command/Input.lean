import CurlyScript.Text.Split
import CurlyScript.Text.Utf8

/-!
# Standard input as lines

Each line of standard input is a source of its own.  A line ends with a line feed; the last line
may lack it, and there is no line after a line feed at the end.

## Main definitions

* `Input.rawLines` — the lines of some bytes, with what ends them.
* `Input.chomp` — a line without what ends it.
* `Input.text` — a line as text.
* `Input.name` — what the source of a line is called.

## References

`SPEC_FULL.md`, section E4.
-/

namespace CurlyScript
namespace Input

/-- The byte that ends a line. -/
def lineFeed : UInt8 := 10

/-- The byte that may stand before a line feed and then also belongs to the end of the line. -/
def carriageReturn : UInt8 := 13

/-- The lines of some bytes, with what ends them. -/
def rawLines : List UInt8 → List (List UInt8)
  | [] => []
  | b :: rest => if b = lineFeed then [b] :: rawLines rest
    else Text.extendFirst b (rawLines rest)

/-- A line without a carriage return at its end. -/
def withoutReturn (line : List UInt8) : List UInt8 :=
  if line.getLast? = some carriageReturn then line.dropLast else line

/-- A line without what ends it.  A carriage return stays when no line feed follows it. -/
def chomp (line : List UInt8) : List UInt8 :=
  if line.getLast? = some lineFeed then withoutReturn line.dropLast else line

/-- A line as text. -/
def text (line : List UInt8) : String := String.ofList (Text.decode (chomp line))

/-- What the source of a line is called.  Lines are counted from one. -/
def name (index : Nat) : String := s!"stdin:{index}"

end Input
end CurlyScript
