/-!
# Severities

How serious a report is, from least to most.

## Main definitions

* `Severity` — the five levels.
* `Severity.rank` — their order, as a number.
* `Severity.isError` — whether a report means that its unit failed.
* `Severity.padded` — the name of a level, as wide as the longest one.

## References

`SPEC_FULL.md`, section E3.
-/

namespace CurlyScript

/-- How serious a report is. -/
inductive Severity
  /-- A remark for the developers of a program. -/
  | debug
  /-- A remark for its users. -/
  | info
  /-- Something that may be wrong. -/
  | warn
  /-- Something that is wrong. -/
  | error
  /-- Something that is wrong beyond the unit at hand. -/
  | severe
  deriving DecidableEq

namespace Severity

/-- Every level, the least serious first. -/
def all : List Severity := [.debug, .info, .warn, .error, .severe]

/-- The place of a level in the order. -/
def rank : Severity → Nat
  | .debug => 0
  | .info => 1
  | .warn => 2
  | .error => 3
  | .severe => 4

/-- Whether a level is at or above another one. -/
def atLeast (a b : Severity) : Bool := b.rank ≤ a.rank

/-- The name of a level. -/
def name : Severity → String
  | .debug => "Debug"
  | .info => "Info"
  | .warn => "Warn"
  | .error => "Error"
  | .severe => "Severe"

/-- The level with a given name. -/
def ofName? (name : String) : Option Severity := all.find? fun level => level.name == name

/-- Whether reports of this level mean that their unit failed. -/
def isError (a : Severity) : Bool := a.atLeast .error

/-- The name of a level, filled up with blanks to the width of the longest one. -/
def padded (a : Severity) : String :=
  a.name ++ String.ofList (List.replicate (6 - a.name.length) ' ')

end Severity
end CurlyScript
