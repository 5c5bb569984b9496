import CurlyScript.Report.Severity

/-!
# Records

A report on its way to whoever reads it.  It may carry the name of its source, a path of names
joined by dots: every stage that hands a record on can put its own name in front.

## Main definitions

* `Record` — severity, source and message.
* `Record.tagged` — the record with a name in front of its source.

## References

`SPEC_FULL.md`, section E3, under `PrefixedLogger`.
-/

namespace CurlyScript

/-- A message as it is delivered. -/
structure Record where
  /-- How serious it is. -/
  severity : Severity
  /-- Where it comes from. -/
  source : Option String
  /-- What it says. -/
  message : String
  deriving DecidableEq

namespace Record

/-- The source of a record after a name is put in front of it. -/
def sourceUnder (tag : String) : Option String → String
  | none => tag
  | some source => tag ++ "." ++ source

/-- A record with a name in front of its source. -/
def tagged (tag : String) (r : Record) : Record :=
  { r with source := some (sourceUnder tag r.source) }

@[simp] theorem severity_tagged (tag : String) (r : Record) :
    (r.tagged tag).severity = r.severity := rfl

@[simp] theorem message_tagged (tag : String) (r : Record) :
    (r.tagged tag).message = r.message := rfl

end Record
end CurlyScript
