import CurlyScript.Report.Writer

/-!
# Trees of loggers

Records arrive at a logger, which hands them on to its sinks.  A combined logger hands a record
to each of its parts; a tagged logger puts a name in front of the source of each record.  The
sinks at the leaves keep what arrives.

## Main definitions

* `TraceEvent` — a record as a watcher of the running program sees it.
* `Sink` — a leaf, with all that has arrived there.
* `Logger` — the tree.
* `Logger.log` — the tree after a record.
* `Logger.sinks` — its leaves from left to right.

## References

`SPEC_FULL.md`, section 6, and section E3 for the sinks.
-/

namespace CurlyScript

/-! ### Events -/

/-- How important an event is. -/
inductive TraceLevel
  /-- For developers. -/
  | debug
  /-- For users. -/
  | info
  /-- A possible mistake. -/
  | warn
  /-- A mistake. -/
  | error
  deriving DecidableEq

/-- The name of a level. -/
def TraceLevel.name : TraceLevel → String
  | .debug => "DEBUG"
  | .info => "INFO"
  | .warn => "WARN"
  | .error => "ERROR"

/-- A record as a watcher of the running program sees it. -/
structure TraceEvent where
  /-- How important it is. -/
  level : TraceLevel
  /-- What it says. -/
  message : String
  /-- Where it comes from. -/
  source : Option String
  /-- Whether it is beyond an ordinary error. -/
  severe : Bool
  deriving DecidableEq

/-- The level at which records of a severity are seen. -/
def Severity.traceLevel : Severity → TraceLevel
  | .debug => .debug
  | .info => .info
  | .warn => .warn
  | .error => .error
  | .severe => .error

/-- The event of a record. -/
def TraceEvent.ofRecord (r : Record) : TraceEvent :=
  { level := r.severity.traceLevel, message := r.message, source := r.source
    severe := r.severity == .severe }

/-! ### Sinks -/

/-- A leaf of a tree of loggers, with all that has arrived there. -/
inductive Sink
  /-- Keeps the records. -/
  | recording (records : Array Record)
  /-- Writes the records as text. -/
  | writing (writer : Writer)
  /-- Keeps the records as events. -/
  | tracing (events : Array TraceEvent)

namespace Sink

/-- A sink after a record. -/
def receive : Sink → Record → Sink
  | .recording records, r => .recording (records.push r)
  | .writing writer, r => .writing (writer.receive r)
  | .tracing events, r => .tracing (events.push (.ofRecord r))

/-- The records that a sink keeps. -/
def records : Sink → List Record
  | .recording records => records.toList
  | _ => []

/-- The records of one severity that a sink keeps. -/
def withSeverity (s : Sink) (severity : Severity) : List Record :=
  s.records.filter (·.severity == severity)

/-- Whether a sink keeps a record that means a failure. -/
def hasErrors (s : Sink) : Bool := s.records.any (·.severity.isError)

end Sink

/-! ### Trees -/

/-- A tree of loggers. -/
inductive Logger
  /-- A leaf. -/
  | sink (s : Sink)
  /-- Hands every record to all of its parts, from left to right. -/
  | combined (parts : List Logger)
  /-- Puts a name in front of the source of every record. -/
  | tagged (tag : String) (inner : Logger)

namespace Logger

/-- An empty recording sink. -/
def recording : Logger := .sink (.recording #[])

/-- An empty tracing sink. -/
def tracing : Logger := .sink (.tracing #[])

/-- A writer that has not written yet. -/
def writing (writer : Writer) : Logger := .sink (.writing writer)

/-- Adds a logger after the others. -/
def push : Logger → Logger → Logger
  | .combined parts, last => .combined (parts ++ [last])
  | logger, last => .combined [logger, last]

mutual

/-- A tree after a record has arrived at its root. -/
def log : Logger → Record → Logger
  | .sink s, r => .sink (s.receive r)
  | .combined parts, r => .combined (logParts parts r)
  | .tagged tag inner, r => .tagged tag (inner.log (r.tagged tag))

/-- Several trees after a record has arrived at each of their roots. -/
def logParts : List Logger → Record → List Logger
  | [], _ => []
  | part :: parts, r => part.log r :: logParts parts r

end

/-- A tree after some records have arrived at its root. -/
def logAll (logger : Logger) (records : List Record) : Logger := records.foldl log logger

mutual

/-- The sinks of a tree from left to right. -/
def sinks : Logger → List Sink
  | .sink s => [s]
  | .combined parts => partSinks parts
  | .tagged _ inner => inner.sinks

/-- The sinks of several trees from left to right. -/
def partSinks : List Logger → List Sink
  | [] => []
  | part :: parts => part.sinks ++ partSinks parts

end

@[simp] theorem logAll_nil (logger : Logger) : logger.logAll [] = logger := rfl

@[simp] theorem logAll_cons (logger : Logger) (r : Record) (rs : List Record) :
    logger.logAll (r :: rs) = (logger.log r).logAll rs := rfl

theorem logAll_append (logger : Logger) (as bs : List Record) :
    logger.logAll (as ++ bs) = (logger.logAll as).logAll bs := List.foldl_append

end Logger
end CurlyScript
