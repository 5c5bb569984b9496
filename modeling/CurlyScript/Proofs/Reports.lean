import CurlyScript.Proofs.Tiling
import CurlyScript.Proofs.Totality
import CurlyScript.Report.Reporter

/-!
# The error flag and the reports agree

Whoever runs the front end learns of its errors in two ways: by the flag of the program and by the
records that are logged.  Both say the same.  A lexical error is reported once, and then the
reader is quiet: what it misses in the tokens that are cut off raises the flag, which is up
already, and is not reported.  Rules that are tried neither raise the flag nor report.

## Main definitions

* `Reporter.recorded` — the records that have arrived at recording sinks.
* `Reporter.Accounts` — what the records of a run have to do with its flag and its tokens.
* `Reader.Unreported` — a reader that neither reports nor raises the flag.

## Main results

* `Lexer.length_failures_collect` — a lexer fails once or not at all, and its flag tells which.
* `ReaderState.Leads.hadError_iff_findings` — a reader that is not quiet reports an error exactly
  if it raises the flag.
* `Reporter.parse_accounts` — flag and records agree in every run.
-/

namespace CurlyScript

/-! ### Errors of a lexer -/

/-- Whether an event is an error. -/
def LexerEvent.isFailure : LexerEvent → Bool
  | .failed _ _ => true
  | _ => false

/-- Whether a finding is an error. -/
def Finding.isFault (f : Finding) : Bool := f.severity == .error

namespace Lexer

variable {l : Lexer}

/-- A scan fails with one error, or not at all. -/
theorem failures_deliver (l : Lexer) (s : Scan) :
    ((l.deliver s).events.filter LexerEvent.isFailure).length =
      match (l.deliver s).item with
      | some (.error _) => 1
      | _ => 0 := by
  have hwarnings : ∀ span, (if s.zeroPower then [LexerEvent.zeroPower span] else []).filter
      LexerEvent.isFailure = [] := by
    intro span
    split <;> rfl
  unfold deliver
  simp only
  split
  · simp only [List.filter_append, hwarnings, List.nil_append]
    rfl
  · simp only [List.filter_append, hwarnings, List.nil_append]
    split <;> rfl

/-- One request brings one error, or none. -/
theorem failures_next (l : Lexer) :
    (l.next.events.filter LexerEvent.isFailure).length =
      match l.next.item with
      | some (.error _) => 1
      | _ => 0 := by
  by_cases hfailed : l.failed = true
  · simp only [next, hfailed]
    rfl
  · rw [Bool.not_eq_true] at hfailed
    rcases hrest : l.skipBlanks.rest with _ | ⟨c, cs⟩
    · rw [next_of_blank hfailed hrest]
      rfl
    · rw [next_of_cons hfailed hrest]
      exact failures_deliver _ _

/-- A request leaves the lexer failed exactly if it brings an error. -/
theorem failed_next (hfailed : l.failed = false) :
    l.next.after.failed =
      match l.next.item with
      | some (.error _) => true
      | _ => false := by
  rcases hrest : l.skipBlanks.rest with _ | ⟨c, cs⟩
  · rw [next_of_blank hfailed hrest]
    exact hfailed
  · rw [next_of_cons hfailed hrest]
    rcases houtcome : (scan c cs).outcome with cause | ⟨kind, literal⟩
    · obtain ⟨hitem, hafter⟩ := deliver_of_error (l := l.skipBlanks) houtcome
      rw [hitem, hafter]
    · obtain ⟨hitem, hafter⟩ := deliver_of_ok (l := l.skipBlanks) houtcome
      rw [hitem, hafter]
      exact hfailed

/-- A lexer fails once or not at all, and its flag tells which. -/
theorem length_failures_collect (hfailed : l.failed = false) :
    (l.collect.2.1.filter LexerEvent.isFailure).length = l.collect.2.2.failed.toNat := by
  -- what is left of the text goes down with every token
  induction hlength : l.rest.length using Nat.strong_induction_on generalizing l with
  | _ length ih =>
    have hevents := failures_next l
    have hafter := failed_next hfailed
    rcases hitem : l.next.item with _ | (t | cause)
    · rw [hitem] at hevents hafter
      rw [collect_of_none hitem, hevents, hafter]
      rfl
    · rw [hitem] at hevents hafter
      have hshorter := length_rest_next_lt hitem
      have hmore := ih _ (by omega) hafter rfl
      rw [collect_of_token hitem]
      simp only [List.filter_append, List.length_append]
      rw [hevents, hmore, Nat.zero_add]
    · rw [hitem] at hevents hafter
      rw [collect_of_error hitem, hafter]
      simp only [List.filter_append, List.length_append]
      rw [hevents]
      rfl

end Lexer

/-- The errors among the events are the errors that are found. -/
theorem length_faults_lexing (events : List LexerEvent) :
    ((findings (events.map LexerEvent.remark)).filter Finding.isFault).length =
      (events.filter LexerEvent.isFailure).length := by
  induction events with
  | nil => rfl
  | cons e events ih =>
    have happend : findings ((e :: events).map LexerEvent.remark) =
        findings [e.remark] ++ findings (events.map LexerEvent.remark) :=
      findings_append [e.remark] _
    rw [happend, List.filter_append, List.length_append, ih]
    cases e with
    | failed cause span => exact Nat.add_comm _ _
    | _ => exact Nat.zero_add _

/-- What a lexer finds is an error or less, and comes from the lexer. -/
theorem finding_of_lexing {events : List LexerEvent} {f : Finding}
    (hf : f ∈ findings (events.map LexerEvent.remark)) :
    f.severity.rank ≤ Severity.error.rank ∧ f.source = "lexer" := by
  rw [findings, List.filterMap_map, List.mem_filterMap] at hf
  obtain ⟨e, -, he⟩ := hf
  cases e with
  | zeroPower span =>
    cases he
    exact ⟨Nat.le_succ _, rfl⟩
  | failed cause span =>
    cases he
    exact ⟨Nat.le_refl _, rfl⟩
  | _ => cases he

/-- A lexer finds one error if its flag is up, and none otherwise. -/
theorem length_faults_lex (file text : String) :
    ((findings (Frontend.lex file text).2).filter Finding.isFault).length =
      (Frontend.lex file text).1.hadError.toNat := by
  have hfailures := Lexer.length_failures_collect (l := .ofText file text) rfl
  exact (length_faults_lexing _).trans hfailures

/-! ### Errors of a reader -/

/-- What a reader finds is an error, was reported, and comes from the reader. -/
theorem mem_findings_remarks {s : ReaderState} {f : Finding} :
    f ∈ findings s.remarks ↔ ∃ e, .reported e ∈ s.log ∧
      f = ⟨.error, "parser", e.cause.message, e.span⟩ := by
  rw [findings, ReaderState.remarks, List.filterMap_map, List.mem_filterMap]
  constructor
  · rintro ⟨event, hevent, hf⟩
    rw [List.mem_reverse] at hevent
    cases event <;> cases hf
    exact ⟨_, hevent, rfl⟩
  · rintro ⟨e, he, rfl⟩
    exact ⟨.reported e, List.mem_reverse.mpr he, rfl⟩

/-- A quiet reader reports nothing. -/
theorem ReaderState.Leads.findings_eq_nil {s s' : ReaderState} (h : s.Leads s')
    (hlog : s.log = []) (hquiet : s.quiet = true) : findings s'.remarks = [] := by
  obtain ⟨said, hsaid, hfits, -⟩ := h.exists_said
  rw [List.eq_nil_iff_forall_not_mem]
  intro f hf
  obtain ⟨e, he, -⟩ := mem_findings_remarks.mp hf
  rw [hsaid, hlog, List.append_nil] at he
  have hloud : s.quiet = false := hfits _ he
  rw [hquiet] at hloud
  cases hloud

/-- A reader that is not quiet reports an error exactly if it raises the flag. -/
theorem ReaderState.Leads.hadError_iff_findings {s s' : ReaderState} (h : s.Leads s')
    (hlog : s.log = []) (hquiet : s.quiet = false) (herror : s.hadError = false) :
    s'.hadError = true ↔ ∃ f, f ∈ findings s'.remarks := by
  obtain ⟨said, hsaid, hfits, hflag⟩ := h.exists_said
  rw [hlog, List.append_nil] at hsaid
  rw [hflag, herror]
  constructor
  · rintro (hno | ⟨event, hevent, hcomplaint⟩)
    · cases hno
    · -- a complaint that is not kept quiet is reported
      have hfit := hfits event hevent
      cases event with
      | reported e => exact ⟨_, mem_findings_remarks.mpr ⟨e, hsaid ▸ hevent, rfl⟩⟩
      | suppressed e =>
        rw [hquiet] at hfit
        cases hfit
      | _ => cases hcomplaint
  · rintro ⟨f, hf⟩
    obtain ⟨e, he, -⟩ := mem_findings_remarks.mp hf
    exact .inr ⟨_, hsaid ▸ he, rfl⟩

/-! ### Rules that are tried -/

namespace Reader

/-- A reader that neither reports nor raises the flag, wherever it is run and whatever it comes
to. -/
def Unreported {α : Type} (r : Reader α) : Prop := ∀ s : ReaderState,
  (endState (r s)).hadError = s.hadError ∧
    findings (endState (r s)).remarks = findings s.remarks

/-- Events that are no complaints are not found. -/
theorem findings_of_silent {said : List ReaderEvent} (h : ∀ e ∈ said, e.isComplaint = false) :
    findings (said.reverse.map ReaderEvent.remark) = [] := by
  rw [List.eq_nil_iff_forall_not_mem]
  intro f hf
  rw [findings, List.filterMap_map, List.mem_filterMap] at hf
  obtain ⟨event, hevent, hf⟩ := hf
  have hno := h event (List.mem_reverse.mp hevent)
  cases event with
  | reported e => cases hno
  | _ => cases hf

theorem Silent.unreported {α : Type} {r : Reader α} (h : Silent r) : Unreported r := by
  intro s
  obtain ⟨herror, said, hlog, hsaid⟩ := h s
  refine ⟨herror, ?_⟩
  rw [ReaderState.remarks, hlog, List.reverse_append, List.map_append, findings_append,
    findings_of_silent hsaid, List.append_nil]
  rfl

/-- A reader is silent if it keeps the outcome of a silent one, or takes it back with a word. -/
theorem silent_of_tried {α : Type} {item : Reader α} {r : Reader (Option α)} (h : Silent item)
    (hrun : ∀ s, (∃ a t, item s = .ok a t ∧ r s = .ok (some a) t) ∨
      ∃ e : ReaderEvent, e.isComplaint = false ∧
        r s = .ok none (takenBack s (endState (item s)) e)) : Silent r := by
  intro s
  obtain ⟨herror, said, hlog, hsaid⟩ := h s
  rcases hrun s with ⟨a, t, hitem, hr⟩ | ⟨e, he, hr⟩
  · rw [hitem] at herror hlog
    rw [hr]
    exact ⟨herror, said, hlog, hsaid⟩
  · rw [hr]
    refine ⟨herror, e :: said, congrArg (List.cons e) hlog, ?_⟩
    intro event hevent
    rcases List.mem_cons.mp hevent with rfl | hevent
    · exact he
    · exact hsaid event hevent

theorem silent_loopType? (keyword : Token) : Silent (loopType? keyword) := by
  refine silent_of_tried silent_typeRef fun s => ?_
  rcases loopType?_cases keyword s with ⟨type, t, hitem, -, hr⟩ | ⟨-, e, -, he, hr⟩
  · exact .inl ⟨type, t, hitem, hr⟩
  · exact .inr ⟨e, he, hr⟩

theorem silent_callTypeArguments? : Silent callTypeArguments? := by
  intro s
  let trying : ReaderEvent := .tryingGenerics s.cursor.here.span
  -- the word about the attempt comes first, and leaves the cursor where it is
  have hkept : Silent fun t : ReaderState => keptTypeArguments? t.cursor.checkpoint t := by
    refine silent_of_tried silent_typeArguments fun t => ?_
    rcases keptTypeArguments?_cases t with ⟨l, u, hitem, -, hr⟩ | ⟨-, e, -, he, hr⟩
    · exact .inl ⟨l, u, hitem, hr⟩
    · exact .inr ⟨e, he, hr⟩
  obtain ⟨herror, said, hlog, hsaid⟩ := hkept (s.note trying)
  refine ⟨herror, said ++ [trying], ?_, ?_⟩
  · rw [List.append_assoc]
    exact hlog
  · intro e he
    rcases List.mem_append.mp he with he | he
    · exact hsaid e he
    · rw [List.mem_singleton.mp he]
      rfl

end Reader

/-! ### Records -/

/-- A recording sink keeps all records in order. -/
theorem Logger.logAll_recording (kept : Array Record) (rs : List Record) :
    (Logger.sink (.recording kept)).logAll rs = .sink (.recording (kept ++ rs.toArray)) := by
  induction rs generalizing kept with
  | nil => simp
  | cons r rs ih =>
    rw [logAll_cons, log, Sink.receive, ih]
    simp

namespace Reporter

/-- The records that have arrived at recording sinks. -/
def recorded (r : Reporter) : List Record := r.logger.sinks.flatMap Sink.records

theorem recorded_logFindings (r : Reporter) (hlogger : r.logger = .recording)
    (remarks : List Remark) :
    (r.logFindings remarks).recorded = (findings remarks).map r.sources.record := by
  rw [recorded, logFindings, hlogger, Logger.recording, Logger.logAll_recording]
  simp [Logger.sinks, Sink.records, Sources.records]

/-- What the records of a run have to do with its tokens and its program. -/
structure Accounts (stream : TokenStream) (program : Program) (records : List Record) : Prop where
  /-- The flag is up exactly if an error is on record. -/
  hadError_iff : program.hadError = true ↔ ∃ r ∈ records, r.severity = .error
  /-- Nothing on record is worse than an error. -/
  rank_le : ∀ r ∈ records, r.severity.rank ≤ Severity.error.rank
  /-- A lexical error is the only error on record, and the reader says nothing. -/
  lexing_failed : stream.hadError = true →
    (∃ r, records.filter (·.severity == .error) = [r] ∧ r.source = some "lexer") ∧
    ∀ r ∈ records, r.source ≠ some "parser"
  /-- Without one, all errors on record come from the reader. -/
  lexing_done : stream.hadError = false →
    ∀ r ∈ records, r.severity = .error → r.source = some "parser"

/-- Findings account for a run as soon as those of the lexer and those of the reader do. -/
theorem accounts_of_findings {sources : Sources} {stream : TokenStream} {program : Program}
    {lexing reading : List Finding}
    (hlexing : ∀ f ∈ lexing, f.severity.rank ≤ Severity.error.rank ∧ f.source = "lexer")
    (hfaults : (lexing.filter Finding.isFault).length = stream.hadError.toNat)
    (hreading : ∀ f ∈ reading, f.severity = .error ∧ f.source = "parser")
    (hquiet : stream.hadError = true → program.hadError = true ∧ reading = [])
    (hloud : stream.hadError = false → (program.hadError = true ↔ ∃ f, f ∈ reading)) :
    Accounts stream program ((lexing ++ reading).map sources.record) := by
  have hmem : ∀ r, r ∈ (lexing ++ reading).map sources.record ↔
      (∃ f ∈ lexing, sources.record f = r) ∨ ∃ f ∈ reading, sources.record f = r := by
    intro r
    simp only [List.map_append, List.mem_append, List.mem_map]
  have hrank : ∀ r ∈ (lexing ++ reading).map sources.record,
      r.severity.rank ≤ Severity.error.rank := by
    intro r hr
    rcases (hmem r).mp hr with ⟨f, hf, rfl⟩ | ⟨f, hf, rfl⟩
    · exact (hlexing f hf).1
    · rw [Sources.record, (hreading f hf).1]
  rcases herror : stream.hadError with _ | _
  · -- the lexer has found no error, so that all errors are the reader's
    rw [herror, Bool.toNat_false, List.length_eq_zero_iff, List.filter_eq_nil_iff] at hfaults
    have hsource : ∀ r ∈ (lexing ++ reading).map sources.record, r.severity = .error →
        ∃ f ∈ reading, sources.record f = r := by
      intro r hr hseverity
      rcases (hmem r).mp hr with ⟨f, hf, rfl⟩ | hf
      · exact absurd (beq_iff_eq.mpr hseverity) (hfaults f hf)
      · exact hf
    refine ⟨?_, hrank, ?_, ?_⟩
    · rw [hloud herror]
      constructor
      · rintro ⟨f, hf⟩
        exact ⟨_, (hmem _).mpr (.inr ⟨f, hf, rfl⟩), (hreading f hf).1⟩
      · rintro ⟨r, hr, hseverity⟩
        obtain ⟨f, hf, -⟩ := hsource r hr hseverity
        exact ⟨f, hf⟩
    · intro h
      rw [herror] at h
      cases h
    · intro _ r hr hseverity
      obtain ⟨f, hf, rfl⟩ := hsource r hr hseverity
      exact congrArg some (hreading f hf).2
  · obtain ⟨hflag, hnil⟩ := hquiet herror
    rw [herror, Bool.toNat_true, List.length_eq_one_iff] at hfaults
    obtain ⟨fault, hfault⟩ := hfaults
    obtain ⟨hfaultMem, hfaultError⟩ : fault ∈ lexing ∧ fault.isFault = true := by
      rw [← List.mem_filter, hfault, List.mem_singleton]
    rw [Finding.isFault, beq_iff_eq] at hfaultError
    have hfilter : ((lexing ++ reading).map sources.record).filter (·.severity == .error) =
        [sources.record fault] := by
      have hcomp : (fun r : Record => r.severity == .error) ∘ sources.record =
          Finding.isFault := rfl
      rw [hnil, List.append_nil, List.filter_map, hcomp, hfault, List.map_singleton]
    refine ⟨?_, hrank, ?_, ?_⟩
    · rw [hflag]
      simp only [true_iff]
      exact ⟨_, (hmem _).mpr (.inl ⟨fault, hfaultMem, rfl⟩), hfaultError⟩
    · intro _
      refine ⟨⟨_, hfilter, congrArg some (hlexing fault hfaultMem).2⟩, ?_⟩
      intro r hr
      rw [hnil, List.append_nil] at hr
      obtain ⟨f, hf, rfl⟩ := List.mem_map.mp hr
      have hsource : (sources.record f).source = some "lexer" := congrArg some (hlexing f hf).2
      rw [hsource]
      decide
    · intro h
      rw [herror] at h
      cases h

/-- **The error flag and the reports agree.**

Whatever was registered before, when a text is parsed under a recording reporter the flag of the
program is up exactly if an error is on record, and nothing worse is.  After a lexical error this
is the only error on record, and no record comes from the reader; otherwise all errors come from
the reader.

The rules that are tried, for the type arguments of a call and for the type of the variable of a
loop, report nothing and leave the flag alone in every state, also when they are abandoned. -/
theorem parse_accounts :
    (∀ (sources : Sources) (file text : String),
      Accounts (Frontend.lex file text).1
        (({ sources, logger := .recording } : Reporter).parse file text).1
        (({ sources, logger := .recording } : Reporter).parse file text).2.recorded) ∧
    Reader.Unreported Reader.callTypeArguments? ∧
    ∀ keyword, Reader.Unreported (Reader.loopType? keyword) := by
  refine ⟨?_, Reader.silent_callTypeArguments?.unreported,
    fun keyword => (Reader.silent_loopType? keyword).unreported⟩
  intro sources file text
  let stream := (Frontend.lex file text).1
  let final := (Reader.parse (.ofStream stream)).2
  have hleads : (ReaderState.ofStream stream).Leads final :=
    (Reader.parse_spec (Reader.placed_ofStream stream)).1
  have hfindings : findings (Frontend.parse file text).2 =
      findings (Frontend.lex file text).2 ++ findings final.remarks := by
    obtain ⟨summary, hremarks⟩ : ∃ summary, (Frontend.parse file text).2 =
        (Frontend.lex file text).2 ++ final.remarks ++ [.note summary] := ⟨_, rfl⟩
    rw [hremarks, findings_append, findings_append]
    exact List.append_nil _
  have hrecords : (({ sources, logger := .recording } : Reporter).parse file text).2.recorded =
      (findings (Frontend.lex file text).2 ++ findings final.remarks).map
        (sources.register file text).record := by
    rw [← hfindings]
    exact recorded_logFindings
      (({ sources, logger := .recording } : Reporter).register file text) rfl _
  rw [hrecords]
  refine accounts_of_findings (fun f hf => finding_of_lexing hf) (length_faults_lex file text)
    ?_ ?_ ?_
  · intro f hf
    obtain ⟨e, -, rfl⟩ := mem_findings_remarks.mp hf
    exact ⟨rfl, rfl⟩
  · intro herror
    obtain ⟨said, -, -, hflag⟩ := hleads.exists_said
    exact ⟨hflag.mpr (.inl herror), hleads.findings_eq_nil rfl herror⟩
  · intro herror
    exact hleads.hadError_iff_findings rfl herror herror

end Reporter
end CurlyScript
