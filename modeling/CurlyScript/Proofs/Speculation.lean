import CurlyScript.Proofs.Reports

/-!
# Trying a rule leaves no trace

A reader that is not sure what comes next tries a rule and goes back if it does not fit.  What was
split on the way is put together again, place by place, while splits that were made before stay.
So nobody who looks at the tokens can tell that anything was tried.

What can happen between taking a checkpoint and going back to it is written down as a course: a
sequence of the steps that readers are made of, in which every attempt is closed before the
sequence goes on.  Courses reach exactly the states that `ReaderState.Leads` allows, and the rules
of the grammar follow courses.

## Main definitions

* `Course`, `Course.run` — a well-nested sequence of steps, and the state that it leads to.
* `Reader.LeavesNoTrace` — an attempt that changes nothing that can be seen when it is given up.
* `Reader.FollowsCourses` — the rules of the grammar take a state to one that a course reaches.

## Main results

* `Course.leads_iff_exists` — courses reach the states that readers may be taken to.
* `Cursor.undoAll_of_reaches` — undoing all splits gives back the tokens of the start.
* `Reader.speculation_leaves_no_trace` — going back restores tokens, place and splits in every
  state that can be reached, and an attempt that is given up reports nothing.
-/

namespace CurlyScript

/-! ### Courses -/

/-- A well-nested sequence of the steps that readers are made of. -/
inductive Course
  /-- No step. -/
  | done
  /-- Past the next token, and on. -/
  | advance (next : Course)
  /-- Past the first half of a shift, and on. -/
  | splitShift (next : Course)
  /-- A word about something that is no error, and on. -/
  | note (e : ReaderEvent) (he : e.isComplaint = false) (next : Course)
  /-- A report of an error, and on. -/
  | report (e : SyntaxError) (next : Course)
  /-- A checkpoint, steps that are tried, back to the checkpoint, and on. -/
  | attempt (tried next : Course)

namespace Course

/-- The state that a course leads to. -/
def run : Course → ReaderState → ReaderState
  | .done, s => s
  | .advance next, s => next.run { s with cursor := s.cursor.advance }
  | .splitShift next, s => next.run { s with cursor := s.cursor.splitShift }
  | .note e _ next, s => next.run (s.note e)
  | .report e next, s => next.run (s.report e)
  | .attempt tried next, s =>
    let t := tried.run s
    next.run { t with cursor := t.cursor.restore s.cursor.checkpoint }

/-- One course after another. -/
def andThen : Course → Course → Course
  | .done, later => later
  | .advance next, later => .advance (next.andThen later)
  | .splitShift next, later => .splitShift (next.andThen later)
  | .note e he next, later => .note e he (next.andThen later)
  | .report e next, later => .report e (next.andThen later)
  | .attempt tried next, later => .attempt tried (next.andThen later)

@[simp] theorem run_done (s : ReaderState) : done.run s = s := rfl

@[simp] theorem run_andThen (first later : Course) (s : ReaderState) :
    (first.andThen later).run s = later.run (first.run s) := by
  induction first generalizing s with
  | done => rfl
  | advance next ih => exact ih _
  | splitShift next ih => exact ih _
  | note e he next ih => exact ih _
  | report e next ih => exact ih _
  | attempt tried next _ ih => exact ih _

/-! ### Where courses lead -/

theorem fits_of_not_complaint {e : ReaderEvent} (he : e.isComplaint = false) (quiet : Bool) :
    e.Fits quiet := by
  cases e with
  | reported => cases he
  | suppressed => cases he
  | _ => trivial

/-- A complaint that can happen is what a report comes to. -/
theorem exists_report_of_complaint {e : ReaderEvent} {quiet : Bool} (he : e.isComplaint = true)
    (hfits : e.Fits quiet) :
    ∃ error, e = if quiet then .suppressed error else .reported error := by
  cases e with
  | reported error => exact ⟨error, by rw [show quiet = false from hfits]; rfl⟩
  | suppressed error => exact ⟨error, by rw [show quiet = true from hfits]; rfl⟩
  | _ => cases he

/-- A course takes a state where a reader may take it. -/
theorem leads_run (course : Course) (s : ReaderState) : s.Leads (course.run s) := by
  induction course generalizing s with
  | done => exact .refl s
  | advance next ih => exact (ReaderState.Leads.of_reaches (.advance (.refl _))).trans (ih _)
  | splitShift next ih => exact (ReaderState.Leads.of_reaches (.splitShift (.refl _))).trans (ih _)
  | note e he next ih =>
    exact (s.leads_note e (fits_of_not_complaint he _) he).trans (ih _)
  | report e next ih => exact (s.leads_report e).trans (ih _)
  | attempt tried next ihTried ih =>
    have htried := ihTried s
    have hback : s.Leads
        { tried.run s with cursor := (tried.run s).cursor.restore s.cursor.checkpoint } :=
      ⟨(Cursor.Reaches.refl _).attempt htried.reaches, htried.quiet_eq, htried.exists_said⟩
    exact hback.trans (ih _)

/-- A course for the moves of a cursor. -/
theorem exists_of_reaches {c d : Cursor} (h : c.Reaches d) :
    ∃ course : Course, ∀ s : ReaderState, s.cursor = c → course.run s = { s with cursor := d } := by
  induction h with
  | refl c =>
    refine ⟨.done, ?_⟩
    rintro s rfl
    rfl
  | advance _ ih =>
    obtain ⟨course, hcourse⟩ := ih
    refine ⟨course.andThen (.advance .done), fun s hs => ?_⟩
    rw [run_andThen, hcourse s hs]
    rfl
  | splitShift _ ih =>
    obtain ⟨course, hcourse⟩ := ih
    refine ⟨course.andThen (.splitShift .done), fun s hs => ?_⟩
    rw [run_andThen, hcourse s hs]
    rfl
  | attempt _ _ ih ihTried =>
    obtain ⟨course, hcourse⟩ := ih
    obtain ⟨tried, htried⟩ := ihTried
    refine ⟨course.andThen (.attempt tried .done), fun s hs => ?_⟩
    rw [run_andThen, hcourse s hs, run, htried _ rfl]
    rfl

/-- A course for what a reader says. -/
theorem exists_of_said {s : ReaderState} (said : List ReaderEvent)
    (hfits : ∀ e ∈ said, e.Fits s.quiet) :
    ∃ course : Course, course.run s =
      { s with
        log := said ++ s.log
        hadError := s.hadError || said.any ReaderEvent.isComplaint } := by
  induction said with
  | nil => exact ⟨.done, by simp⟩
  | cons e said ih =>
    -- the latest event comes first, so that its step is the last one
    obtain ⟨hfit, hfits⟩ := List.forall_mem_cons.mp hfits
    obtain ⟨course, hcourse⟩ := ih hfits
    rcases hcomplaint : e.isComplaint with _ | _
    · refine ⟨course.andThen (.note e hcomplaint .done), ?_⟩
      rw [run_andThen, hcourse]
      simp [run, ReaderState.note, hcomplaint]
    · obtain ⟨error, rfl⟩ := exists_report_of_complaint hcomplaint hfit
      refine ⟨course.andThen (.report error .done), ?_⟩
      rw [run_andThen, hcourse]
      simp [run, ReaderState.report, hcomplaint]

/-- Courses reach the states that readers may be taken to, and no others. -/
theorem leads_iff_exists {s t : ReaderState} : s.Leads t ↔ ∃ course : Course, course.run s = t := by
  constructor
  · intro h
    obtain ⟨said, hlog, hfits, herror⟩ := h.exists_said
    -- moves do not depend on what is said, so that all of them may come first
    obtain ⟨moves, hmoves⟩ := exists_of_reaches h.reaches
    obtain ⟨words, hwords⟩ := exists_of_said (s := { s with cursor := t.cursor }) said hfits
    refine ⟨moves.andThen words, ?_⟩
    have hflag : (s.hadError || said.any ReaderEvent.isComplaint) = t.hadError := by
      rw [Bool.eq_iff_iff, herror, Bool.or_eq_true, List.any_eq_true]
    rw [run_andThen, hmoves s rfl, hwords]
    simp only [hflag, ← hlog, ← h.quiet_eq]
  · rintro ⟨course, rfl⟩
    exact course.leads_run s

end Course

/-! ### Undoing everything -/

/-- Whatever is reached from the start of some tokens, undoing all splits gives the tokens of the
start. -/
theorem Cursor.undoAll_of_reaches {tokens : List Token} {c : Cursor}
    (h : (ofTokens tokens).Reaches c) : undoAll c.splits c.tokens = withEnd tokens := by
  obtain ⟨-, htokens, -, hsplits⟩ := ofTokens_spec tokens
  obtain ⟨made, hmade, hundo, hstop, hbeyond, hbound⟩ := h.exists_undo
  -- at the start there are no splits, so that all that stand were made since
  have hin := hbound [] trivial
  rw [List.append_nil] at hin
  rw [hsplits, List.append_nil] at hmade
  rw [hmade, tokens_eq_body, hin.undoAll_append, hundo, hstop, hbeyond, ← tokens_eq_body, htokens]

/-! ### Rules -/

namespace Reader

/-- An attempt comes to a result.  If it is given up, the cursor with its tokens, its place and its
splits is as it was, and so are the flag and all that was found. -/
def LeavesNoTrace {α : Type} (r : Reader (Option α)) (s : ReaderState) : Prop :=
  ∃ found t, r s = .ok found t ∧ (found = none →
    t.cursor = s.cursor ∧ t.hadError = s.hadError ∧ findings t.remarks = findings s.remarks)

/-- The rules of the grammar, and the attempts among them, take a state to one that a course
reaches, be it by a failure. -/
structure FollowsCourses (s : ReaderState) : Prop where
  /-- Types, whatever bound for what is left to read they are given. -/
  types : ∀ fuel what, s.cursor.remaining ≤ fuel →
    ∃ course : Course, course.run s = endState (typeAt fuel what s)
  /-- Lists of type arguments. -/
  typeArguments : ∃ course : Course, course.run s = endState (typeArguments s)
  /-- Type arguments of a call. -/
  callTypeArguments : ∃ course : Course, course.run s = endState (callTypeArguments? s)
  /-- The type of the variable of a loop. -/
  loopType : ∀ keyword, ∃ course : Course, course.run s = endState (loopType? keyword s)
  /-- Expressions. -/
  expressions : ∀ fuel rule, s.cursor.remaining ≤ fuel →
    ∃ course : Course, course.run s = endState (ruleAt fuel rule s)
  /-- Statements. -/
  statements : ∀ fuel rule, s.cursor.remaining ≤ fuel →
    ∃ course : Course, course.run s = endState (stmtAt fuel rule s)
  /-- Declarations, after whose failure reading goes on. -/
  declaration : ∃ course : Course, course.run s = (declaration s).2
  /-- Whole files. -/
  parse : ∃ course : Course, course.run s = (parse s).2

variable {s : ReaderState}

theorem leads_recover {α : Type} {r : Reader α} (h : s.Leads (endState (r s))) :
    s.Leads (recover r s).2 := by
  unfold recover
  rcases hrun : r s with ⟨a, t⟩ | ⟨e, t⟩
  · rw [hrun] at h
    exact h
  · rw [hrun] at h
    exact h.trans ((t.leads_report e).trans (leads_resume _))

theorem followsCourses (hs : s.cursor.Placed) : FollowsCourses s := by
  have hself := hs.from_self
  have hless := Nat.lt_succ_self s.cursor.remaining
  have hstatements : ∀ fuel rule, s.cursor.remaining ≤ fuel →
      s.Leads (endState (stmtAt fuel rule s)) := fun fuel rule hfuel =>
    (meets_stmtAt _ (Nat.succ_le_succ hfuel) (Nat.succ_le_succ hfuel) rule s hself hless).leads
  refine ⟨fun fuel what hfuel => Course.leads_iff_exists.mp ?_, Course.leads_iff_exists.mp ?_,
    Course.leads_iff_exists.mp ?_, fun keyword => Course.leads_iff_exists.mp ?_,
    fun fuel rule hfuel => Course.leads_iff_exists.mp ?_,
    fun fuel rule hfuel => Course.leads_iff_exists.mp (hstatements fuel rule hfuel),
    Course.leads_iff_exists.mp (leads_recover (hstatements _ _ (Nat.le_refl _))),
    Course.leads_iff_exists.mp (parse_spec hs).1⟩
  · have hfuel := Nat.succ_le_succ hfuel
    exact (meets_typeAt _ hfuel hfuel what s hself hless).leads
  · exact (meets_typeArguments _ s hself hless).leads
  · exact (meets_callTypeArguments? _ s hself hless).leads
  · exact (meets_loopType? _ keyword s hself hless).leads
  · have hfuel := Nat.succ_le_succ hfuel
    exact (meets_ruleAt _ hfuel hfuel rule s hself hless).leads

theorem leavesNoTrace_callTypeArguments? (hs : s.cursor.Placed) :
    LeavesNoTrace callTypeArguments? s := by
  obtain ⟨herror, hfindings⟩ := silent_callTypeArguments?.unreported s
  let noted := s.note (.tryingGenerics s.cursor.here.span)
  have hrun : callTypeArguments? s = keptTypeArguments? noted.cursor.checkpoint noted := rfl
  rcases keptTypeArguments?_cases noted with ⟨l, t, -, -, hkept⟩ | ⟨-, e, -, -, hback⟩
  · exact ⟨some l, t, hrun.trans hkept, fun h => nomatch h⟩
  · refine ⟨none, _, hrun.trans hback, fun _ => ?_⟩
    rw [hrun, hback] at herror hfindings
    have hleads : noted.Leads (endState (typeArguments noted)) :=
      (meets_typeArguments _ noted (c := s.cursor) hs.from_self (Nat.lt_succ_self _)).leads
    exact ⟨cursor_takenBack hleads e, herror, hfindings⟩

theorem leavesNoTrace_loopType? (keyword : Token) (hs : s.cursor.Placed) :
    LeavesNoTrace (loopType? keyword) s := by
  obtain ⟨herror, hfindings⟩ := (silent_loopType? keyword).unreported s
  rcases loopType?_cases keyword s with ⟨type, t, -, -, hkept⟩ | ⟨-, e, -, -, hback⟩
  · exact ⟨some type, t, hkept, fun h => nomatch h⟩
  · refine ⟨none, _, hback, fun _ => ?_⟩
    rw [hback] at herror hfindings
    have hleads := (meets_typeRef _ s hs.from_self (Nat.lt_succ_self _)).leads
    exact ⟨cursor_takenBack hleads e, herror, hfindings⟩

/-- **Speculation leaves no trace.**

In every state that can be reached from the start of some tokens, undoing the splits that stand,
the latest first, gives back these tokens, and each of them is undone inside the tokens of that
time.  The rules of the grammar lead to no other states.

Whatever is done after a checkpoint, with attempts of its own, going back to the checkpoint gives
the cursor that took it: its tokens, its place and its splits.  So type arguments of a call and
the type of the variable of a loop that are tried and given up leave tokens, place, splits, flag
and all reports exactly as they were. -/
theorem speculation_leaves_no_trace (stream : TokenStream) (course : Course) :
    let s := course.run (.ofStream stream)
    Cursor.undoAll s.cursor.splits s.cursor.tokens = withEnd stream.tokens ∧
    Cursor.UndoInBounds s.cursor.splits s.cursor.tokens ∧
    FollowsCourses s ∧
    (∀ tried : Course, (tried.run s).cursor.restore s.cursor.checkpoint = s.cursor) ∧
    LeavesNoTrace callTypeArguments? s ∧
    ∀ keyword, LeavesNoTrace (loopType? keyword) s := by
  intro s
  have hreaches := (course.leads_run (.ofStream stream)).reaches
  have hplaced : s.cursor.Placed := (placed_ofStream stream).reaches hreaches
  exact ⟨Cursor.undoAll_of_reaches hreaches, (Cursor.sound_of_reaches hreaches).undo_inBounds,
    followsCourses hplaced, fun tried => (tried.leads_run s).reaches.restore_eq,
    leavesNoTrace_callTypeArguments? hplaced,
    fun keyword => leavesNoTrace_loopType? keyword hplaced⟩

end Reader
end CurlyScript
