import CurlyScript.Proofs.Layout

/-!
# Results that do not depend on how a file ends

Where the end of a file stands, what comes after it, whether an error was found in the text and
whether errors are to be kept quiet: none of this has a say in what a rule returns.  Two runs that
agree on the tokens return the same result, token by token and place by place, or fail for the
same cause.  The end of the file itself is never part of a result: a rule that meets it where
something has to follow fails.

What a rule returns is recorded along with this as a property of the result, so that one walk
through the rules shows both.

## Main definitions

* `ReaderState.Alongside` — states of two runs that agree on the tokens and on the causes raised.
* `Reader.Steady` — a reader with one result in two such runs, and with a property of this result.
* `Reader.SteadyBefore` — the same, for a reader that knows the next token.

## Main results

* `Reader.Steady.bind` — one reader after another.
* `Reader.steady_typeAt` — the rules for types are steady.
* `Reader.steady_callTypeArguments?`, `Reader.steady_loopType?` — so are the rules that are tried.
* `Reader.Steady.recover` — recovery from a failure is the same in both runs.
-/

namespace CurlyScript

open Reader

/-! ### Cursors with another end -/

namespace Cursor

/-- The same place in the same tokens, before another end. -/
def endingAt (c : Cursor) (stop : Token) (beyond : List Token) : Cursor := { c with stop, beyond }

variable (c : Cursor) (stop : Token) (beyond : List Token)

theorem advance_endingAt :
    (c.endingAt stop beyond).advance = c.advance.endingAt stop beyond := by
  unfold advance endingAt
  dsimp only
  split <;> rfl

theorem splitShift_endingAt :
    (c.endingAt stop beyond).splitShift = c.splitShift.endingAt stop beyond := by
  unfold splitShift endingAt
  dsimp only
  split
  · rfl
  · split <;> rfl

theorem skipTo_endingAt (stopAt : Token → Bool) :
    (c.endingAt stop beyond).skipTo stopAt = (c.skipTo stopAt).endingAt stop beyond := by
  simp only [skipTo, advance_endingAt]
  rfl

end Cursor

/-! ### States -/

/-- States of two runs that agree on the tokens before the end and on the causes of the errors
that were raised. -/
structure ReaderState.Alongside (s s' : ReaderState) : Prop where
  /-- The cursors agree, but for the end and what comes after it. -/
  cursor_eq : s'.cursor = s.cursor.endingAt s'.cursor.stop s'.cursor.beyond
  /-- The first run ends at the end of a file. -/
  stop_isEnd : s.cursor.stop.isEnd = true
  /-- The second run ends at the end of a file. -/
  stop_isEnd' : s'.cursor.stop.isEnd = true
  /-- The causes of errors are the same. -/
  causes_eq : s.causes = s'.causes

namespace ReaderState

variable {s s' : ReaderState}

theorem causes_note (s : ReaderState) (e : ReaderEvent) :
    (s.note e).causes = s.causes ++ e.cause?.toList := by
  rw [causes, note, List.reverse_cons, List.filterMap_append]
  cases e <;> rfl

theorem causes_report (s : ReaderState) (e : SyntaxError) :
    (s.report e).causes = s.causes ++ [e.cause] := by
  have hnote := causes_note s (if s.quiet then .suppressed e else .reported e)
  refine hnote.trans ?_
  split <;> rfl

namespace Alongside

theorem self (h : s.cursor.stop.isEnd = true) : s.Alongside s := ⟨rfl, h, h, rfl⟩

variable (h : s.Alongside s')

include h

theorem ahead_eq : s'.cursor.ahead = s.cursor.ahead := by
  rw [h.cursor_eq]
  rfl

theorem atEnd_eq : s'.cursor.atEnd = s.cursor.atEnd := by
  rw [h.cursor_eq]
  rfl

theorem remaining_eq : s'.cursor.remaining = s.cursor.remaining := by
  rw [h.cursor_eq]
  rfl

theorem checkpoint_eq : s'.cursor.checkpoint = s.cursor.checkpoint := by
  rw [h.cursor_eq]
  rfl

theorem note {e e' : ReaderEvent} (he : e.cause? = e'.cause?) :
    (s.note e).Alongside (s'.note e') := by
  refine ⟨h.cursor_eq, h.stop_isEnd, h.stop_isEnd', ?_⟩
  rw [causes_note, causes_note, h.causes_eq, he]

theorem report {e e' : SyntaxError} (he : e.cause = e'.cause) :
    (s.report e).Alongside (s'.report e') := by
  refine ⟨h.cursor_eq, h.stop_isEnd, h.stop_isEnd', ?_⟩
  rw [causes_report, causes_report, h.causes_eq, he]

/-- Moving both cursors in a way that has nothing to do with the end. -/
theorem move (f : Cursor → Cursor)
    (hf : ∀ c stop beyond, f (c.endingAt stop beyond) = (f c).endingAt stop beyond) :
    ({ s with cursor := f s.cursor } : ReaderState).Alongside
      { s' with cursor := f s'.cursor } := by
  have hself : f s.cursor = (f s.cursor).endingAt s.cursor.stop s.cursor.beyond :=
    hf s.cursor s.cursor.stop s.cursor.beyond
  have hmoved : f s'.cursor = (f s.cursor).endingAt s'.cursor.stop s'.cursor.beyond := by
    conv_lhs => rw [h.cursor_eq, hf]
  refine ⟨?_, ?_, ?_, h.causes_eq⟩
  · show f s'.cursor = (f s.cursor).endingAt (f s'.cursor).stop (f s'.cursor).beyond
    rw [hmoved]
    rfl
  · show (f s.cursor).stop.isEnd = true
    rw [hself]
    exact h.stop_isEnd
  · show (f s'.cursor).stop.isEnd = true
    rw [hmoved]
    exact h.stop_isEnd'

theorem past : (past s).Alongside (past s') := h.move _ Cursor.advance_endingAt

theorem pastHalf (shift : Token) : (pastHalf s shift).Alongside (pastHalf s' shift) :=
  (h.move _ Cursor.splitShift_endingAt).note rfl

theorem resume : (resume s).Alongside (resume s') :=
  (h.move (·.skipTo startsDeclaration)
    fun c stop beyond => c.skipTo_endingAt stop beyond _).note rfl

/-- Taking back what was tried from these states. -/
theorem takenBack {t t' : ReaderState} (ht : t.Alongside t') {e e' : ReaderEvent}
    (he : e.cause? = e'.cause?) : (takenBack s t e).Alongside (takenBack s' t' e') := by
  rw [Reader.takenBack, Reader.takenBack, h.checkpoint_eq]
  exact (ht.note he).move (·.restore s.cursor.checkpoint) fun _ _ _ => rfl

/-- The next token is the same, or both runs are at the end. -/
theorem here_cases :
    (∃ t rest, s.cursor.ahead = t :: rest ∧ s'.cursor.ahead = t :: rest) ∨
    (s.cursor.ahead = [] ∧ s.cursor.here.kind = .endOfFile ∧ s'.cursor.here.kind = .endOfFile) := by
  have hahead' := h.ahead_eq
  rcases hahead : s.cursor.ahead with _ | ⟨t, rest⟩
  · have hstop := h.stop_isEnd
    have hstop' := h.stop_isEnd'
    rw [Token.isEnd, beq_iff_eq] at hstop hstop'
    rw [hahead] at hahead'
    refine .inr ⟨rfl, ?_, ?_⟩
    · rw [Cursor.here, hahead]
      exact hstop
    · rw [Cursor.here, hahead']
      exact hstop'
  · exact .inl ⟨t, rest, rfl, hahead'.trans hahead⟩

theorem kind_second_eq : s.cursor.second.kind = s'.cursor.second.kind := by
  have hstop := h.stop_isEnd
  have hstop' := h.stop_isEnd'
  rw [Token.isEnd, beq_iff_eq] at hstop hstop'
  rw [Cursor.second, Cursor.second, h.ahead_eq]
  cases s.cursor.ahead.tail with
  | nil => exact hstop.trans hstop'.symm
  | cons t rest => rfl

end Alongside
end ReaderState

/-! ### Readers -/

namespace Reader

variable {α β : Type} {P P' : α → Prop} {Q : β → Prop} {s s' : ReaderState}

/-- Outcomes of two runs: one result with a property, or failures for one cause. -/
inductive SameOutcome (P : α → Prop) : EStateM.Result SyntaxError ReaderState α →
    EStateM.Result SyntaxError ReaderState α → Prop
  /-- Both have the result. -/
  | ok {a : α} {t t' : ReaderState} (ha : P a) (ht : t.Alongside t') :
    SameOutcome P (.ok a t) (.ok a t')
  /-- Both have failed. -/
  | error {e e' : SyntaxError} {t t' : ReaderState} (he : e.cause = e'.cause)
      (ht : t.Alongside t') :
    SameOutcome P (.error e t) (.error e' t')

/-- A reader with one result in any two runs that agree on the tokens, and a property that its
results have. -/
def Steady (P : α → Prop) (r : Reader α) : Prop :=
  ∀ s s' : ReaderState, s.Alongside s' → SameOutcome P (r s) (r s')

/-- The same, when a token is next. -/
def SteadyBefore (t : Token) (P : α → Prop) (r : Reader α) : Prop :=
  ∀ (s s' : ReaderState) (rest : List Token), s.Alongside s' → s.cursor.ahead = t :: rest →
    s'.cursor.ahead = t :: rest → SameOutcome P (r s) (r s')

/-- Nothing is said of the result. -/
def anything (_ : α) : Prop := True

/-- What is said of every item of a list. -/
def each (P : α → Prop) (items : List α) : Prop := ∀ a ∈ items, P a

/-- What is said of a result, if there is one. -/
def optional (P : α → Prop) (found : Option α) : Prop := ∀ a ∈ found, P a

theorem optional_none : optional P none := nofun

theorem optional_some {a : α} (h : P a) : optional P (some a) := by
  rintro _ ⟨⟩
  exact h

theorem each_nil : each P [] := nofun

theorem each_cons {a : α} {items : List α} (h : P a) (hitems : each P items) :
    each P (a :: items) := List.forall_mem_cons.mpr ⟨h, hitems⟩

/-! ### Putting readers together -/

theorem Steady.before {r : Reader α} (h : Steady P r) (t : Token) : SteadyBefore t P r :=
  fun s s' _ hs _ _ => h s s' hs

theorem steady_pure {a : α} (ha : P a) : Steady P (pure a) := fun _ _ hs => .ok ha hs

theorem steady_fail (cause : Cause) : Steady P (fail cause) := fun _ _ hs => .error rfl hs

theorem Steady.weaken {r : Reader α} (h : Steady P r) (hP : ∀ a, P a → P' a) : Steady P' r := by
  intro s s' hs
  have hrun := h s s' hs
  generalize r s = x at hrun
  generalize r s' = y at hrun
  cases hrun with
  | ok ha ht => exact .ok (hP _ ha) ht
  | error he ht => exact .error he ht

theorem SameOutcome.bind {r r' : Reader α} {f f' : α → Reader β}
    (h : SameOutcome P (r s) (r' s'))
    (hf : ∀ a t t', P a → t.Alongside t' → SameOutcome Q (f a t) (f' a t')) :
    SameOutcome Q ((r >>= f) s) ((r' >>= f') s') := by
  rcases hr : r s with ⟨a, t⟩ | ⟨e, t⟩ <;> rcases hr' : r' s' with ⟨a', t'⟩ | ⟨e', t'⟩ <;>
    rw [hr, hr'] at h
  · cases h with
    | ok ha ht =>
      rw [bind_ok hr, bind_ok hr']
      exact hf a t t' ha ht
  · cases h
  · cases h
  · cases h with
    | error he ht =>
      rw [bind_error hr, bind_error hr']
      exact .error he ht

theorem Steady.bind {r : Reader α} {f : α → Reader β} (h : Steady P r)
    (hf : ∀ a, P a → Steady Q (f a)) : Steady Q (r >>= f) :=
  fun s s' hs => (h s s' hs).bind fun a t t' ha ht => hf a ha t t' ht

theorem Steady.map {r : Reader α} {f : α → β} (h : Steady P r) (hf : ∀ a, P a → Q (f a)) :
    Steady Q (f <$> r) := by
  rw [map_eq_pure_bind]
  exact h.bind fun a ha => steady_pure (hf a ha)

/-- After a reader that may find nothing: the two cases apart. -/
theorem Steady.bind_option {r : Reader (Option α)} {f : Option α → Reader β}
    (h : Steady (optional P) r) (hsome : ∀ a, P a → Steady Q (f (some a)))
    (hnone : Steady Q (f none)) : Steady Q (r >>= f) := by
  refine h.bind fun found hfound => ?_
  cases found with
  | none => exact hnone
  | some a => exact hsome a (hfound a rfl)

/-- A choice by a truth value that is found. -/
theorem Steady.ite {c : Reader Bool} {r q : Reader β} (hc : Steady anything c) (hyes : Steady Q r)
    (hno : Steady Q q) : Steady Q (do if ← c then r else q) := by
  refine hc.bind fun b _ => ?_
  cases b with
  | false => exact hno
  | true => exact hyes

/-- A reader that looks at the next token first.  At the end of the file it has to do the same
whatever the token for the end is. -/
theorem steady_here {f : Token → Reader β} {atEnd : Reader β}
    (hnext : ∀ t, SteadyBefore t Q (f t)) (hend : Steady Q atEnd)
    (hstop : ∀ t : Token, t.kind = .endOfFile → f t = atEnd) : Steady Q (here >>= f) := by
  intro s s' hs
  change SameOutcome Q (f s.cursor.here s) (f s'.cursor.here s')
  rcases hs.here_cases with ⟨t, rest, hahead, hahead'⟩ | ⟨-, hkind, hkind'⟩
  · rw [here_of_cons hahead, here_of_cons hahead']
    exact hnext t s s' rest hs hahead hahead'
  · rw [hstop _ hkind, hstop _ hkind']
    exact hend s s' hs

/-- Moving past a token that is known to be next. -/
theorem steadyBefore_advance {t : Token} {f : Token → Reader β} (hf : Steady Q (f t)) :
    SteadyBefore t Q (advance >>= f) := by
  intro s s' rest hs hahead hahead'
  change SameOutcome Q (f s.cursor.here (past s)) (f s'.cursor.here (past s'))
  rw [here_of_cons hahead, here_of_cons hahead']
  exact hf _ _ hs.past

/-- Moving past a token that is not kept. -/
theorem steady_skip {r : Reader β} (h : Steady Q r) : Steady Q (do let _ ← advance; r) :=
  fun _ _ hs => h _ _ hs.past

theorem steady_report (e : SyntaxError) : Steady anything (report e) :=
  fun _ _ hs => .ok trivial (hs.report rfl)

/-- Reporting an error at the next token, which may be the end. -/
theorem steady_reportHere {f : Token → SyntaxError} {r : Reader β}
    (hf : ∀ t t', (f t).cause = (f t').cause) (h : Steady Q r) :
    Steady Q (do report (f (← here)); r) :=
  fun _ _ hs => h _ _ (hs.report (hf _ _))

theorem steady_atEnd : Steady anything atEnd := by
  intro s s' hs
  have hrun : atEnd s' = .ok s.cursor.atEnd s' := congrArg (EStateM.Result.ok · s') hs.atEnd_eq
  rw [hrun]
  exact .ok trivial hs

theorem steady_check (kind : Kind) : Steady anything (check kind) := by
  intro s s' hs
  rw [check_eq, check_eq, hs.ahead_eq]
  exact .ok trivial hs

/-- A rule that takes what is left to read as its bound. -/
theorem steady_bounded {f : Nat → Reader α} (hf : ∀ fuel, Steady P (f fuel)) :
    Steady P (do f (← remaining)) := by
  intro s s' hs
  have hbound : (do f (← remaining) : Reader α) s' = f s.cursor.remaining s' :=
    congrArg (f · s') hs.remaining_eq
  rw [hbound]
  exact hf _ s s' hs

/-! ### Single tokens -/

theorem steady_accept? (kind : Kind) :
    Steady (optional fun t : Token => t.kind = kind) (accept? kind) := by
  intro s s' hs
  rw [accept?_eq, accept?_eq, hs.ahead_eq]
  by_cases hkind : headKind? s.cursor.ahead = some kind
  · obtain ⟨t, rest, hahead, ht⟩ := headKind?_eq_some_iff.mp hkind
    rw [if_pos hkind, if_pos hkind]
    change SameOutcome _ (.ok (some s.cursor.here) (past s)) (.ok (some s'.cursor.here) (past s'))
    rw [here_of_cons hahead, here_of_cons (hs.ahead_eq.trans hahead)]
    exact .ok (optional_some ht) hs.past
  · rw [if_neg hkind, if_neg hkind]
    exact .ok optional_none hs

theorem steady_acceptMark? (mark : Punctuation) :
    Steady (optional fun t : Token => t.kind = .punctuation mark) (acceptMark? mark) :=
  steady_accept? _

/-- The token is one of some operators. -/
def isOneOf (ops : List Operator) (t : Token) : Prop := ∃ op ∈ ops, t.kind = .operator op

theorem steady_acceptOperator? (ops : List Operator) :
    Steady (optional (isOneOf ops)) (acceptOperator? ops) := by
  refine steady_here (fun t => ?_) (steady_pure optional_none) fun t ht => by rw [ht]
  rcases hkind : t.kind with op | _ | _ | _ | _ | _
  case operator =>
    dsimp only
    split
    · next hop =>
      exact steadyBefore_advance
        (steady_pure (optional_some ⟨op, List.contains_iff_mem.mp hop, hkind⟩))
    · exact (steady_pure optional_none).before t
  all_goals exact (steady_pure optional_none).before t

theorem steady_expect (kind : Kind) (what : Expectation) :
    Steady (fun t : Token => t.kind = kind) (expect kind what) :=
  (steady_accept? kind).bind_option (fun _ ht => steady_pure ht) (steady_fail _)

theorem steady_expectMark (mark : Punctuation) (what : Expectation) :
    Steady (fun t : Token => t.kind = .punctuation mark) (expectMark mark what) := steady_expect _ _

theorem steady_expectName (what : Expectation) :
    Steady (fun t : Token => t.kind = .identifier) (expectName what) := steady_expect _ _

theorem steady_closeAngle? : Steady anything closeAngle? := by
  intro s s' hs
  rw [closeAngle?_eq, closeAngle?_eq, hs.ahead_eq]
  by_cases hangle : headKind? s.cursor.ahead = some (.operator .greater)
  · obtain ⟨t, rest, hahead, -⟩ := headKind?_eq_some_iff.mp hangle
    rw [if_pos hangle, if_pos hangle]
    change SameOutcome _ (.ok (some s.cursor.here) (past s)) (.ok (some s'.cursor.here) (past s'))
    rw [here_of_cons hahead, here_of_cons (hs.ahead_eq.trans hahead)]
    exact .ok trivial hs.past
  rw [if_neg hangle, if_neg hangle]
  by_cases hshift : headKind? s.cursor.ahead = some (.operator .rsh)
  · obtain ⟨t, rest, hahead, -⟩ := headKind?_eq_some_iff.mp hshift
    rw [if_pos hshift, if_pos hshift, here_of_cons hahead,
      here_of_cons (hs.ahead_eq.trans hahead)]
    exact .ok trivial (hs.pastHalf t)
  · rw [if_neg hshift, if_neg hshift]
    exact .ok trivial hs

/-! ### Repeating and recovering -/

theorem steady_commaSeparated {item : Reader α} (hitem : Steady P item) (count : Nat) :
    Steady (each P) (commaSeparated item count) := by
  induction count with
  | zero => exact hitem.bind fun _ ha => steady_pure (each_cons ha each_nil)
  | succ count ih =>
    refine hitem.bind fun a ha => (steady_acceptMark? .comma).bind_option (fun _ _ => ?_) ?_
    · exact ih.bind fun _ hmore => steady_pure (each_cons ha hmore)
    · exact steady_pure (each_cons ha each_nil)

theorem steady_listUpTo (close : Punctuation) {item : Reader α} (hitem : Steady P item)
    (fuel : Nat) : Steady (each P) (listUpTo close item fuel) :=
  (steady_check _).ite (steady_pure each_nil) (steady_commaSeparated hitem fuel)

/-- A failure that is caught is caught in both runs, which then go on at the same token. -/
theorem Steady.recover {r : Reader α} (h : Steady P r) (hs : s.Alongside s') :
    (recover r s').1 = (recover r s).1 ∧ optional P (recover r s).1 ∧
      (recover r s).2.Alongside (recover r s').2 := by
  have hrun := h s s' hs
  unfold Reader.recover
  generalize r s = x at hrun
  generalize r s' = y at hrun
  cases hrun with
  | ok ha ht => exact ⟨rfl, optional_some ha, ht⟩
  | error he ht =>
    -- the reports may differ in their places, and one of them may be kept quiet
    exact ⟨rfl, optional_none, (ht.report he).resume⟩

theorem steady_recovered {r : Reader α} (h : Steady P r) :
    Steady (optional P) (recovered r) := by
  intro s s' hs
  obtain ⟨hresult, hP, hnext⟩ := h.recover hs
  change SameOutcome _ (.ok (recover r s).1 _) (.ok (recover r s').1 _)
  rw [hresult]
  exact .ok hP hnext

/-! ### Types -/

theorem steady_angleList {entry : Reader TypeRef} (hentry : Steady anything entry) (fuel : Nat) :
    Steady anything (angleList fuel entry) := by
  refine (steady_expect _ _).bind fun _ _ => (steady_commaSeparated hentry fuel).bind fun _ _ => ?_
  refine steady_closeAngle?.bind fun close _ => ?_
  cases close with
  | none => exact steady_fail _
  | some t => exact steady_pure trivial

theorem steady_angleList? {entry : Reader TypeRef} (hentry : Steady anything entry) (fuel : Nat) :
    Steady anything (angleList? fuel entry) :=
  (steady_check _).ite ((steady_angleList hentry fuel).map fun _ _ => trivial)
    (steady_pure trivial)

theorem steady_typeAfter? (mark : Punctuation) {type : Reader TypeRef}
    (htype : Steady anything type) : Steady anything (typeAfter? mark type) :=
  (steady_acceptMark? mark).bind_option (fun _ _ => htype.map fun _ _ => trivial)
    (steady_pure trivial)

theorem steady_typeAt (fuel : Nat) (what : Expectation) :
    Steady anything (typeAt fuel what) := by
  induction fuel generalizing what with
  | zero => exact steady_fail _
  | succ fuel ih =>
    exact (steady_expectName what).bind fun _ _ =>
      (steady_angleList? (ih _) fuel).bind fun _ _ =>
        (steady_typeAfter? .colon (ih _)).bind fun _ _ => steady_pure trivial

theorem steady_typeRef : Steady anything typeRef := steady_bounded fun _ => steady_typeAt _ _

theorem steady_typeArguments : Steady anything typeArguments :=
  steady_bounded fun fuel => steady_angleList (steady_typeAt fuel _) fuel

theorem steady_typeParameters? : Steady anything typeParameters? :=
  steady_bounded fun fuel => steady_angleList? (steady_typeAt fuel _) fuel

theorem steady_parameter : Steady anything parameter :=
  (steady_expectName _).bind fun _ _ => (steady_expectMark _ _).bind fun _ _ =>
    steady_typeRef.bind fun _ _ => steady_pure trivial

theorem steady_parameters : Steady anything parameters :=
  (steady_bounded fun fuel => steady_listUpTo .rparen steady_parameter fuel).bind fun _ _ =>
    (steady_expectMark _ _).bind fun _ _ => steady_pure trivial

theorem steady_returnType? : Steady anything returnType? := steady_typeAfter? .arrow steady_typeRef

/-! ### Trying -/

/-- Type arguments that are tried are kept in both runs, or taken back in both. -/
theorem steady_callTypeArguments? : Steady (optional anything) callTypeArguments? := by
  intro s s' hs
  have hnoted : (s.note (.tryingGenerics s.cursor.here.span)).Alongside
      (s'.note (.tryingGenerics s'.cursor.here.span)) := hs.note rfl
  have hrun := steady_typeArguments _ _ hnoted
  rw [Pairing.callTypeArguments?_eq, Pairing.callTypeArguments?_eq]
  -- from here on only the outcomes of the two attempts matter
  generalize typeArguments (s.note _) = x at hrun
  generalize typeArguments (s'.note _) = y at hrun
  cases hrun with
  | ok ha ht =>
    dsimp only
    rw [ht.ahead_eq]
    split
    · exact .ok (optional_some trivial) ht
    · exact .ok optional_none (hs.takenBack ht rfl)
  | error he ht => exact .ok optional_none (hs.takenBack ht rfl)

/-- So is the type of the variable of a loop. -/
theorem steady_loopType? (keyword : Token) : Steady (optional anything) (loopType? keyword) := by
  intro s s' hs
  have hrun := steady_typeRef _ _ hs
  rw [Pairing.loopType?_eq, Pairing.loopType?_eq]
  generalize typeRef s = x at hrun
  generalize typeRef s' = y at hrun
  cases hrun with
  | ok ha ht =>
    dsimp only
    rw [ht.ahead_eq]
    split
    · exact .ok (optional_some trivial) ht
    · exact .ok optional_none (hs.takenBack ht rfl)
  | error he ht => exact .ok optional_none (hs.takenBack ht rfl)

end Reader
end CurlyScript
