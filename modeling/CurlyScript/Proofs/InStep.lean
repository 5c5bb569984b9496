import CurlyScript.Proofs.Likeness
import CurlyScript.Proofs.Totality

/-!
# Two runs in step

The parser looks at nothing but the tokens ahead, the end after them, the error flag and whether
it is to be quiet, and of a token it looks at everything but the place.  So two runs that begin
alike in these respects stay in step: they fail together or succeed together, with alike results,
and note alike events.  What is behind the cursors, what follows the end and what was noted before
may differ.

As for contracts, what is said about a rule follows from what is said about the rules it calls,
one lemma for each way of putting rules together.

## Main definitions

* `Pairing` — two runs, by their kind of likeness and what was noted before.
* `Pairing.Abreast` — states of the two runs between which a rule cannot tell.
* `Pairing.InStep` — readers that take such states to such states and to alike results.

## Main results

* `Pairing.InStep.bind` — one reader after another.
* `Pairing.inStep_typeAt`, `Pairing.inStep_ruleAt`, `Pairing.inStep_stmtAt` — the rules for
  types, expressions and statements stay in step.
* `Pairing.abreast_declarations` — so do all declarations of a file.
-/

namespace CurlyScript

open Reader

/-- Two runs that are compared. -/
structure Pairing where
  /-- What the two runs have in common. -/
  likeness : Likeness
  /-- What was noted in the first run before, the latest first. -/
  before : List ReaderEvent
  /-- What was noted in the second run before, the latest first. -/
  before' : List ReaderEvent

namespace Pairing

variable {p : Pairing} {α β : Type} [HasSame α] [HasSame β] {s s' t t' : ReaderState}

/-! ### States -/

/-- States of two runs between which a rule cannot tell. -/
structure Abreast (p : Pairing) (s s' : ReaderState) : Prop where
  /-- The first cursor is well placed. -/
  placed : s.cursor.Placed
  /-- The second cursor is well placed. -/
  placed' : s'.cursor.Placed
  /-- The tokens ahead are alike. -/
  ahead : Like p.likeness s.cursor.ahead s'.cursor.ahead
  /-- The ends are alike. -/
  stop : Like p.likeness s.cursor.stop s'.cursor.stop
  /-- The flags are equal. -/
  hadError_eq : s.hadError = s'.hadError
  /-- Both are quiet, or none is. -/
  quiet_eq : s.quiet = s'.quiet
  /-- What has been noted meanwhile is alike. -/
  exists_said : ∃ said said', s.log = said ++ p.before ∧ s'.log = said' ++ p.before' ∧
    Like p.likeness said said'

/-- Alike tokens begin with one kind. -/
theorem headKind?_eq {l : Likeness} {as bs : List Token} (h : Like l as bs) :
    headKind? as = headKind? bs := by
  obtain ⟨rfl, rfl⟩ | ⟨a, b, _, _, rfl, rfl, hab, -⟩ := h.list_cases
  · rfl
  · rw [headKind?_cons, headKind?_cons, hab.kind_eq]

theorem totalWeight_eq {l : Likeness} {as bs : List Token} (h : Like l as bs) :
    Cursor.totalWeight as = Cursor.totalWeight bs := by
  induction as generalizing bs with
  | nil =>
    obtain ⟨-, rfl⟩ | ⟨_, _, _, _, hnil, -⟩ := h.list_cases
    · rfl
    · cases hnil
  | cons a as ih =>
    obtain ⟨hnil, -⟩ | ⟨_, b, _, bs, heq, rfl, hab, hrest⟩ := h.list_cases
    · cases hnil
    · cases heq
      rw [Cursor.totalWeight_cons, Cursor.totalWeight_cons, ih hrest, Cursor.weight, Cursor.weight,
        hab.kind_eq]

/-- Alike tokens are parted alike by their kinds. -/
theorem like_parted {l : Likeness} {f : Token → Bool} {as bs : List Token} (h : Like l as bs)
    (hf : ∀ a b : Token, a.kind = b.kind → f a = f b) :
    Like l (as.takeWhile f) (bs.takeWhile f) ∧ Like l (as.dropWhile f) (bs.dropWhile f) := by
  induction as generalizing bs with
  | nil =>
    obtain ⟨-, rfl⟩ | ⟨_, _, _, _, hnil, -⟩ := h.list_cases
    · exact ⟨like_nil, like_nil⟩
    · cases hnil
  | cons a as ih =>
    obtain ⟨hnil, -⟩ | ⟨_, b, _, bs, heq, rfl, hab, hrest⟩ := h.list_cases
    · cases hnil
    · cases heq
      have hfirst := hf a b hab.kind_eq
      by_cases ha : f a = true
      · have hb : f b = true := hfirst ▸ ha
        rw [List.takeWhile_cons_of_pos ha, List.takeWhile_cons_of_pos hb,
          List.dropWhile_cons_of_pos ha, List.dropWhile_cons_of_pos hb]
        exact ⟨like_cons.mpr ⟨hab, (ih hrest).1⟩, (ih hrest).2⟩
      · have hb : ¬ f b = true := hfirst ▸ ha
        rw [List.takeWhile_cons_of_neg ha, List.takeWhile_cons_of_neg hb,
          List.dropWhile_cons_of_neg ha, List.dropWhile_cons_of_neg hb]
        exact ⟨like_nil, like_cons.mpr ⟨hab, hrest⟩⟩

/-- The tokens after those that are skipped. -/
theorem drop_length_takeWhile (f : Token → Bool) (tokens : List Token) :
    tokens.drop (tokens.takeWhile f).length = tokens.dropWhile f := by
  have hsplit := List.takeWhile_append_dropWhile (p := f) (l := tokens)
  have hdrop : (tokens.takeWhile f ++ tokens.dropWhile f).drop (tokens.takeWhile f).length =
      tokens.dropWhile f := List.drop_left
  rwa [hsplit] at hdrop

namespace Abreast

variable (h : p.Abreast s s')

include h

theorem here : Like p.likeness s.cursor.here s'.cursor.here := by
  unfold Cursor.here
  obtain ⟨has, has'⟩ | ⟨_, _, _, _, has, has', hab, -⟩ := h.ahead.list_cases
  · rw [has, has']
    exact h.stop
  · rw [has, has']
    exact hab

theorem second : Like p.likeness s.cursor.second s'.cursor.second := by
  unfold Cursor.second
  obtain ⟨has, has'⟩ | ⟨_, _, as, bs, has, has', -, hrest⟩ := h.ahead.list_cases
  · rw [has, has']
    exact h.stop
  · rw [has, has', List.tail_cons, List.tail_cons]
    obtain ⟨rfl, rfl⟩ | ⟨_, _, _, _, rfl, rfl, hab, -⟩ := hrest.list_cases
    · exact h.stop
    · exact hab

theorem atEnd_eq : s.cursor.atEnd = s'.cursor.atEnd := by
  unfold Cursor.atEnd
  obtain ⟨has, has'⟩ | ⟨_, _, _, _, has, has', -, -⟩ := h.ahead.list_cases
  · rw [has, has']
  · rw [has, has']
    rfl

theorem remaining_eq : s.cursor.remaining = s'.cursor.remaining := totalWeight_eq h.ahead

/-- Moving the cursors only. -/
theorem move {c c' : Cursor} (hc : s.cursor.Reaches c) (hc' : s'.cursor.Reaches c')
    (hahead : Like p.likeness c.ahead c'.ahead) (hstop : Like p.likeness c.stop c'.stop) :
    p.Abreast { s with cursor := c } { s' with cursor := c' } :=
  ⟨h.placed.reaches hc, h.placed'.reaches hc', hahead, hstop, h.hadError_eq, h.quiet_eq,
    h.exists_said⟩

theorem note {e e' : ReaderEvent} (he : Like p.likeness e e') :
    p.Abreast (s.note e) (s'.note e') := by
  obtain ⟨said, said', hlog, hlog', hsaid⟩ := h.exists_said
  refine ⟨h.placed, h.placed', h.ahead, h.stop, h.hadError_eq, h.quiet_eq, e :: said, e' :: said',
    congrArg (List.cons e) hlog, congrArg (List.cons e') hlog', ?_⟩
  exact like_cons.mpr ⟨he, hsaid⟩

theorem report {e e' : SyntaxError} (he : Like p.likeness e e') :
    p.Abreast (s.report e) (s'.report e') := by
  have hevent : Like p.likeness
      (if s.quiet then ReaderEvent.suppressed e else .reported e)
      (if s'.quiet then ReaderEvent.suppressed e' else .reported e') := by
    rw [h.quiet_eq]
    split
    · exact like_suppressed.mpr he
    · exact like_reported.mpr he
  have hnoted := h.note hevent
  exact ⟨hnoted.placed, hnoted.placed', hnoted.ahead, hnoted.stop, rfl, hnoted.quiet_eq,
    hnoted.exists_said⟩

theorem past : p.Abreast (past s) (past s') := by
  refine h.move (.advance (.refl _)) (.advance (.refl _)) ?_ ?_
  · obtain ⟨has, has'⟩ | ⟨_, _, _, _, has, has', -, hrest⟩ := h.ahead.list_cases
    · simp only [Cursor.advance, has, has']
      exact like_nil
    · simp only [Cursor.advance, has, has']
      exact hrest
  · rw [Cursor.stop_advance, Cursor.stop_advance]
    exact h.stop

/-- Past the first half of a shift. -/
theorem pastHalf (hshift : headKind? s.cursor.ahead = some (.operator .rsh)) :
    p.Abreast (pastHalf s s.cursor.here) (pastHalf s' s'.cursor.here) := by
  refine Abreast.note (h.move (.splitShift (.refl _)) (.splitShift (.refl _)) ?_ ?_)
    (like_split h.here)
  · obtain ⟨has, -⟩ | ⟨a, b, as, bs, has, has', hab, hrest⟩ := h.ahead.list_cases
    · rw [has] at hshift
      cases hshift
    · have hkind : a.kind = .operator .rsh := by simpa [has] using hshift
      have hkind' : b.kind = .operator .rsh := hab.kind_eq ▸ hkind
      simp only [Cursor.splitShift, has, has', hkind, hkind', if_true]
      exact like_cons.mpr ⟨hab.halfShift 1, hrest⟩
  · rw [Cursor.stop_splitShift, Cursor.stop_splitShift]
    exact h.stop

/-- Going on after a failure. -/
theorem resume : p.Abreast (resume s) (resume s') := by
  have hpast := h.past
  -- where to go on is decided by the kinds of the tokens
  have hskip : p.Abreast { s with cursor := s.cursor.skipTo startsDeclaration }
      { s' with cursor := s'.cursor.skipTo startsDeclaration } := by
    refine h.move (Cursor.reaches_skipTo _ _) (Cursor.reaches_skipTo _ _) ?_ hpast.stop
    simp only [Cursor.skipTo, drop_length_takeWhile]
    refine (like_parted hpast.ahead fun a b hkind => ?_).2
    unfold startsDeclaration
    rw [hkind]
  exact hskip.note (like_resumed.mpr hskip.here)

/-- Taking back what was tried. -/
theorem takenBack (ht : p.Abreast t t') (hleads : s.Leads t) (hleads' : s'.Leads t')
    {e e' : ReaderEvent} (he : Like p.likeness e e') :
    p.Abreast (takenBack s t e) (takenBack s' t' e') := by
  have hnoted := ht.note he
  have hcursor := cursor_takenBack hleads e
  have hcursor' := cursor_takenBack hleads' e'
  -- the cursors go back to where they were, while the logs go on
  refine ⟨hcursor.symm ▸ h.placed, hcursor'.symm ▸ h.placed', ?_, ?_, hnoted.hadError_eq,
    hnoted.quiet_eq, hnoted.exists_said⟩
  · rw [hcursor, hcursor']
    exact h.ahead
  · rw [hcursor, hcursor']
    exact h.stop

end Abreast

/-! ### Readers -/

/-- Outcomes of two runs: both have failed or none has, alike. -/
inductive Outcome (p : Pairing) : EStateM.Result SyntaxError ReaderState α →
    EStateM.Result SyntaxError ReaderState α → Prop
  /-- Both have a result. -/
  | ok {a a' : α} {t t' : ReaderState} (ha : Like p.likeness a a') (ht : p.Abreast t t') :
    Outcome p (.ok a t) (.ok a' t')
  /-- Both have failed. -/
  | error {e e' : SyntaxError} {t t' : ReaderState} (he : Like p.likeness e e')
      (ht : p.Abreast t t') :
    Outcome p (.error e t) (.error e' t')

/-- Readers that stay in step. -/
def InStep (p : Pairing) (r r' : Reader α) : Prop :=
  ∀ s s' : ReaderState, p.Abreast s s' → p.Outcome (r s) (r' s')

/-! ### Putting readers together -/

theorem inStep_pure {a a' : α} (ha : Like p.likeness a a') : p.InStep (pure a) (pure a') :=
  fun _ _ h => .ok ha h

theorem InStep.bind {r r' : Reader α} {f f' : α → Reader β} (h : p.InStep r r')
    (hf : ∀ a a', Like p.likeness a a' → p.InStep (f a) (f' a')) :
    p.InStep (r >>= f) (r' >>= f') := by
  intro s s' hs
  have hrun := h s s' hs
  rcases hr : r s with ⟨a, t⟩ | ⟨e, t⟩ <;> rcases hr' : r' s' with ⟨a', t'⟩ | ⟨e', t'⟩ <;>
    rw [hr, hr'] at hrun
  · cases hrun with
    | ok ha ht =>
      rw [bind_ok hr, bind_ok hr']
      exact hf a a' ha t t' ht
  · cases hrun
  · cases hrun
  · cases hrun with
    | error he ht =>
      rw [bind_error hr, bind_error hr']
      exact .error he ht

theorem InStep.map {r r' : Reader α} (h : p.InStep r r') (f : α → β)
    (hf : ∀ a a', Like p.likeness a a' → Like p.likeness (f a) (f a')) :
    p.InStep (f <$> r) (f <$> r') := by
  rw [map_eq_pure_bind, map_eq_pure_bind]
  exact h.bind fun a a' ha => inStep_pure (hf a a' ha)

/-- After a reader that may find nothing: the two cases apart. -/
theorem InStep.bind_option {r r' : Reader (Option α)} {f f' : Option α → Reader β}
    (h : p.InStep r r')
    (hsome : ∀ a a', Like p.likeness a a' → p.InStep (f (some a)) (f' (some a')))
    (hnone : p.InStep (f none) (f' none)) : p.InStep (r >>= f) (r' >>= f') := by
  refine h.bind fun o o' ho => ?_
  obtain ⟨rfl, rfl⟩ | ⟨a, a', rfl, rfl, ha⟩ := ho.option_cases
  · exact hnone
  · exact hsome a a' ha

/-- After a reader that finds a truth value. -/
theorem InStep.bind_bool {r r' : Reader Bool} {f f' : Bool → Reader β} (h : p.InStep r r')
    (hf : ∀ b, p.InStep (f b) (f' b)) : p.InStep (r >>= f) (r' >>= f') := by
  refine h.bind fun b b' hb => ?_
  obtain rfl := like_bool_iff.mp hb
  exact hf b

/-- A choice by a truth value that is found. -/
theorem InStep.ite {c c' : Reader Bool} {r r' q q' : Reader β} (hc : p.InStep c c')
    (hyes : p.InStep r r') (hno : p.InStep q q') :
    p.InStep (do if ← c then r else q) (do if ← c' then r' else q') := by
  refine hc.bind_bool fun b => ?_
  rcases b with _ | _
  · exact hno
  · exact hyes

/-! ### Single steps -/

theorem inStep_here : p.InStep here here := fun _ _ h => .ok h.here h

theorem inStep_second : p.InStep second second := fun _ _ h => .ok h.second h

theorem inStep_atEnd : p.InStep atEnd atEnd := fun _ _ h => .ok (like_bool_iff.mpr h.atEnd_eq) h

theorem inStep_remaining : p.InStep remaining remaining :=
  fun _ _ h => .ok (like_nat_iff.mpr h.remaining_eq) h

/-- A rule that takes what is left to read as its bound. -/
theorem inStep_bounded {f f' : Nat → Reader α} (hf : ∀ fuel, p.InStep (f fuel) (f' fuel)) :
    p.InStep (do f (← remaining)) (do f' (← remaining)) := by
  refine inStep_remaining.bind fun n n' hn => ?_
  obtain rfl := like_nat_iff.mp hn
  exact hf n

theorem inStep_check (kind : Kind) : p.InStep (check kind) (check kind) := by
  intro s s' h
  rw [check_eq, check_eq, headKind?_eq h.ahead]
  exact .ok (like_bool_iff.mpr rfl) h

theorem inStep_note {e e' : ReaderEvent} (he : Like p.likeness e e') :
    p.InStep (note e) (note e') := fun _ _ h => .ok (like_unit _ _) (h.note he)

theorem inStep_report {e e' : SyntaxError} (he : Like p.likeness e e') :
    p.InStep (report e) (report e') := fun _ _ h => .ok (like_unit _ _) (h.report he)

theorem inStep_fail (cause : Cause) : p.InStep (fail cause : Reader α) (fail cause) :=
  fun _ _ h => .error (like_syntaxError _ h.here h.here.span_eq) h

theorem inStep_advance : p.InStep advance advance := fun _ _ h => .ok h.here h.past

theorem inStep_accept? (kind : Kind) : p.InStep (accept? kind) (accept? kind) :=
  (inStep_check kind).ite
    (inStep_advance.bind fun _ _ ht => inStep_pure (like_some.mpr ht)) (inStep_pure like_none)

theorem inStep_acceptMark? (mark : Punctuation) : p.InStep (acceptMark? mark) (acceptMark? mark) :=
  inStep_accept? _

theorem inStep_acceptOperator? (ops : List Operator) :
    p.InStep (acceptOperator? ops) (acceptOperator? ops) := by
  refine inStep_here.bind fun t t' ht => ?_
  rw [ht.kind_eq]
  cases t'.kind with
  | operator op =>
    dsimp only
    split
    · exact inStep_advance.bind fun _ _ hop => inStep_pure (like_some.mpr hop)
    · exact inStep_pure like_none
  | _ => exact inStep_pure like_none

theorem inStep_expect (kind : Kind) (what : Expectation) :
    p.InStep (expect kind what) (expect kind what) :=
  (inStep_accept? kind).bind_option (fun _ _ ht => inStep_pure ht) (inStep_fail _)

theorem inStep_expectMark (mark : Punctuation) (what : Expectation) :
    p.InStep (expectMark mark what) (expectMark mark what) := inStep_expect _ _

theorem inStep_expectName (what : Expectation) :
    p.InStep (expectName what) (expectName what) := inStep_expect _ _

theorem inStep_closeAngle? : p.InStep closeAngle? closeAngle? := by
  intro s s' h
  rw [closeAngle?_eq, closeAngle?_eq, ← headKind?_eq h.ahead]
  split
  · exact .ok (like_some.mpr h.here) h.past
  · split
    · next hshift => exact .ok (like_some.mpr (h.here.halfShift 0)) (h.pastHalf hshift)
    · exact .ok like_none h

/-! ### Repeating and recovering -/

theorem inStep_commaSeparated {item item' : Reader α} (hitem : p.InStep item item') (count : Nat) :
    p.InStep (commaSeparated item count) (commaSeparated item' count) := by
  induction count with
  | zero => exact hitem.bind fun _ _ ha => inStep_pure (like_cons.mpr ⟨ha, like_nil⟩)
  | succ count ih =>
    exact hitem.bind fun _ _ ha => (inStep_acceptMark? .comma).bind_option
      (fun _ _ _ => ih.bind fun _ _ hmore => inStep_pure (like_cons.mpr ⟨ha, hmore⟩))
      (inStep_pure (like_cons.mpr ⟨ha, like_nil⟩))

theorem inStep_listUpTo (close : Punctuation) {item item' : Reader α} (hitem : p.InStep item item')
    (fuel : Nat) : p.InStep (listUpTo close item fuel) (listUpTo close item' fuel) :=
  (inStep_check _).ite (inStep_pure like_nil) (inStep_commaSeparated hitem fuel)

/-- A failure that is caught is caught in both runs. -/
theorem InStep.recover {r r' : Reader α} (h : p.InStep r r') (hs : p.Abreast s s') :
    Like p.likeness (recover r s).1 (recover r' s').1 ∧
      p.Abreast (recover r s).2 (recover r' s').2 := by
  have hrun := h s s' hs
  unfold Reader.recover
  generalize r s = x at hrun
  generalize r' s' = y at hrun
  cases hrun with
  | ok ha ht => exact ⟨like_some.mpr ha, ht⟩
  | error he ht => exact ⟨like_none, (ht.report he).resume⟩

theorem inStep_recovered {r r' : Reader α} (h : p.InStep r r') :
    p.InStep (recovered r) (recovered r') :=
  fun _ _ hs => .ok (h.recover hs).1 (h.recover hs).2

/-! ### Types -/

theorem inStep_angleList {entry entry' : Reader TypeRef} (hentry : p.InStep entry entry')
    (fuel : Nat) : p.InStep (angleList fuel entry) (angleList fuel entry') :=
  (inStep_expect _ _).bind fun _ _ hangle =>
    (inStep_commaSeparated hentry fuel).bind fun _ _ hentries =>
      inStep_closeAngle?.bind_option
        (fun _ _ _ => inStep_pure (like_typeList.mpr ⟨hangle, hentries⟩)) (inStep_fail _)

theorem inStep_angleList? {entry entry' : Reader TypeRef} (hentry : p.InStep entry entry')
    (fuel : Nat) : p.InStep (angleList? fuel entry) (angleList? fuel entry') :=
  (inStep_check _).ite ((inStep_angleList hentry fuel).map some fun _ _ => like_some.mpr)
    (inStep_pure like_none)

theorem inStep_typeAfter? (mark : Punctuation) {type type' : Reader TypeRef}
    (htype : p.InStep type type') : p.InStep (typeAfter? mark type) (typeAfter? mark type') :=
  (inStep_acceptMark? mark).bind_option
    (fun _ _ _ => htype.map some fun _ _ => like_some.mpr) (inStep_pure like_none)

theorem inStep_typeAt (fuel : Nat) (what : Expectation) :
    p.InStep (typeAt fuel what) (typeAt fuel what) := by
  induction fuel generalizing what with
  | zero => exact inStep_fail _
  | succ fuel ih =>
    exact (inStep_expectName what).bind fun _ _ hname =>
      (inStep_angleList? (ih _) fuel).bind fun _ _ hgenerics =>
        (inStep_typeAfter? .colon (ih _)).bind fun _ _ hbound =>
          inStep_pure (like_typeRef.mpr ⟨hname, hgenerics, hbound⟩)

theorem inStep_typeRef : p.InStep typeRef typeRef := inStep_bounded fun _ => inStep_typeAt _ _

theorem inStep_typeArguments : p.InStep typeArguments typeArguments :=
  inStep_bounded fun fuel => inStep_angleList (inStep_typeAt fuel _) fuel

theorem inStep_typeParameters? : p.InStep typeParameters? typeParameters? :=
  inStep_bounded fun fuel => inStep_angleList? (inStep_typeAt fuel _) fuel

theorem inStep_parameter : p.InStep parameter parameter :=
  (inStep_expectName _).bind fun _ _ hname => (inStep_expectMark _ _).bind fun _ _ _ =>
    inStep_typeRef.bind fun _ _ htype => inStep_pure (like_param.mpr ⟨hname, htype⟩)

theorem inStep_parameters : p.InStep parameters parameters :=
  (inStep_bounded fun fuel => inStep_listUpTo .rparen inStep_parameter fuel).bind
    fun _ _ hparams => (inStep_expectMark _ _).bind fun _ _ _ => inStep_pure hparams

theorem inStep_returnType? : p.InStep returnType? returnType? :=
  inStep_typeAfter? .arrow inStep_typeRef

/-! ### Trying -/

/-- What trying type arguments comes to, by what reading them comes to. -/
theorem callTypeArguments?_eq (s : ReaderState) :
    callTypeArguments? s =
      match typeArguments (s.note (.tryingGenerics s.cursor.here.span)) with
      | .ok generics t =>
        if headKind? t.cursor.ahead = some (.punctuation .lparen) then .ok (some generics) t
        else .ok none (takenBack s t .genericsWithoutCall)
      | .error e t => .ok none (takenBack s t (.notGenerics e)) := by
  change keptTypeArguments? s.cursor.checkpoint (s.note (.tryingGenerics s.cursor.here.span)) = _
  unfold keptTypeArguments?
  rcases hrun : typeArguments (s.note (.tryingGenerics s.cursor.here.span)) with
    ⟨generics, t⟩ | ⟨e, t⟩
  · have houtcome : outcome typeArguments (s.note (.tryingGenerics s.cursor.here.span)) =
        .ok (.ok generics) t := by simp only [outcome, hrun]
    rw [bind_ok houtcome]
    dsimp only
    rw [bind_ok (check_eq _ t)]
    by_cases hparen : headKind? t.cursor.ahead = some (.punctuation .lparen)
    · rw [if_pos hparen, if_pos (by simpa using hparen)]
      rfl
    · rw [if_neg hparen, if_neg (by simpa using hparen)]
      rfl
  · have houtcome : outcome typeArguments (s.note (.tryingGenerics s.cursor.here.span)) =
        .ok (.error e) t := by simp only [outcome, hrun]
    rw [bind_ok houtcome]
    rfl

/-- What trying the type of the variable of a loop comes to. -/
theorem loopType?_eq (keyword : Token) (s : ReaderState) :
    loopType? keyword s =
      match typeRef s with
      | .ok type t =>
        if EndsLoopType t.cursor.ahead then .ok (some type) t
        else .ok none (takenBack s t (.forEachLoop keyword))
      | .error _ t => .ok none (takenBack s t (.forEachLoop keyword)) := by
  rcases hrun : typeRef s with ⟨type, t⟩ | ⟨e, t⟩
  · have houtcome : outcome typeRef s = .ok (.ok type) t := by simp only [outcome, hrun]
    have hloop : loopType? keyword s = _ := (bind_ok houtcome).trans (bind_ok (atTypeEnd_eq t))
    rw [hloop]
    by_cases hends : EndsLoopType t.cursor.ahead
    · simp only [decide_eq_true hends, if_pos hends]
      rfl
    · simp only [decide_eq_false hends, if_neg hends]
      rfl
  · have houtcome : outcome typeRef s = .ok (.error e) t := by simp only [outcome, hrun]
    exact (bind_ok houtcome).trans (bind_ok (atTypeEnd_eq t))

/-- Type arguments that are tried are kept in both runs, or taken back in both. -/
theorem inStep_callTypeArguments? : p.InStep callTypeArguments? callTypeArguments? := by
  intro s s' h
  have hnoted := h.note (like_tryingGenerics h.here)
  have hrun := inStep_typeArguments _ _ hnoted
  have hleads := (meets_typeArguments _ _ hnoted.placed.from_self (Nat.lt_succ_self _)).leads
  have hleads' := (meets_typeArguments _ _ hnoted.placed'.from_self (Nat.lt_succ_self _)).leads
  rw [callTypeArguments?_eq, callTypeArguments?_eq]
  -- from here on only the outcomes of the two attempts matter
  generalize typeArguments (s.note _) = x at hrun hleads
  generalize typeArguments (s'.note _) = y at hrun hleads'
  cases hrun with
  | ok ha ht =>
    dsimp only
    rw [headKind?_eq ht.ahead]
    split
    · exact .ok (like_some.mpr ha) ht
    · exact .ok like_none (hnoted.takenBack ht hleads hleads' (.of_eq rfl rfl))
  | error he ht =>
    exact .ok like_none (hnoted.takenBack ht hleads hleads' (like_notGenerics.mpr he))

/-- So is the type of the variable of a loop. -/
theorem inStep_loopType? {keyword keyword' : Token} (hkeyword : Like p.likeness keyword keyword') :
    p.InStep (loopType? keyword) (loopType? keyword') := by
  intro s s' h
  have hrun := inStep_typeRef _ _ h
  have hleads := (meets_typeRef _ _ h.placed.from_self (Nat.lt_succ_self _)).leads
  have hleads' := (meets_typeRef _ _ h.placed'.from_self (Nat.lt_succ_self _)).leads
  have hevent := like_forEachLoop.mpr hkeyword
  rw [loopType?_eq, loopType?_eq]
  generalize typeRef s = x at hrun hleads
  generalize typeRef s' = y at hrun hleads'
  cases hrun with
  | @ok _ _ t t' ha ht =>
    have hends : EndsLoopType t.cursor.ahead ↔ EndsLoopType t'.cursor.ahead := by
      unfold EndsLoopType
      rw [headKind?_eq ht.ahead]
    simp only [hends]
    split
    · exact .ok (like_some.mpr ha) ht
    · exact .ok like_none (h.takenBack ht hleads hleads' hevent)
  | error he ht => exact .ok like_none (h.takenBack ht hleads hleads' hevent)

/-! ### Expressions -/

theorem inStep_assignTo {target target' value value' : Expr} {op op' : Token}
    (htarget : Like p.likeness target target') (hop : Like p.likeness op op')
    (compound : Option Operator) (hvalue : Like p.likeness value value') :
    p.InStep (assignTo target op compound value) (assignTo target' op' compound value') := by
  have hassigned := htarget.assignedValue hop compound hvalue
  obtain ⟨name, name', rfl, rfl, hname⟩ | ⟨object, object', member, member', rfl, rfl, hobject,
    hmember⟩ | ⟨hplace, hplace'⟩ := htarget.place_cases
  · exact inStep_pure (like_assign.mpr ⟨hname, rfl, hassigned⟩)
  · exact inStep_pure (like_set.mpr ⟨hobject, hmember, rfl, hassigned⟩)
  · -- what is no place is reported, at its own span
    have hrefused : ∀ {e : Expr} (t : Token) (v : Expr), e.isPlace = false →
        assignTo e t compound v = (do
          report { cause := .invalidTarget, token := t, span := e.span }
          return e) := by
      intro e t v he
      cases e <;> first | rfl | cases he
    rw [hrefused op value hplace, hrefused op' value' hplace']
    exact (inStep_report (like_syntaxError _ hop (like_span htarget))).bind fun _ _ _ =>
      inStep_pure htarget

section ExprRules

variable {fuel : Nat} {again : Rule → Reader Expr}
  (hagain : ∀ rule, p.InStep (again rule) (again rule))

include hagain

theorem inStep_lambda {keyword keyword' : Token} (hkeyword : Like p.likeness keyword keyword') :
    p.InStep (lambda again keyword) (lambda again keyword') :=
  inStep_typeParameters?.bind fun _ _ hgenerics => (inStep_expectMark _ _).bind fun _ _ _ =>
    inStep_parameters.bind fun _ _ hparams => inStep_returnType?.bind fun _ _ hreturn =>
      (hagain .expression).bind fun _ _ hbody =>
        inStep_pure (like_lambda.mpr ⟨hkeyword, hgenerics, hparams, hreturn, hbody⟩)

theorem inStep_grouping {lparen lparen' : Token} (hlparen : Like p.likeness lparen lparen') :
    p.InStep (grouping again lparen) (grouping again lparen') :=
  (hagain .expression).bind fun _ _ hinner => (inStep_expectMark _ _).bind fun _ _ hrparen =>
    inStep_pure (like_grouping.mpr ⟨hlparen, hinner, hrparen⟩)

theorem inStep_array {bracket bracket' : Token} (hbracket : Like p.likeness bracket bracket') :
    p.InStep (array fuel again bracket) (array fuel again bracket') :=
  (inStep_listUpTo _ (hagain .expression) fuel).bind fun _ _ helements =>
    (inStep_expectMark _ _).bind fun _ _ hclose =>
      inStep_pure (like_array.mpr ⟨hbracket, helements, hclose⟩)

omit hagain in
theorem inStep_constant {t t' : Token} (ht : Like p.likeness t t') : p.InStep
    (match t.literal with
      | some value => do return Expr.literal (.ofLiteral value) (← advance)
      | none => fail .expectedExpression)
    (match t'.literal with
      | some value => do return Expr.literal (.ofLiteral value) (← advance)
      | none => fail .expectedExpression) := by
  obtain ⟨hnone, hnone'⟩ | ⟨value, value', hsome, hsome', hvalue⟩ := ht.literal.option_cases
  · rw [hnone, hnone']
    exact inStep_fail _
  · rw [hsome, hsome']
    exact inStep_advance.bind fun _ _ ht =>
      inStep_pure (like_literal.mpr ⟨hvalue.ofLiteral, ht⟩)

theorem inStep_primary : p.InStep (primary fuel again) (primary fuel again) := by
  have htruth : ∀ b : Bool, p.InStep (do return Expr.literal (.bool b) (← advance))
      (do return Expr.literal (.bool b) (← advance)) := fun b =>
    inStep_advance.bind fun _ _ ht =>
      inStep_pure (like_literal.mpr ⟨.of_eq rfl (beq_self_eq_true b), ht⟩)
  refine inStep_here.bind fun t t' ht => ?_
  rw [ht.kind_eq]
  cases t'.kind with
  | keyword word =>
    cases word with
    | true => exact htruth true
    | false => exact htruth false
    | this => exact inStep_advance.bind fun _ _ hword => inStep_pure (like_this.mpr hword)
    | fn => exact inStep_advance.bind fun _ _ hword => inStep_lambda hagain hword
    | _ => exact inStep_fail _
  | literal kind =>
    cases kind with
    | identifier => exact inStep_advance.bind fun _ _ hname => inStep_pure (like_ident.mpr hname)
    | _ => exact inStep_constant ht
  | punctuation mark =>
    cases mark with
    | lparen => exact inStep_advance.bind fun _ _ hmark => inStep_grouping hagain hmark
    | lbracket => exact inStep_advance.bind fun _ _ hmark => inStep_array hagain hmark
    | _ => exact inStep_fail _
  | _ => exact inStep_fail _

theorem inStep_finishCall {callee callee' : Expr} {generics generics' : Option TypeList}
    (hcallee : Like p.likeness callee callee') (hgenerics : Like p.likeness generics generics') :
    p.InStep (finishCall fuel again callee generics) (finishCall fuel again callee' generics') :=
  (inStep_listUpTo _ (hagain .expression) fuel).bind fun _ _ hargs =>
    (inStep_expectMark _ _).bind fun _ _ hparen =>
      inStep_pure (like_call.mpr ⟨hcallee, hgenerics, hargs, hparen⟩)

section Suffixes

variable {e e' : Expr} (he : Like p.likeness e e')

include he

theorem inStep_genericCall? : p.InStep (genericCall? fuel again e) (genericCall? fuel again e') :=
  inStep_callTypeArguments?.bind_option
    (fun _ _ hgenerics => inStep_advance.bind fun _ _ _ =>
      (inStep_finishCall hagain he (like_some.mpr hgenerics)).map some fun _ _ => like_some.mpr)
    (inStep_pure like_none)

theorem inStep_placeSuffix? : p.InStep (placeSuffix? fuel again e) (placeSuffix? fuel again e') :=
  (inStep_check _).ite (inStep_genericCall? hagain he)
    ((inStep_acceptOperator? _).bind_option
      (fun _ _ hop => inStep_pure (like_some.mpr (like_postUnary.mpr ⟨he, hop⟩)))
      (inStep_pure like_none))

theorem inStep_suffix? : p.InStep (suffix? fuel again e) (suffix? fuel again e') := by
  refine (inStep_acceptMark? .dot).bind_option (fun _ _ _ => ?_) ?_
  · exact (inStep_expectName _).bind fun _ _ hmember =>
      inStep_pure (like_some.mpr (like_get.mpr ⟨he, hmember⟩))
  refine (inStep_acceptMark? .lparen).bind_option (fun _ _ _ => ?_) ?_
  · exact (inStep_finishCall hagain he like_none).map some fun _ _ => like_some.mpr
  refine (inStep_acceptMark? .lbracket).bind_option (fun _ _ _ => ?_) ?_
  · exact (hagain .expression).bind fun _ _ hposition =>
      (inStep_expectMark _ _).bind fun _ _ hbracket =>
        inStep_pure (like_some.mpr (like_index.mpr ⟨he, hposition, hbracket⟩))
  · simp only [Option.isSome_none, Bool.false_eq_true, if_false]
    rw [he.isPlace_eq]
    split
    · exact inStep_placeSuffix? hagain he
    · exact inStep_pure like_none

end Suffixes

theorem inStep_suffixes (count : Nat) {e e' : Expr} (he : Like p.likeness e e') :
    p.InStep (suffixes fuel again count e) (suffixes fuel again count e') := by
  induction count generalizing e e' with
  | zero => exact inStep_pure he
  | succ count ih =>
    exact (inStep_suffix? hagain he).bind_option (fun _ _ hlonger => ih hlonger) (inStep_pure he)

theorem inStep_unary : p.InStep (unary fuel again) (unary fuel again) :=
  (inStep_acceptOperator? _).bind_option
    (fun _ _ hop => (hagain .unary).bind fun _ _ hoperand =>
      inStep_pure (like_unary.mpr ⟨hop, hoperand⟩))
    ((inStep_primary hagain).bind fun _ _ he => inStep_suffixes hagain fuel he)

theorem inStep_power : p.InStep (power fuel again) (power fuel again) :=
  (inStep_unary hagain).bind fun _ _ hbase => (inStep_acceptOperator? _).bind_option
    (fun _ _ hop => (hagain .power).bind fun _ _ hexponent =>
      inStep_pure (like_binary.mpr ⟨hbase, hop, hexponent⟩))
    (inStep_pure hbase)

omit hagain in
theorem inStep_chain (ops : List Operator) {operand operand' : Reader Expr}
    (hoperand : p.InStep operand operand') (count : Nat) {left left' : Expr}
    (hleft : Like p.likeness left left') :
    p.InStep (chain ops operand count left) (chain ops operand' count left') := by
  induction count generalizing left left' with
  | zero => exact inStep_pure hleft
  | succ count ih =>
    exact (inStep_acceptOperator? ops).bind_option
      (fun _ _ hop => hoperand.bind fun _ _ hright => ih (like_binary.mpr ⟨hleft, hop, hright⟩))
      (inStep_pure hleft)

omit hagain in
theorem inStep_comparison (ops : List Operator) {operand operand' : Reader Expr}
    (hoperand : p.InStep operand operand') {left left' : Expr}
    (hleft : Like p.likeness left left') :
    p.InStep (comparison ops operand left) (comparison ops operand' left') := by
  refine (inStep_acceptOperator? ops).bind_option (fun op op' hop => ?_) (inStep_pure hleft)
  refine hoperand.bind fun right right' hright => inStep_here.bind fun t t' ht => ?_
  have hwhole := like_binary.mpr ⟨hleft, hop, hright⟩
  rw [ht.kind_eq]
  cases t'.kind with
  | operator another =>
    dsimp only
    split
    · exact inStep_fail _
    · exact inStep_pure hwhole
  | _ => exact inStep_pure hwhole

theorem inStep_binary (levels : List Level) :
    p.InStep (binary fuel again levels) (binary fuel again levels) := by
  induction levels with
  | nil => exact inStep_power hagain
  | cons level tighter ih =>
    refine ih.bind fun left left' hleft => ?_
    split
    · exact inStep_chain _ ih fuel hleft
    · exact inStep_comparison _ ih hleft

theorem inStep_ternary : p.InStep (ternary fuel again) (ternary fuel again) :=
  (inStep_binary hagain binaryLevels).bind fun _ _ hcondition =>
    (inStep_acceptMark? _).bind_option
      (fun _ _ _ => (hagain .expression).bind fun _ _ hyes =>
        (inStep_expectMark _ _).bind fun _ _ hcolon => (hagain .ternary).bind fun _ _ hno =>
          inStep_pure (like_ternary.mpr ⟨hcondition, hyes, hcolon, hno⟩))
      (inStep_pure hcondition)

theorem inStep_assigned {target target' : Expr} (htarget : Like p.likeness target target') :
    p.InStep (assigned again target) (assigned again target') := by
  refine inStep_here.bind fun t t' ht => ?_
  rw [ht.kind_eq]
  cases t'.kind with
  | operator op =>
    dsimp only
    split
    · exact inStep_advance.bind fun _ _ hop => (hagain .expression).bind fun _ _ hvalue =>
        inStep_assignTo htarget hop _ hvalue
    · exact inStep_pure htarget
  | _ => exact inStep_pure htarget

theorem inStep_ruleBody (rule : Rule) : p.InStep (rule.body fuel again) (rule.body fuel again) := by
  cases rule with
  | expression => exact (inStep_ternary hagain).bind fun _ _ => inStep_assigned hagain
  | ternary => exact inStep_ternary hagain
  | power => exact inStep_power hagain
  | unary => exact inStep_unary hagain

end ExprRules

theorem inStep_ruleAt (fuel : Nat) (rule : Rule) :
    p.InStep (ruleAt fuel rule) (ruleAt fuel rule) := by
  induction fuel generalizing rule with
  | zero => exact inStep_fail _
  | succ fuel ih => exact inStep_ruleBody ih rule

theorem inStep_expression : p.InStep expression expression :=
  inStep_bounded fun _ => inStep_ruleAt _ _

theorem inStep_expression? : p.InStep expression? expression? := by
  refine inStep_here.bind fun t t' ht => ?_
  have hstarts : startsExpression t = startsExpression t' := by
    unfold startsExpression
    rw [ht.kind_eq]
  rw [hstarts]
  split
  · exact inStep_expression.map some fun _ _ => like_some.mpr
  · exact inStep_pure like_none

/-! ### Variables and conditions -/

theorem inStep_varHead {keyword keyword' : Token} (hkeyword : Like p.likeness keyword keyword') :
    p.InStep (varHead keyword) (varHead keyword') := by
  refine (inStep_accept? _).bind fun word word' hword => (inStep_expectName _).bind
    fun name name' hname => inStep_pure (like_varDecl.mpr
      ⟨hkeyword, hname, ?_, like_none, like_none⟩)
  -- only whether the word is there matters
  obtain ⟨rfl, rfl⟩ | ⟨_, _, rfl, rfl, -⟩ := hword.option_cases <;> rfl

section Variables

variable {decl decl' : VarDecl} (hdecl : Like p.likeness decl decl')

include hdecl

theorem inStep_withoutValue : p.InStep (withoutValue decl) (withoutValue decl') := by
  obtain ⟨-, hname, hmutable, -⟩ := like_varDecl.mp hdecl
  unfold withoutValue
  rw [hmutable]
  split
  · exact inStep_pure hdecl
  · exact inStep_here.bind fun t t' ht =>
      (inStep_report (like_syntaxError _ ht hname.span_eq)).bind fun _ _ _ => inStep_pure hdecl

theorem inStep_varValue : p.InStep (varValue decl) (varValue decl') := by
  obtain ⟨hkeyword, hname, hmutable, htype, -⟩ := like_varDecl.mp hdecl
  exact (inStep_accept? _).bind_option
    (fun _ _ _ => inStep_expression.bind fun _ _ hvalue => inStep_pure
      (like_varDecl.mpr ⟨hkeyword, hname, hmutable, htype, like_some.mpr hvalue⟩))
    (inStep_withoutValue hdecl)

theorem like_typed {type type' : TypeRef} (htype : Like p.likeness type type') :
    Like p.likeness { decl with type := some type } { decl' with type := some type' } := by
  obtain ⟨hkeyword, hname, hmutable, -, hvalue⟩ := like_varDecl.mp hdecl
  exact like_varDecl.mpr ⟨hkeyword, hname, hmutable, like_some.mpr htype, hvalue⟩

end Variables

theorem inStep_varDecl {keyword keyword' : Token} (hkeyword : Like p.likeness keyword keyword') :
    p.InStep (varDecl keyword) (varDecl keyword') :=
  (inStep_varHead hkeyword).bind fun _ _ hhead => (inStep_acceptMark? _).bind_option
    (fun _ _ _ => inStep_typeRef.bind fun _ _ htype => inStep_varValue (like_typed hhead htype))
    (inStep_varValue hhead)

theorem inStep_condition : p.InStep condition condition :=
  inStep_expression?.bind_option (fun _ _ he => inStep_pure he)
    (inStep_here.bind fun _ _ hfound =>
      (inStep_note (like_missingCondition.mpr hfound)).bind fun _ _ _ =>
        inStep_pure (like_literal.mpr ⟨.of_eq rfl rfl, hfound.recast _ _⟩))

/-! ### Statements -/

theorem inStep_atClose : p.InStep atClose atClose :=
  (inStep_check _).bind_bool fun _ => inStep_atEnd.bind_bool fun _ =>
    inStep_pure (like_bool_iff.mpr rfl)

theorem inStep_closeHeader (parenthesized : Bool) (what : Expectation) :
    p.InStep (closeHeader parenthesized what) (closeHeader parenthesized what) := by
  unfold closeHeader
  split
  · exact (inStep_expectMark _ _).bind fun _ _ _ => inStep_pure (like_unit _ _)
  · exact inStep_pure (like_unit _ _)

theorem inStep_refuseSecond {default default' : Option Block}
    (hdefault : Like p.likeness default default') :
    p.InStep (refuseSecond default) (refuseSecond default') := by
  obtain ⟨rfl, rfl⟩ | ⟨_, _, rfl, rfl, -⟩ := hdefault.option_cases
  · exact inStep_pure (like_unit _ _)
  · exact inStep_here.bind fun _ _ ht => inStep_report (like_syntaxError _ ht ht.span_eq)

theorem inStep_atDefault : p.InStep atDefault atDefault := by
  refine inStep_here.bind fun t t' ht => inStep_second.bind fun u u' hu => ?_
  rw [ht.lexeme_eq, hu.kind_eq]
  exact inStep_pure (like_bool_iff.mpr rfl)

theorem inStep_superclass? : p.InStep superclass? superclass? :=
  (inStep_acceptMark? _).bind_option
    (fun _ _ _ => (inStep_expectName _).bind fun _ _ hname =>
      inStep_pure (like_some.mpr (like_ident.mpr hname)))
    (inStep_pure like_none)

theorem inStep_atFunction : p.InStep atFunction atFunction := by
  refine (inStep_check _).bind_bool fun found => inStep_second.bind fun t t' ht => ?_
  rw [ht.kind_eq]
  exact inStep_pure (like_bool_iff.mpr rfl)

section Words

variable {keyword keyword' : Token} (hkeyword : Like p.likeness keyword keyword')

include hkeyword

theorem inStep_returnStatement : p.InStep (returnStatement keyword) (returnStatement keyword') :=
  inStep_expression?.bind fun _ _ hvalue => (inStep_acceptMark? _).bind fun _ _ _ =>
    inStep_pure (like_ret.mpr ⟨hkeyword, hvalue⟩)

theorem inStep_varStatement : p.InStep (varStatement keyword) (varStatement keyword') :=
  (inStep_varDecl hkeyword).bind fun _ _ hdecl => (inStep_acceptMark? _).bind fun _ _ _ =>
    inStep_pure (like_varStmt.mpr hdecl)

end Words

theorem inStep_wordStatement {stmt stmt' : Stmt} (hstmt : Like p.likeness stmt stmt') :
    p.InStep (wordStatement stmt) (wordStatement stmt') :=
  (inStep_acceptMark? _).bind fun _ _ _ => inStep_pure hstmt

theorem inStep_expressionStatement : p.InStep expressionStatement expressionStatement :=
  inStep_expression.bind fun _ _ he => (inStep_acceptMark? _).bind fun _ _ _ =>
    inStep_pure (like_expressionStmt.mpr he)

section StmtRules

variable {fuel : Nat} {again : StmtRule → Reader Stmt}
  (hagain : ∀ rule, p.InStep (again rule) (again rule))

include hagain

theorem inStep_blockBody (count : Nat) :
    p.InStep (blockBody again count) (blockBody again count) := by
  induction count with
  | zero => exact inStep_pure like_nil
  | succ count ih =>
    exact inStep_atClose.ite (inStep_pure like_nil)
      ((inStep_recovered (hagain .declaration)).bind_option
        (fun _ _ hstmt => ih.bind fun _ _ hmore => inStep_pure (like_cons.mpr ⟨hstmt, hmore⟩)) ih)

theorem inStep_block {lbrace lbrace' : Token} (hlbrace : Like p.likeness lbrace lbrace') :
    p.InStep (block fuel again lbrace) (block fuel again lbrace') :=
  (inStep_blockBody hagain fuel).bind fun _ _ hstatements =>
    (inStep_expectMark _ _).bind fun _ _ hrbrace =>
      inStep_pure (like_block.mpr ⟨hlbrace, hstatements, hrbrace⟩)

theorem inStep_switchCase : p.InStep (switchCase fuel again) (switchCase fuel again) :=
  inStep_expression.bind fun _ _ hvalue => (inStep_expectMark _ _).bind fun _ _ harrow =>
    (inStep_expectMark _ _).bind fun _ _ hlbrace => (inStep_block hagain hlbrace).bind
      fun _ _ hbody => inStep_pure (like_switchCase.mpr ⟨hvalue, harrow, hbody⟩)

theorem inStep_switchDefault : p.InStep (switchDefault fuel again) (switchDefault fuel again) :=
  inStep_advance.bind fun _ _ _ => inStep_advance.bind fun _ _ _ =>
    (inStep_expectMark _ _).bind fun _ _ hlbrace => inStep_block hagain hlbrace

omit hagain in
/-- Of several defaults the first one stays. -/
theorem like_or {default default' : Option Block} {body body' : Block}
    (hdefault : Like p.likeness default default') (hbody : Like p.likeness body body') :
    Like p.likeness (default.or (some body)) (default'.or (some body')) := by
  obtain ⟨rfl, rfl⟩ | ⟨_, _, rfl, rfl, h⟩ := hdefault.option_cases
  · exact like_some.mpr hbody
  · exact like_some.mpr h

theorem inStep_switchBody (count : Nat) {default default' : Option Block}
    (hdefault : Like p.likeness default default') :
    p.InStep (switchBody fuel again count default) (switchBody fuel again count default') := by
  induction count generalizing default default' with
  | zero => exact inStep_pure (like_pair.mpr ⟨like_nil, hdefault⟩)
  | succ count ih =>
    refine inStep_atClose.ite (inStep_pure (like_pair.mpr ⟨like_nil, hdefault⟩)) ?_
    refine inStep_atDefault.ite ?_ ?_
    · exact (inStep_refuseSecond hdefault).bind fun _ _ _ => (inStep_switchDefault hagain).bind
        fun _ _ hbody => ih (like_or hdefault hbody)
    · refine (inStep_switchCase hagain).bind fun _ _ hfirst => (ih hdefault).bind ?_
      rintro ⟨cases, found⟩ ⟨cases', found'⟩ hmore
      obtain ⟨hcases, hfound⟩ := like_pair.mp hmore
      exact inStep_pure (like_pair.mpr ⟨like_cons.mpr ⟨hfirst, hcases⟩, hfound⟩)

section Keyword

variable {keyword keyword' : Token} (hkeyword : Like p.likeness keyword keyword')

include hkeyword

theorem inStep_ifStatement : p.InStep (ifStatement again keyword) (ifStatement again keyword') :=
  inStep_expression.bind fun _ _ hcondition => (hagain .statement).bind fun _ _ hyes =>
    (inStep_accept? _).bind_option
      (fun _ _ _ => (hagain .statement).bind fun _ _ hno =>
        inStep_pure (like_ifElse.mpr ⟨hkeyword, hcondition, hyes, like_some.mpr hno⟩))
      (inStep_pure (like_ifElse.mpr ⟨hkeyword, hcondition, hyes, like_none⟩))

theorem inStep_whileStatement (testedAfter : Bool) :
    p.InStep (whileStatement again keyword testedAfter)
      (whileStatement again keyword' testedAfter) :=
  inStep_condition.bind fun _ _ hcondition => (hagain .statement).bind fun _ _ hbody =>
    inStep_pure (like_whileLoop.mpr ⟨hkeyword, hcondition, hbody, rfl⟩)

theorem inStep_doStatement : p.InStep (doStatement again keyword) (doStatement again keyword') :=
  (inStep_expect _ _).bind fun _ _ _ => inStep_whileStatement hagain hkeyword true

theorem inStep_forClauses (parenthesized : Bool) {init init' : Option LoopInit}
    (hinit : Like p.likeness init init') :
    p.InStep (forClauses again keyword parenthesized init)
      (forClauses again keyword' parenthesized init') :=
  inStep_condition.bind fun _ _ hcondition => (inStep_expectMark _ _).bind fun _ _ _ =>
    inStep_expression?.bind fun _ _ hstep => (inStep_closeHeader _ _).bind fun _ _ _ =>
      (hagain .statement).bind fun _ _ hbody => inStep_pure
        (like_forLoop.mpr ⟨hkeyword, hinit, hcondition, hstep, hbody.loopBody hstep⟩)

theorem inStep_forEachClause (parenthesized : Bool) {binding binding' : VarDecl}
    {colon colon' : Token} (hbinding : Like p.likeness binding binding')
    (hcolon : Like p.likeness colon colon') :
    p.InStep (forEachClause again keyword parenthesized binding colon)
      (forEachClause again keyword' parenthesized binding' colon') :=
  inStep_expression.bind fun _ _ hiterable => (inStep_closeHeader _ _).bind fun _ _ _ =>
    (hagain .statement).bind fun _ _ hbody =>
      inStep_pure (like_forEach.mpr ⟨hkeyword, hbinding, hcolon, hiterable, hbody⟩)

theorem inStep_forVar (parenthesized : Bool) {binding binding' : VarDecl}
    (hbinding : Like p.likeness binding binding') :
    p.InStep (forVar again keyword parenthesized binding)
      (forVar again keyword' parenthesized binding') :=
  (inStep_varValue hbinding).bind fun _ _ hdecl => (inStep_expectMark _ _).bind fun _ _ _ =>
    inStep_forClauses hagain hkeyword parenthesized (like_some.mpr (like_initVar.mpr hdecl))

theorem inStep_forDeclared (parenthesized : Bool) {varKeyword varKeyword' : Token}
    (hvar : Like p.likeness varKeyword varKeyword') :
    p.InStep (forDeclared again keyword parenthesized varKeyword)
      (forDeclared again keyword' parenthesized varKeyword') :=
  (inStep_varHead hvar).bind fun _ _ hbinding => (inStep_acceptMark? _).bind_option
    (fun _ _ hcolon => (inStep_loopType? hkeyword).bind_option
      (fun _ _ htype => inStep_forVar hagain hkeyword parenthesized (like_typed hbinding htype))
      (inStep_forEachClause hagain hkeyword parenthesized hbinding hcolon))
    (inStep_forVar hagain hkeyword parenthesized hbinding)

theorem inStep_forExpression (parenthesized : Bool) :
    p.InStep (forExpression again keyword parenthesized)
      (forExpression again keyword' parenthesized) :=
  inStep_expression.bind fun _ _ hfirst => (inStep_expectMark _ _).bind fun _ _ _ =>
    inStep_forClauses hagain hkeyword parenthesized (like_some.mpr (like_initExpression.mpr hfirst))

theorem inStep_forHeader (parenthesized : Bool) :
    p.InStep (forHeader again keyword parenthesized) (forHeader again keyword' parenthesized) :=
  (inStep_acceptMark? _).bind_option
    (fun _ _ _ => inStep_forClauses hagain hkeyword parenthesized like_none)
    ((inStep_accept? _).bind_option
      (fun _ _ hvar => inStep_forDeclared hagain hkeyword parenthesized hvar)
      (inStep_forExpression hagain hkeyword parenthesized))

theorem inStep_forStatement : p.InStep (forStatement again keyword) (forStatement again keyword') :=
  (inStep_acceptMark? _).bind_option
    (fun _ _ _ => inStep_forHeader hagain hkeyword true) (inStep_forHeader hagain hkeyword false)

theorem inStep_switchStatement :
    p.InStep (switchStatement fuel again keyword) (switchStatement fuel again keyword') := by
  refine inStep_expression.bind fun _ _ hsubject => (inStep_expectMark _ _).bind fun _ _ _ =>
    (inStep_switchBody hagain fuel like_none).bind ?_
  rintro ⟨cases, default⟩ ⟨cases', default'⟩ hmore
  obtain ⟨hcases, hdefault⟩ := like_pair.mp hmore
  exact (inStep_expectMark _ _).bind fun _ _ hclose =>
    inStep_pure (like_switch.mpr ⟨hkeyword, hsubject, hcases, hdefault, hclose⟩)

theorem inStep_function : p.InStep (function fuel again keyword) (function fuel again keyword') :=
  (inStep_expectName _).bind fun _ _ hname => inStep_typeParameters?.bind fun _ _ hgenerics =>
    (inStep_expectMark _ _).bind fun _ _ _ => inStep_parameters.bind fun _ _ hparams =>
      inStep_returnType?.bind fun _ _ hreturn => (inStep_expectMark _ _).bind fun _ _ hlbrace =>
        (inStep_block hagain hlbrace).bind fun _ _ hbody => inStep_pure
          (like_functionDecl.mpr ⟨hkeyword, hname, hgenerics, hparams, hreturn, hbody⟩)

end Keyword

theorem inStep_classMember {more more' : Reader (List VarDecl × List FunctionDecl)}
    (hmore : p.InStep more more') :
    p.InStep (classMember fuel again more) (classMember fuel again more') := by
  refine (inStep_accept? _).bind_option (fun _ _ hkeyword => ?_) ?_
  · refine (inStep_function hagain hkeyword).bind fun _ _ hmethod => hmore.bind ?_
    rintro ⟨fields, methods⟩ ⟨fields', methods'⟩ hmembers
    obtain ⟨hfields, hmethods⟩ := like_pair.mp hmembers
    exact inStep_pure (like_pair.mpr ⟨hfields, like_cons.mpr ⟨hmethod, hmethods⟩⟩)
  refine (inStep_accept? _).bind_option (fun _ _ hkeyword => ?_) ?_
  · refine (inStep_varDecl hkeyword).bind fun _ _ hfield => (inStep_acceptMark? _).bind
      fun _ _ _ => hmore.bind ?_
    rintro ⟨fields, methods⟩ ⟨fields', methods'⟩ hmembers
    obtain ⟨hfields, hmethods⟩ := like_pair.mp hmembers
    exact inStep_pure (like_pair.mpr ⟨like_cons.mpr ⟨hfield, hfields⟩, hmethods⟩)
  · exact (inStep_acceptMark? _).bind_option (fun _ _ _ => hmore) (inStep_fail _)

theorem inStep_classBody (count : Nat) :
    p.InStep (classBody fuel again count) (classBody fuel again count) := by
  have hnone : Like p.likeness (([], []) : List VarDecl × List FunctionDecl) ([], []) :=
    like_pair.mpr ⟨like_nil, like_nil⟩
  induction count with
  | zero => exact inStep_pure hnone
  | succ count ih => exact inStep_atClose.ite (inStep_pure hnone) (inStep_classMember hagain ih)

theorem inStep_classDeclaration {keyword keyword' : Token}
    (hkeyword : Like p.likeness keyword keyword') :
    p.InStep (classDeclaration fuel again keyword) (classDeclaration fuel again keyword') := by
  refine (inStep_expectName _).bind fun _ _ hname => inStep_typeParameters?.bind
    fun _ _ hgenerics => inStep_superclass?.bind fun _ _ hsuperclass =>
      (inStep_expectMark _ _).bind fun _ _ _ => (inStep_classBody hagain fuel).bind ?_
  rintro ⟨fields, methods⟩ ⟨fields', methods'⟩ hmembers
  obtain ⟨hfields, hmethods⟩ := like_pair.mp hmembers
  exact (inStep_expectMark _ _).bind fun _ _ hclose => inStep_pure
    (like_classDecl.mpr ⟨hkeyword, hname, hgenerics, hsuperclass, hfields, hmethods, hclose⟩)

theorem inStep_statement : p.InStep (statement fuel again) (statement fuel again) := by
  refine inStep_here.bind fun t t' ht => ?_
  rw [ht.kind_eq]
  cases t'.kind with
  | keyword word =>
    cases word with
    | «for» => exact inStep_advance.bind fun _ _ h => inStep_forStatement hagain h
    | «if» => exact inStep_advance.bind fun _ _ h => inStep_ifStatement hagain h
    | «return» => exact inStep_advance.bind fun _ _ h => inStep_returnStatement h
    | «do» => exact inStep_advance.bind fun _ _ h => inStep_doStatement hagain h
    | «while» => exact inStep_advance.bind fun _ _ h => inStep_whileStatement hagain h false
    | «break» =>
      exact inStep_advance.bind fun _ _ h => inStep_wordStatement (like_breakOut.mpr h)
    | «continue» =>
      exact inStep_advance.bind fun _ _ h => inStep_wordStatement (like_continueOn.mpr h)
    | switch => exact inStep_advance.bind fun _ _ h => inStep_switchStatement hagain h
    | _ => exact inStep_expressionStatement
  | punctuation mark =>
    cases mark with
    | lbrace =>
      exact inStep_advance.bind fun _ _ h =>
        (inStep_block hagain h).map Stmt.block fun _ _ => like_blockStmt.mpr
    | _ => exact inStep_expressionStatement
  | _ => exact inStep_expressionStatement

theorem inStep_declarationOrStatement :
    p.InStep (declarationOrStatement fuel again) (declarationOrStatement fuel again) := by
  refine (inStep_accept? _).bind_option (fun _ _ h => inStep_classDeclaration hagain h) ?_
  refine inStep_atFunction.ite ?_ ?_
  · exact inStep_advance.bind fun _ _ h =>
      (inStep_function hagain h).map Stmt.function fun _ _ => like_functionStmt.mpr
  · exact (inStep_accept? _).bind_option (fun _ _ h => inStep_varStatement h)
      (inStep_statement hagain)

end StmtRules

theorem inStep_stmtAt (fuel : Nat) (rule : StmtRule) :
    p.InStep (stmtAt fuel rule) (stmtAt fuel rule) := by
  induction fuel generalizing rule with
  | zero => exact inStep_fail _
  | succ fuel ih =>
    cases rule with
    | statement => exact inStep_statement ih
    | declaration => exact inStep_declarationOrStatement ih

/-! ### Whole files -/

/-- A declaration, be it by recovery, takes both runs to the same. -/
theorem abreast_declaration (h : p.Abreast s s') :
    Like p.likeness (declaration s).1 (declaration s').1 ∧
      p.Abreast (declaration s).2 (declaration s').2 := by
  unfold declaration
  rw [h.remaining_eq]
  exact (inStep_stmtAt _ .declaration).recover h

/-- All declarations up to the end take both runs to the same. -/
theorem abreast_declarations (count : Nat) (h : p.Abreast s s') :
    Like p.likeness (declarations count s).1 (declarations count s').1 ∧
      p.Abreast (declarations count s).2 (declarations count s').2 := by
  induction count generalizing s s' with
  | zero => exact ⟨like_nil, h⟩
  | succ count ih =>
    by_cases hend : s'.cursor.atEnd = true
    · have hend' : s.cursor.atEnd = true := h.atEnd_eq.trans hend
      simp only [declarations, hend, hend', if_true]
      exact ⟨like_nil, h⟩
    · have hend' : ¬ s.cursor.atEnd = true := h.atEnd_eq ▸ hend
      obtain ⟨hstmt, hnext⟩ := abreast_declaration h
      simp only [declarations, hend, hend']
      rcases hdecl : declaration s with ⟨o, t⟩
      rcases hdecl' : declaration s' with ⟨o', t'⟩
      rw [hdecl, hdecl'] at hstmt hnext
      obtain ⟨rfl, rfl⟩ | ⟨stmt, stmt', rfl, rfl, hlike⟩ := hstmt.option_cases
      · exact ih hnext
      · have hparsed : Like p.likeness (ReaderEvent.parsed stmt.name) (.parsed stmt'.name) := by
          rw [like_parsed]
          exact hlike.name_eq
        obtain ⟨hmore, hfinal⟩ := ih (hnext.note hparsed)
        exact ⟨like_cons.mpr ⟨hlike, hmore⟩, hfinal⟩

end Pairing
end CurlyScript
