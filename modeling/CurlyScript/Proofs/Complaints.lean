import CurlyScript.Proofs.Coherence
import CurlyScript.Proofs.Steady

/-!
# What readers complain about

A rule that fails does so at the next token: the error has this token and its span, and the cursor
is left before it.  Errors that are reported while reading goes on are about a token that was read,
or about an expression made of such tokens.  So a property of spans that all tokens have, and that
is kept when one span covers two, is one that all complaints have.

What is left of the tokens, and where the cursor stands, is followed along with this: no rule leaves
the cursor before the place where it began, and a rule for expressions leaves it no earlier than its
first operand does.

## Main definitions

* `Token.Accountable`, `Expr.Accountable` — a property of the spans that complaints are made of.
* `ReaderState.Accountable` — the property holds of all tokens and of what has been reported.
* `Reader.Accounts` — a reader that keeps all this, that fails at the next token only, and what it
  says of its result.
* `Token.opensPrimary` — the first tokens of an expression that is no operation.

## Main results

* `Reader.Accounts.bind` — one reader after another.
* `Reader.accounted_ruleBody` — rules for expressions go on from where their first operand ends.
* `Reader.accounts_expression`, `Reader.accounts_stmtAt` — the rules account for what they say.
* `Reader.accountable_parse` — what is reported of a file has every property of this kind that its
  tokens have.
-/

namespace CurlyScript

/-! ### Tokens, expressions and cursors -/

/-- A property of spans is that of a token, and of its halves if the token is a shift. -/
structure Token.Accountable (P : Span → Prop) (t : Token) : Prop where
  /-- The token has it. -/
  span : P t.span
  /-- The halves of a shift have it. -/
  halves : t.kind = .operator .rsh → P (halfShift t 0).span ∧ P (halfShift t 1).span

/-- A property of spans is that of an expression, also once a value is assigned to it: the span of
such an assignment begins with the object of a member, not with the member. -/
def Expr.Accountable (P : Span → Prop) : Expr → Prop
  | .get object member => P object.span ∧ P member.span
  | e => P e.span

/-- A property of spans that is kept when one span covers two. -/
def CoverClosed (P : Span → Prop) : Prop := ∀ a b : Span, P a → P b → P (a.cover b)

theorem Expr.Accountable.span {P : Span → Prop} (hP : CoverClosed P) {e : Expr}
    (h : e.Accountable P) : P e.span := by
  cases e with
  | get object member => exact hP _ _ h.1 h.2
  | _ => exact h

/-- The error was found at a token, and it is about this token. -/
def SyntaxError.IsAt (e : SyntaxError) (t : Token) : Prop := e.token = t ∧ e.span = t.span

namespace Cursor

theorem position_advance_of_cons {c : Cursor} {t : Token} {rest : List Token}
    (h : c.ahead = t :: rest) : c.advance.position = c.position + 1 := by
  simp [advance, position, h]

/-- A cursor only goes forward, but for what is tried and taken back. -/
theorem Reaches.position_le {c d : Cursor} (h : Reaches c d) : c.position ≤ d.position := by
  induction h with
  | refl => exact Nat.le_refl _
  | @advance _ d _ ih =>
    apply Nat.le_trans ih
    unfold Cursor.advance
    split
    · exact Nat.le_refl _
    · exact Nat.le_succ _
  | @splitShift _ d _ ih =>
    apply Nat.le_trans ih
    rcases splitShift_cases d with hstay | ⟨t, rest, -, -, hsplit⟩
    · rw [hstay]
    · rw [hsplit]
      exact Nat.le_succ _
  | attempt _ tried ih _ =>
    rw [tried.restore_eq]
    exact ih

/-- A next token that is no end is one that is ahead. -/
theorem Placed.ahead_eq {c : Cursor} (h : c.Placed) (hhere : c.here.kind ≠ .endOfFile) :
    ∃ rest, c.ahead = c.here :: rest := by
  rcases hahead : c.ahead with _ | ⟨t, rest⟩
  · refine absurd ?_ hhere
    have hstop := h.stop_isEnd
    rw [Token.isEnd, beq_iff_eq] at hstop
    rw [here, hahead]
    exact hstop
  · exact ⟨rest, by rw [here, hahead]; rfl⟩

end Cursor

/-! ### States -/

/-- A property of spans is that of all tokens and of all errors that have been reported. -/
structure ReaderState.Accountable (P : Span → Prop) (s : ReaderState) : Prop where
  /-- The cursor is before the end. -/
  placed : s.cursor.Placed
  /-- The tokens have it, those that were read and those that are left. -/
  tokens : ∀ t ∈ s.cursor.tokens, t.Accountable P
  /-- The errors have it. -/
  reports : ∀ e, ReaderEvent.reported e ∈ s.log → P e.span

/-- Nothing has to be known of spans to follow where the cursor stands and where rules fail. -/
theorem ReaderState.accountable_of_placed {s : ReaderState} (h : s.cursor.Placed) :
    s.Accountable fun _ => True :=
  ⟨h, fun _ _ => ⟨trivial, fun _ => ⟨trivial, trivial⟩⟩, fun _ _ => trivial⟩

theorem coverClosed_true : CoverClosed fun _ => True := fun _ _ _ _ => trivial

namespace ReaderState.Accountable

variable {P : Span → Prop} {s : ReaderState}

theorem here (h : s.Accountable P) : P s.cursor.here.span :=
  (h.tokens _ s.cursor.here_mem_tokens).span

theorem move (h : s.Accountable P) {c : Cursor} (hc : s.cursor.Reaches c) :
    ({ s with cursor := c } : ReaderState).Accountable P := by
  refine ⟨h.placed.reaches hc, ?_, h.reports⟩
  refine Cursor.forall_of_reaches (fun t ht hkind => ?_) hc h.tokens
  exact ⟨⟨(ht.halves hkind).1, nofun⟩, ⟨(ht.halves hkind).2, nofun⟩⟩

theorem note (h : s.Accountable P) {e : ReaderEvent} (he : e.isComplaint = false) :
    (s.note e).Accountable P := by
  refine ⟨h.placed, h.tokens, fun error herror => ?_⟩
  rcases List.mem_cons.mp herror with rfl | herror
  · cases he
  · exact h.reports error herror

theorem report (h : s.Accountable P) {e : SyntaxError} (he : P e.span) :
    (s.report e).Accountable P := by
  refine ⟨h.placed, h.tokens, fun error herror => ?_⟩
  rcases List.mem_cons.mp herror with heq | herror
  · -- an error that is kept quiet is no report
    split at heq
    · cases heq
    · cases heq
      exact he
  · exact h.reports error herror

theorem past (h : s.Accountable P) : (Reader.past s).Accountable P := h.move (.advance (.refl _))

theorem resume (h : s.Accountable P) : (Reader.resume s).Accountable P :=
  (h.move (Cursor.reaches_skipTo s.cursor Reader.startsDeclaration)).note rfl

end ReaderState.Accountable

/-! ### Readers -/

namespace Reader

variable {α β : Type} {P : Span → Prop} {n : Nat} {Q Q' : α → Prop} {R : β → Prop}
  {s : ReaderState}

/-- What is known of an outcome: the state is accountable, and the cursor has come to the place `n`
at least.  A result is as `Q` says, and a failure is at the next token. -/
inductive Accounted (P : Span → Prop) (n : Nat) (Q : α → Prop) :
    EStateM.Result SyntaxError ReaderState α → Prop
  /-- There is a result. -/
  | ok {a : α} {t : ReaderState} (hle : n ≤ t.cursor.position) (ht : t.Accountable P) (ha : Q a) :
    Accounted P n Q (.ok a t)
  /-- There is none. -/
  | error {e : SyntaxError} {t : ReaderState} (hle : n ≤ t.cursor.position)
      (ht : t.Accountable P) (he : e.IsAt t.cursor.here) : Accounted P n Q (.error e t)

/-- A reader that accounts for what it says: it keeps states accountable, does not go back, and
fails at the next token only.  Its results are as `Q` says. -/
def Accounts (P : Span → Prop) (Q : α → Prop) (r : Reader α) : Prop :=
  ∀ s : ReaderState, s.Accountable P → Accounted P s.cursor.position Q (r s)

theorem Accounted.le_position {result : EStateM.Result SyntaxError ReaderState α}
    (h : Accounted P n Q result) : n ≤ (endState result).cursor.position := by
  cases h with
  | ok hle _ _ => exact hle
  | error hle _ _ => exact hle

/-! ### Putting readers together -/

theorem Accounted.weaken {m : Nat} {result : EStateM.Result SyntaxError ReaderState α}
    (h : Accounted P n Q result) (hm : m ≤ n) (hQ : ∀ a, Q a → Q' a) : Accounted P m Q' result := by
  cases h with
  | ok hle ht ha => exact .ok (Nat.le_trans hm hle) ht (hQ _ ha)
  | error hle ht he => exact .error (Nat.le_trans hm hle) ht he

/-- The second reader goes on from where the first one has come to. -/
theorem Accounted.bind {r : Reader α} {f : α → Reader β} (h : Accounted P n Q (r s))
    (hf : ∀ a, Q a → Accounts P R (f a)) : Accounted P n R ((r >>= f) s) := by
  rcases hr : r s with ⟨a, t⟩ | ⟨e, t⟩
  · rw [hr] at h
    rw [bind_ok hr]
    cases h with
    | ok hle ht ha => exact (hf a ha t ht).weaken hle fun _ hb => hb
  · rw [hr] at h
    rw [bind_error hr]
    cases h with
    | error hle ht he => exact .error hle ht he

theorem accounts_pure {a : α} (ha : Q a) : Accounts P Q (pure a) :=
  fun _ hs => .ok (Nat.le_refl _) hs ha

theorem accounts_anything (a : α) : Accounts P anything (pure a) := accounts_pure trivial

theorem accounts_fail (cause : Cause) : Accounts P Q (fail cause) :=
  fun _ hs => .error (Nat.le_refl _) hs ⟨rfl, rfl⟩

theorem Accounts.bind {r : Reader α} {f : α → Reader β} (h : Accounts P Q r)
    (hf : ∀ a, Q a → Accounts P R (f a)) : Accounts P R (r >>= f) :=
  fun s hs => (h s hs).bind hf

theorem Accounts.map {r : Reader α} {f : α → β} (h : Accounts P Q r) (hf : ∀ a, Q a → R (f a)) :
    Accounts P R (f <$> r) := by
  rw [map_eq_pure_bind]
  exact h.bind fun a ha => accounts_pure (hf a ha)

theorem Accounts.weaken {r : Reader α} (h : Accounts P Q r) (hQ : ∀ a, Q a → Q' a) :
    Accounts P Q' r := fun s hs => (h s hs).weaken (Nat.le_refl _) hQ

/-- After a reader that may find nothing: the two cases apart. -/
theorem Accounted.bind_option {r : Reader (Option α)} {f : Option α → Reader β}
    (h : Accounted P n (optional Q) (r s)) (hsome : ∀ a, Q a → Accounts P R (f (some a)))
    (hnone : Accounts P R (f none)) : Accounted P n R ((r >>= f) s) := by
  refine h.bind fun found hfound => ?_
  cases found with
  | none => exact hnone
  | some a => exact hsome a (hfound a rfl)

theorem Accounts.bind_option {r : Reader (Option α)} {f : Option α → Reader β}
    (h : Accounts P (optional Q) r) (hsome : ∀ a, Q a → Accounts P R (f (some a)))
    (hnone : Accounts P R (f none)) : Accounts P R (r >>= f) :=
  fun s hs => (h s hs).bind_option hsome hnone

/-- A choice by a truth value that is found. -/
theorem Accounts.ite {c : Reader Bool} {r q : Reader β} (hc : Accounts P anything c)
    (hyes : Accounts P R r) (hno : Accounts P R q) : Accounts P R (do if ← c then r else q) := by
  refine hc.bind fun b _ => ?_
  cases b with
  | false => exact hno
  | true => exact hyes

/-- A reader that only looks. -/
theorem accounts_look {f : ReaderState → α} : Accounts P anything (fun s => .ok (f s) s) :=
  fun _ hs => .ok (Nat.le_refl _) hs trivial

theorem accounts_here : Accounts P (P ∘ Token.span) here :=
  fun _ hs => .ok (Nat.le_refl _) hs hs.here

theorem accounts_advance : Accounts P (P ∘ Token.span) advance :=
  fun s hs => .ok (leads_past s).reaches.position_le hs.past hs.here

/-- Moving past a token that is ahead. -/
theorem accounted_advance {t : Token} {rest : List Token} (hs : s.Accountable P)
    (hahead : s.cursor.ahead = t :: rest) :
    Accounted P (s.cursor.position + 1) (P ∘ Token.span) (advance s) :=
  .ok (Nat.le_of_eq (Cursor.position_advance_of_cons hahead).symm) hs.past hs.here

theorem accounts_report {e : SyntaxError} (he : P e.span) : Accounts P anything (report e) :=
  fun _ hs => .ok (Nat.le_refl _) (hs.report he) trivial

/-- Saying something that is no complaint. -/
theorem accounts_note {e : ReaderEvent} (he : e.isComplaint = false) :
    Accounts P anything (note e) :=
  fun _ hs => .ok (Nat.le_refl _) (hs.note he) trivial

/-- A rule that takes what is left to read as its bound. -/
theorem accounts_bounded {f : Nat → Reader α} (hf : ∀ fuel, Accounts P Q (f fuel)) :
    Accounts P Q (do f (← remaining)) := fun s hs => hf _ s hs

/-! ### Single tokens -/

theorem accounts_accept? (kind : Kind) :
    Accounts P (optional (P ∘ Token.span)) (accept? kind) :=
  accounts_look.ite (accounts_advance.bind fun _ ht => accounts_pure (optional_some ht))
    (accounts_pure optional_none)

theorem accounts_acceptMark? (mark : Punctuation) :
    Accounts P (optional (P ∘ Token.span)) (acceptMark? mark) := accounts_accept? _

theorem accounts_acceptOperator? (ops : List Operator) :
    Accounts P (optional (P ∘ Token.span)) (acceptOperator? ops) := by
  refine accounts_here.bind fun t _ => ?_
  split
  · split
    · exact accounts_advance.bind fun _ ht => accounts_pure (optional_some ht)
    · exact accounts_pure optional_none
  · exact accounts_pure optional_none

theorem accounts_expect (kind : Kind) (what : Expectation) :
    Accounts P (P ∘ Token.span) (expect kind what) :=
  (accounts_accept? kind).bind_option (fun _ ht => accounts_pure ht) (accounts_fail _)

theorem accounts_expectMark (mark : Punctuation) (what : Expectation) :
    Accounts P (P ∘ Token.span) (expectMark mark what) := accounts_expect _ _

theorem accounts_expectName (what : Expectation) :
    Accounts P (P ∘ Token.span) (expectName what) := accounts_expect _ _

theorem accounts_closeAngle? : Accounts P (optional anything) closeAngle? := by
  refine (accounts_accept? _).bind_option (fun _ _ => accounts_pure (optional_some trivial)) ?_
  refine accounts_look.ite (fun s hs => ?_) (accounts_pure optional_none)
  -- the shift is split, and the cursor is past its first half
  exact .ok (leads_pastHalf s s.cursor.here).reaches.position_le
    ((hs.move (.splitShift (.refl _))).note rfl) (optional_some trivial)

/-! ### Repeating and recovering -/

theorem accounts_commaSeparated {item : Reader α} (hitem : Accounts P anything item)
    (count : Nat) : Accounts P anything (commaSeparated item count) := by
  induction count with
  | zero => exact hitem.bind fun _ _ => accounts_anything _
  | succ count ih =>
    refine hitem.bind fun _ _ => (accounts_acceptMark? .comma).bind_option (fun _ _ => ?_) ?_
    · exact ih.bind fun _ _ => accounts_anything _
    · exact accounts_anything _

theorem accounts_listUpTo (close : Punctuation) {item : Reader α} (hitem : Accounts P Q item)
    (fuel : Nat) : Accounts P anything (listUpTo close item fuel) :=
  accounts_look.ite (accounts_anything _)
    (accounts_commaSeparated (hitem.weaken fun _ _ => trivial) fuel)

/-- A failure that is caught is reported with the span of a token. -/
theorem Accounts.recover {r : Reader α} (h : Accounts P Q r) (hs : s.Accountable P) :
    (recover r s).2.Accountable P ∧ s.cursor.position ≤ (recover r s).2.cursor.position := by
  have hrun := h s hs
  unfold Reader.recover
  generalize r s = result at hrun
  cases hrun with
  | ok hle ht _ => exact ⟨ht, hle⟩
  | @error e t hle ht he =>
    have hspan : P e.span := he.2 ▸ ht.here
    refine ⟨(ht.report hspan).resume, Nat.le_trans hle ?_⟩
    exact (leads_resume (t.report e)).reaches.position_le

theorem accounts_recovered {r : Reader α} (h : Accounts P Q r) :
    Accounts P anything (recovered r) := by
  intro s hs
  obtain ⟨ht, hle⟩ := h.recover hs
  exact .ok hle ht trivial

/-! ### Types -/

theorem accounts_angleList {entry : Reader TypeRef} (hentry : Accounts P anything entry)
    (fuel : Nat) : Accounts P anything (angleList fuel entry) :=
  (accounts_expect _ _).bind fun _ _ => (accounts_commaSeparated hentry fuel).bind fun _ _ =>
    accounts_closeAngle?.bind_option (fun _ _ => accounts_anything _) (accounts_fail _)

theorem accounts_angleList? {entry : Reader TypeRef} (hentry : Accounts P anything entry)
    (fuel : Nat) : Accounts P anything (angleList? fuel entry) :=
  accounts_look.ite ((accounts_angleList hentry fuel).map fun _ _ => trivial)
    (accounts_anything _)

theorem accounts_typeAfter? (mark : Punctuation) {type : Reader TypeRef}
    (htype : Accounts P anything type) : Accounts P anything (typeAfter? mark type) :=
  (accounts_acceptMark? mark).bind_option (fun _ _ => htype.map fun _ _ => trivial)
    (accounts_anything _)

theorem accounts_typeAt (fuel : Nat) (what : Expectation) :
    Accounts P anything (typeAt fuel what) := by
  induction fuel generalizing what with
  | zero => exact accounts_fail _
  | succ fuel ih =>
    refine (accounts_expectName what).bind fun _ _ => ?_
    refine (accounts_angleList? (ih _) fuel).bind fun _ _ => ?_
    exact (accounts_typeAfter? .colon (ih _)).bind fun _ _ => accounts_anything _

theorem accounts_typeRef : Accounts P anything typeRef :=
  accounts_bounded fun _ => accounts_typeAt _ _

theorem accounts_typeArguments : Accounts P anything typeArguments :=
  accounts_bounded fun fuel => accounts_angleList (accounts_typeAt fuel _) fuel

theorem accounts_typeParameters? : Accounts P anything typeParameters? :=
  accounts_bounded fun fuel => accounts_angleList? (accounts_typeAt fuel _) fuel

theorem accounts_parameters : Accounts P anything parameters := by
  have hparameter : Accounts P anything parameter :=
    (accounts_expectName _).bind fun _ _ => (accounts_expectMark _ _).bind fun _ _ =>
      accounts_typeRef.bind fun _ _ => accounts_anything _
  refine (accounts_bounded fun fuel => accounts_listUpTo .rparen hparameter fuel).bind fun _ _ => ?_
  exact (accounts_expectMark _ _).bind fun _ _ => accounts_anything _

theorem accounts_returnType? : Accounts P anything returnType? :=
  accounts_typeAfter? .arrow accounts_typeRef

/-! ### Trying -/

/-- What is taken back leaves the cursor where it was. -/
theorem accounted_takenBack {t : ReaderState} (hs : s.Accountable P) (ht : t.Accountable P)
    (hleads : s.Leads t) {e : ReaderEvent} (he : e.isComplaint = false) :
    Accounted P s.cursor.position (optional Q) (.ok none (takenBack s t e)) := by
  have hcursor := cursor_takenBack hleads e
  have hback : (takenBack s t e).Accountable P :=
    ⟨hcursor ▸ hs.placed, hcursor ▸ hs.tokens, (ht.note he).reports⟩
  refine .ok ?_ hback optional_none
  rw [hcursor]

theorem accounts_callTypeArguments? : Accounts P (optional anything) callTypeArguments? := by
  intro s hs
  have hnoted : (s.note (.tryingGenerics s.cursor.here.span)).Accountable P := hs.note rfl
  have hrun := accounts_typeArguments _ hnoted
  have hleads : s.Leads (endState (typeArguments (s.note (.tryingGenerics s.cursor.here.span)))) :=
    (s.leads_note (.tryingGenerics s.cursor.here.span) trivial rfl).trans
      (meets_typeArguments _ _ hnoted.placed.from_self (Nat.lt_succ_self _)).leads
  -- unless a parenthesis follows, the cursor goes back to where the attempt began
  rw [Pairing.callTypeArguments?_eq]
  generalize typeArguments (s.note _) = result at hrun hleads
  cases hrun with
  | ok hle ht ha =>
    dsimp only
    split
    · exact .ok hle ht (optional_some trivial)
    · exact accounted_takenBack hs ht hleads rfl
  | error hle ht he => exact accounted_takenBack hs ht hleads rfl

theorem accounts_loopType? (keyword : Token) :
    Accounts P (optional anything) (loopType? keyword) := by
  intro s hs
  have hrun := accounts_typeRef s hs
  have hleads := (meets_typeRef _ s hs.placed.from_self (Nat.lt_succ_self _)).leads
  rw [Pairing.loopType?_eq]
  generalize typeRef s = result at hrun hleads
  cases hrun with
  | ok hle ht ha =>
    dsimp only
    split
    · exact .ok hle ht (optional_some trivial)
    · exact accounted_takenBack hs ht hleads rfl
  | error hle ht he => exact accounted_takenBack hs ht hleads rfl

end Reader

/-! ### Expressions -/

/-- Whether an expression that is no operation begins with a token.  A literal has to have its
value. -/
def Token.opensPrimary (t : Token) : Bool :=
  match t.kind with
  | .literal .identifier => true
  | .literal _ => t.literal.isSome
  | .keyword word => [Keyword.true, .false, .this, .fn].contains word
  | .punctuation mark => mark == .lparen || mark == .lbracket
  | _ => false

namespace Reader

variable {α β : Type} {P : Span → Prop} {n : Nat} {Q : α → Prop} {R : β → Prop} {s : ReaderState}

/-- Where no such expression begins, none is read. -/
theorem primary_of_not_opens (fuel : Nat) (again : Rule → Reader Expr)
    (h : s.cursor.here.opensPrimary = false) :
    primary fuel again s = fail .expectedExpression s := by
  have hhere : here s = .ok s.cursor.here s := rfl
  rw [primary, bind_ok hhere]
  unfold Token.opensPrimary at h
  rcases hkind : s.cursor.here.kind with op | word | kind | mark | _ | _
  · rfl
  · rw [hkind] at h
    cases word with
    | true | false | this | fn => cases h
    | _ => rfl
  · rw [hkind] at h
    cases kind with
    | identifier => cases h
    | _ =>
      rw [Option.isSome_eq_false_iff, Option.isNone_iff_eq_none] at h
      simp only [h]
  · rw [hkind] at h
    cases mark with
    | lparen | lbracket => cases h
    | _ => rfl
  · rfl
  · rfl

section ExprRules

variable (hP : CoverClosed P) {fuel : Nat} {again : Rule → Reader Expr}
  (hagain : ∀ rule, Accounts P (Expr.Accountable P) (again rule))

include hP hagain

theorem accounts_lambda {keyword : Token} (hkeyword : P keyword.span) :
    Accounts P (Expr.Accountable P) (lambda again keyword) := by
  refine accounts_typeParameters?.bind fun _ _ => (accounts_expectMark _ _).bind fun _ _ => ?_
  refine accounts_parameters.bind fun _ _ => accounts_returnType?.bind fun _ _ => ?_
  exact (hagain .expression).bind fun _ hbody => accounts_pure (hP _ _ hkeyword (hbody.span hP))

theorem accounts_grouping {lparen : Token} (hlparen : P lparen.span) :
    Accounts P (Expr.Accountable P) (grouping again lparen) :=
  (hagain .expression).bind fun _ _ => (accounts_expectMark _ _).bind fun _ hrparen =>
    accounts_pure (hP _ _ hlparen hrparen)

theorem accounts_array {bracket : Token} (hbracket : P bracket.span) :
    Accounts P (Expr.Accountable P) (array fuel again bracket) :=
  (accounts_listUpTo _ (hagain .expression) fuel).bind fun _ _ =>
    (accounts_expectMark _ _).bind fun _ hclose => accounts_pure (hP _ _ hbracket hclose)

/-- Where an expression that is no operation begins, its first token is passed. -/
theorem accounted_primary (hs : s.Accountable P) (h : s.cursor.here.opensPrimary = true) :
    Accounted P (s.cursor.position + 1) (Expr.Accountable P) (primary fuel again s) := by
  have hhere : here s = .ok s.cursor.here s := rfl
  have hkind : s.cursor.here.kind ≠ .endOfFile := by
    intro hend
    rw [Token.opensPrimary, hend] at h
    cases h
  obtain ⟨rest, hahead⟩ := hs.placed.ahead_eq hkind
  have hpast {f : Token → Reader Expr}
      (hf : ∀ t : Token, P t.span → Accounts P (Expr.Accountable P) (f t)) :
      Accounted P (s.cursor.position + 1) (Expr.Accountable P) ((advance >>= f) s) :=
    (accounted_advance hs hahead).bind hf
  rw [primary, bind_ok hhere]
  unfold Token.opensPrimary at h
  rcases hkind : s.cursor.here.kind with op | word | kind | mark | _ | _
  · rw [hkind] at h
    cases h
  · rw [hkind] at h
    cases word with
    | true | false | this => exact hpast fun _ ht => accounts_pure ht
    | fn => exact hpast fun _ ht => accounts_lambda hP hagain ht
    | _ => cases h
  · rw [hkind] at h
    cases kind with
    | identifier => exact hpast fun _ ht => accounts_pure ht
    | _ =>
      obtain ⟨value, hvalue⟩ := Option.isSome_iff_exists.mp h
      simp only [hvalue]
      exact hpast fun _ ht => accounts_pure ht
  · rw [hkind] at h
    cases mark with
    | lparen => exact hpast fun _ ht => accounts_grouping hP hagain ht
    | lbracket => exact hpast fun _ ht => accounts_array hP hagain ht
    | _ => cases h
  · rw [hkind] at h
    cases h
  · rw [hkind] at h
    cases h

theorem accounts_primary : Accounts P (Expr.Accountable P) (primary fuel again) := by
  intro s hs
  cases hopens : s.cursor.here.opensPrimary with
  | true => exact (accounted_primary hP hagain hs hopens).weaken (Nat.le_succ _) fun _ h => h
  | false =>
    rw [primary_of_not_opens fuel again hopens]
    exact accounts_fail _ s hs

theorem accounts_finishCall {callee : Expr} (hcallee : callee.Accountable P)
    (generics : Option TypeList) :
    Accounts P (Expr.Accountable P) (finishCall fuel again callee generics) :=
  (accounts_listUpTo _ (hagain .expression) fuel).bind fun _ _ =>
    (accounts_expectMark _ _).bind fun _ hparen => accounts_pure (hP _ _ (hcallee.span hP) hparen)

theorem accounts_placeSuffix? {e : Expr} (he : e.Accountable P) :
    Accounts P (optional (Expr.Accountable P)) (placeSuffix? fuel again e) := by
  refine accounts_look.ite ?_ ?_
  · refine accounts_callTypeArguments?.bind_option (fun generics _ => ?_)
      (accounts_pure optional_none)
    refine accounts_advance.bind fun _ _ => ?_
    exact (accounts_finishCall hP hagain he (some generics)).map fun _ => optional_some
  · refine (accounts_acceptOperator? _).bind_option (fun op hop => ?_) (accounts_pure optional_none)
    exact accounts_pure (optional_some (hP _ _ (he.span hP) hop))

theorem accounts_suffix? {e : Expr} (he : e.Accountable P) :
    Accounts P (optional (Expr.Accountable P)) (suffix? fuel again e) := by
  refine (accounts_acceptMark? .dot).bind_option (fun _ _ => ?_) ?_
  · refine (accounts_expectName _).bind fun member hmember => ?_
    exact accounts_pure (optional_some ⟨he.span hP, hmember⟩)
  refine (accounts_acceptMark? .lparen).bind_option (fun _ _ => ?_) ?_
  · exact (accounts_finishCall hP hagain he none).map fun _ => optional_some
  refine (accounts_acceptMark? .lbracket).bind_option (fun _ _ => ?_) ?_
  · refine (hagain .expression).bind fun _ _ => (accounts_expectMark _ _).bind ?_
    intro bracket hbracket
    exact accounts_pure (optional_some (hP _ _ (he.span hP) hbracket))
  · simp only [Option.isSome_none, Bool.false_eq_true, if_false]
    split
    · exact accounts_placeSuffix? hP hagain he
    · exact accounts_pure optional_none

theorem accounts_suffixes (count : Nat) {e : Expr} (he : e.Accountable P) :
    Accounts P (Expr.Accountable P) (suffixes fuel again count e) := by
  induction count generalizing e with
  | zero => exact accounts_pure he
  | succ count ih =>
    exact (accounts_suffix? hP hagain he).bind_option (fun _ hlonger => ih hlonger)
      (accounts_pure he)

/-- What follows the place where an operator before an operand may stand. -/
theorem accounted_unary (h : Accounted P n (optional (P ∘ Token.span))
    (acceptOperator? prefixOperators s)) :
    Accounted P n (Expr.Accountable P) (unary fuel again s) := by
  refine h.bind_option (fun op hop => ?_) ?_
  · exact (hagain .unary).bind fun _ hoperand => accounts_pure (hP _ _ hop (hoperand.span hP))
  · exact (accounts_primary hP hagain).bind fun _ he => accounts_suffixes hP hagain fuel he

theorem accounts_unary : Accounts P (Expr.Accountable P) (unary fuel again) :=
  fun s hs => accounted_unary hP hagain (accounts_acceptOperator? _ s hs)

/-! ### After the first operand -/

theorem accounted_power (h : Accounted P n (Expr.Accountable P) (unary fuel again s)) :
    Accounted P n (Expr.Accountable P) (power fuel again s) := by
  refine h.bind fun base hbase => ?_
  refine (accounts_acceptOperator? _).bind_option (fun op _ => ?_) (accounts_pure hbase)
  refine (hagain .power).bind fun exponent hexponent => ?_
  exact accounts_pure (hP _ _ (hbase.span hP) (hexponent.span hP))

section Operands

variable {operand : Reader Expr} (hoperand : Accounts P (Expr.Accountable P) operand)

include hoperand

omit hagain in
theorem accounts_chain (ops : List Operator) (count : Nat) {left : Expr}
    (hleft : left.Accountable P) :
    Accounts P (Expr.Accountable P) (chain ops operand count left) := by
  induction count generalizing left with
  | zero => exact accounts_pure hleft
  | succ count ih =>
    refine (accounts_acceptOperator? ops).bind_option (fun op _ => ?_) (accounts_pure hleft)
    exact hoperand.bind fun right hright => ih (hP _ _ (hleft.span hP) (hright.span hP))

omit hagain in
theorem accounts_comparison (ops : List Operator) {left : Expr} (hleft : left.Accountable P) :
    Accounts P (Expr.Accountable P) (comparison ops operand left) := by
  refine (accounts_acceptOperator? ops).bind_option (fun op _ => ?_) (accounts_pure hleft)
  refine hoperand.bind fun right hright => accounts_here.bind fun t _ => ?_
  have hwhole : Accounts P (Expr.Accountable P) (pure (.binary left op right)) :=
    accounts_pure (hP _ _ (hleft.span hP) (hright.span hP))
  split
  · split
    · exact accounts_fail _
    · exact hwhole
  · exact hwhole

end Operands

omit hagain in
/-- The operations of a level go on from where its first operand has come to. -/
theorem accounted_level {level : Level} {tighter : List Level}
    (htighter : Accounts P (Expr.Accountable P) (binary fuel again tighter))
    (h : Accounted P n (Expr.Accountable P) (binary fuel again tighter s)) :
    Accounted P n (Expr.Accountable P) (binary fuel again (level :: tighter) s) := by
  refine h.bind fun left hleft => ?_
  split
  · exact accounts_chain hP htighter level.operators fuel hleft
  · exact accounts_comparison hP htighter level.operators hleft

theorem accounts_binary (levels : List Level) :
    Accounts P (Expr.Accountable P) (binary fuel again levels) := by
  induction levels with
  | nil => exact fun s hs => accounted_power hP hagain (accounts_unary hP hagain s hs)
  | cons level tighter ih => exact fun s hs => accounted_level hP ih (ih s hs)

theorem accounted_binary (h : Accounted P n (Expr.Accountable P) (unary fuel again s))
    (levels : List Level) :
    Accounted P n (Expr.Accountable P) (binary fuel again levels s) := by
  induction levels with
  | nil => exact accounted_power hP hagain h
  | cons level tighter ih =>
    exact accounted_level hP (accounts_binary hP hagain tighter) ih

theorem accounted_ternary (h : Accounted P n (Expr.Accountable P) (unary fuel again s)) :
    Accounted P n (Expr.Accountable P) (ternary fuel again s) := by
  refine (accounted_binary hP hagain h binaryLevels).bind fun condition hcondition => ?_
  refine (accounts_acceptMark? _).bind fun question _ => ?_
  cases question with
  | none => exact accounts_pure hcondition
  | some _ =>
    refine (hagain .expression).bind fun _ _ => (accounts_expectMark _ _).bind fun _ _ => ?_
    refine (hagain .ternary).bind fun no hno => ?_
    exact accounts_pure (hP _ _ (hcondition.span hP) (hno.span hP))

omit hagain in
/-- A target that cannot be assigned to is reported with the span of an expression. -/
theorem accounts_assignTo {target value : Expr} (htarget : target.Accountable P)
    (hvalue : value.Accountable P) (op : Token) (compound : Option Operator) :
    Accounts P (Expr.Accountable P) (assignTo target op compound value) := by
  have hassigned : P (assignedValue target op compound value).span := by
    cases compound with
    | none => exact hvalue.span hP
    | some base => exact hP _ _ (htarget.span hP) (hvalue.span hP)
  unfold assignTo
  split
  · exact accounts_pure (hP _ _ htarget hassigned)
  · exact accounts_pure (hP _ _ htarget.1 hassigned)
  · exact (accounts_report (htarget.span hP)).bind fun _ _ => accounts_pure htarget

theorem accounted_assignment (h : Accounted P n (Expr.Accountable P) (unary fuel again s)) :
    Accounted P n (Expr.Accountable P) (assignment fuel again s) := by
  refine (accounted_ternary hP hagain h).bind fun target htarget => ?_
  refine accounts_here.bind fun t _ => ?_
  split
  · split
    · refine accounts_advance.bind fun token _ => (hagain .expression).bind fun value hvalue => ?_
      exact accounts_assignTo hP htarget hvalue token _
    · exact accounts_pure htarget
  · exact accounts_pure htarget

/-- Whatever the rule is, it goes on from where its first operand has come to. -/
theorem accounted_ruleBody (h : Accounted P n (Expr.Accountable P) (unary fuel again s))
    (rule : Rule) : Accounted P n (Expr.Accountable P) (rule.body fuel again s) := by
  cases rule with
  | expression => exact accounted_assignment hP hagain h
  | ternary => exact accounted_ternary hP hagain h
  | power => exact accounted_power hP hagain h
  | unary => exact h

end ExprRules

theorem accounts_ruleAt (hP : CoverClosed P) (fuel : Nat) (rule : Rule) :
    Accounts P (Expr.Accountable P) (ruleAt fuel rule) := by
  induction fuel generalizing rule with
  | zero => exact accounts_fail _
  | succ fuel ih => exact fun s hs => accounted_ruleBody hP ih (accounts_unary hP ih s hs) rule

theorem accounts_expression (hP : CoverClosed P) :
    Accounts P (Expr.Accountable P) expression :=
  accounts_bounded fun fuel => accounts_ruleAt hP fuel .expression

theorem accounts_expression? (hP : CoverClosed P) : Accounts P anything expression? := by
  refine accounts_here.bind fun t _ => ?_
  split
  · exact (accounts_expression hP).map fun _ _ => trivial
  · exact accounts_anything _

/-! ### Variables and conditions -/

/-- A property of spans is that of the name of a variable. -/
def named (P : Span → Prop) (d : VarDecl) : Prop := P d.name.span

theorem accounts_varHead (keyword : Token) : Accounts P (named P) (varHead keyword) :=
  (accounts_accept? _).bind fun _ _ => (accounts_expectName _).bind fun _ hname =>
    accounts_pure hname

/-- A variable without a value is reported with the span of its name. -/
theorem accounts_varValue (hP : CoverClosed P) {decl : VarDecl} (hdecl : named P decl) :
    Accounts P anything (varValue decl) := by
  refine (accounts_accept? _).bind_option (fun _ _ => ?_) ?_
  · exact (accounts_expression hP).bind fun _ _ => accounts_anything _
  · show Accounts P anything (withoutValue decl)
    unfold withoutValue
    split
    · exact accounts_anything _
    · refine accounts_here.bind fun _ _ => ?_
      exact (accounts_report hdecl).bind fun _ _ => accounts_anything _

theorem accounts_varDecl (hP : CoverClosed P) (keyword : Token) :
    Accounts P anything (varDecl keyword) := by
  refine (accounts_varHead keyword).bind fun head hhead => ?_
  refine (accounts_acceptMark? .colon).bind_option (fun _ _ => ?_) (accounts_varValue hP hhead)
  exact accounts_typeRef.bind fun _ _ => accounts_varValue hP hhead

theorem accounts_condition (hP : CoverClosed P) : Accounts P anything condition := by
  refine (accounts_expression? hP).bind fun found _ => ?_
  cases found with
  | some e => exact accounts_anything _
  | none =>
    exact accounts_here.bind fun _ _ => (accounts_note rfl).bind fun _ _ => accounts_anything _

theorem accounts_closeHeader (parenthesized : Bool) (what : Expectation) :
    Accounts P anything (closeHeader parenthesized what) := by
  unfold closeHeader
  split
  · exact (accounts_expectMark _ _).bind fun _ _ => accounts_anything _
  · exact accounts_anything _

/-! ### Statements and declarations -/

section StmtRules

variable (hP : CoverClosed P) {fuel : Nat} {again : StmtRule → Reader Stmt}
  (hagain : ∀ rule, Accounts P anything (again rule))

include hagain

theorem accounts_blockBody (count : Nat) : Accounts P anything (blockBody again count) := by
  induction count with
  | zero => exact accounts_anything _
  | succ count ih =>
    refine accounts_look.ite (accounts_anything _) ?_
    refine (accounts_recovered (hagain .declaration)).bind fun found _ => ?_
    cases found with
    | none => exact ih
    | some stmt => exact ih.bind fun _ _ => accounts_anything _

theorem accounts_block (lbrace : Token) : Accounts P anything (block fuel again lbrace) :=
  (accounts_blockBody hagain fuel).bind fun _ _ => (accounts_expectMark _ _).bind fun _ _ =>
    accounts_anything _

theorem accounts_function (keyword : Token) :
    Accounts P anything (function fuel again keyword) := by
  refine (accounts_expectName _).bind fun _ _ => accounts_typeParameters?.bind fun _ _ => ?_
  refine (accounts_expectMark _ _).bind fun _ _ => accounts_parameters.bind fun _ _ => ?_
  refine accounts_returnType?.bind fun _ _ => (accounts_expectMark _ _).bind fun lbrace _ => ?_
  exact (accounts_block hagain lbrace).bind fun _ _ => accounts_anything _

include hP

theorem accounts_switchCase : Accounts P anything (switchCase fuel again) := by
  refine (accounts_expression hP).bind fun _ _ => (accounts_expectMark _ _).bind fun _ _ => ?_
  refine (accounts_expectMark _ _).bind fun lbrace _ => ?_
  exact (accounts_block hagain lbrace).bind fun _ _ => accounts_anything _

omit hP in
theorem accounts_switchDefault : Accounts P anything (switchDefault fuel again) := by
  refine accounts_advance.bind fun _ _ => accounts_advance.bind fun _ _ => ?_
  exact (accounts_expectMark _ _).bind fun lbrace _ => accounts_block hagain lbrace

omit hP hagain in
/-- A second default is reported with the span of the next token. -/
theorem accounts_refuseSecond (default : Option Block) :
    Accounts P anything (refuseSecond default) := by
  unfold refuseSecond
  split
  · exact accounts_here.bind fun _ ht => accounts_report ht
  · exact accounts_anything _

theorem accounts_switchBody (count : Nat) (default : Option Block) :
    Accounts P anything (switchBody fuel again count default) := by
  induction count generalizing default with
  | zero => exact accounts_anything _
  | succ count ih =>
    refine accounts_look.ite (accounts_anything _) (accounts_look.ite ?_ ?_)
    · refine (accounts_refuseSecond default).bind fun _ _ => ?_
      exact (accounts_switchDefault hagain).bind fun _ _ => ih _
    · refine (accounts_switchCase hP hagain).bind fun _ _ => ?_
      exact (ih default).bind fun _ _ => accounts_anything _

theorem accounts_switchStatement (keyword : Token) :
    Accounts P anything (switchStatement fuel again keyword) := by
  refine (accounts_expression hP).bind fun _ _ => (accounts_expectMark _ _).bind fun _ _ => ?_
  refine (accounts_switchBody hP hagain fuel none).bind fun _ _ => ?_
  exact (accounts_expectMark _ _).bind fun _ _ => accounts_anything _

theorem accounts_classMember {more : Reader (List VarDecl × List FunctionDecl)}
    (hmore : Accounts P anything more) : Accounts P anything (classMember fuel again more) := by
  refine (accounts_accept? _).bind_option (fun keyword _ => ?_) ?_
  · refine (accounts_function hagain keyword).bind fun _ _ => ?_
    exact hmore.bind fun _ _ => accounts_anything _
  refine (accounts_accept? _).bind_option (fun keyword _ => ?_) ?_
  · refine (accounts_varDecl hP keyword).bind fun _ _ => (accounts_acceptMark? _).bind fun _ _ => ?_
    exact hmore.bind fun _ _ => accounts_anything _
  · exact (accounts_acceptMark? _).bind_option (fun _ _ => hmore) (accounts_fail _)

theorem accounts_classBody (count : Nat) : Accounts P anything (classBody fuel again count) := by
  induction count with
  | zero => exact accounts_anything _
  | succ count ih =>
    exact accounts_look.ite (accounts_anything _) (accounts_classMember hP hagain ih)

theorem accounts_classDeclaration (keyword : Token) :
    Accounts P anything (classDeclaration fuel again keyword) := by
  have hsuperclass : Accounts P anything superclass? :=
    (accounts_acceptMark? _).bind_option
      (fun _ _ => (accounts_expectName _).bind fun _ _ => accounts_anything _)
      (accounts_anything _)
  refine (accounts_expectName _).bind fun _ _ => accounts_typeParameters?.bind fun _ _ => ?_
  refine hsuperclass.bind fun _ _ => (accounts_expectMark _ _).bind fun _ _ => ?_
  refine (accounts_classBody hP hagain fuel).bind fun _ _ => ?_
  exact (accounts_expectMark _ _).bind fun _ _ => accounts_anything _

theorem accounts_ifStatement (keyword : Token) :
    Accounts P anything (ifStatement again keyword) := by
  refine (accounts_expression hP).bind fun _ _ => (hagain .statement).bind fun _ _ => ?_
  refine (accounts_accept? _).bind_option (fun _ _ => ?_) (accounts_anything _)
  exact (hagain .statement).bind fun _ _ => accounts_anything _

theorem accounts_whileStatement (keyword : Token) (testedAfter : Bool) :
    Accounts P anything (whileStatement again keyword testedAfter) :=
  (accounts_condition hP).bind fun _ _ => (hagain .statement).bind fun _ _ => accounts_anything _

theorem accounts_forClauses (keyword : Token) (parenthesized : Bool) (init : Option LoopInit) :
    Accounts P anything (forClauses again keyword parenthesized init) := by
  refine (accounts_condition hP).bind fun _ _ => (accounts_expectMark _ _).bind fun _ _ => ?_
  refine (accounts_expression? hP).bind fun _ _ => (accounts_closeHeader _ _).bind fun _ _ => ?_
  exact (hagain .statement).bind fun _ _ => accounts_anything _

theorem accounts_forEachClause (keyword : Token) (parenthesized : Bool) (binding : VarDecl)
    (colon : Token) :
    Accounts P anything (forEachClause again keyword parenthesized binding colon) := by
  refine (accounts_expression hP).bind fun _ _ => (accounts_closeHeader _ _).bind fun _ _ => ?_
  exact (hagain .statement).bind fun _ _ => accounts_anything _

theorem accounts_forVar (keyword : Token) (parenthesized : Bool) {binding : VarDecl}
    (hbinding : named P binding) :
    Accounts P anything (forVar again keyword parenthesized binding) :=
  (accounts_varValue hP hbinding).bind fun _ _ => (accounts_expectMark _ _).bind fun _ _ =>
    accounts_forClauses hP hagain _ _ _

theorem accounts_forDeclared (keyword : Token) (parenthesized : Bool) (varKeyword : Token) :
    Accounts P anything (forDeclared again keyword parenthesized varKeyword) := by
  refine (accounts_varHead varKeyword).bind fun binding hbinding => ?_
  refine (accounts_acceptMark? _).bind_option (fun colon _ => ?_) ?_
  · refine (accounts_loopType? keyword).bind_option (fun type _ => ?_) ?_
    · exact accounts_forVar hP hagain _ _ hbinding
    · exact accounts_forEachClause hP hagain _ _ _ _
  · exact accounts_forVar hP hagain _ _ hbinding

theorem accounts_forStatement (keyword : Token) :
    Accounts P anything (forStatement again keyword) := by
  refine (accounts_acceptMark? _).bind fun paren _ => ?_
  refine (accounts_acceptMark? _).bind_option (fun _ _ => accounts_forClauses hP hagain _ _ _) ?_
  refine (accounts_accept? _).bind_option (fun _ _ => accounts_forDeclared hP hagain _ _ _) ?_
  refine (accounts_expression hP).bind fun _ _ => (accounts_expectMark _ _).bind fun _ _ => ?_
  exact accounts_forClauses hP hagain _ _ _

theorem accounts_statement : Accounts P anything (statement fuel again) := by
  have hexpression : Accounts P anything expressionStatement :=
    (accounts_expression hP).bind fun _ _ => (accounts_acceptMark? _).bind fun _ _ =>
      accounts_anything _
  have hword (stmt : Stmt) : Accounts P anything (wordStatement stmt) :=
    (accounts_acceptMark? _).bind fun _ _ => accounts_anything _
  refine accounts_here.bind fun t _ => ?_
  split
  · exact accounts_advance.bind fun _ _ => accounts_forStatement hP hagain _
  · exact accounts_advance.bind fun _ _ => accounts_ifStatement hP hagain _
  · refine accounts_advance.bind fun _ _ => (accounts_expression? hP).bind fun _ _ => ?_
    exact (accounts_acceptMark? _).bind fun _ _ => accounts_anything _
  · refine accounts_advance.bind fun _ _ => (accounts_expect _ _).bind fun _ _ => ?_
    exact accounts_whileStatement hP hagain _ _
  · exact accounts_advance.bind fun _ _ => accounts_whileStatement hP hagain _ _
  · exact accounts_advance.bind fun _ _ => hword _
  · exact accounts_advance.bind fun _ _ => hword _
  · exact accounts_advance.bind fun _ _ => accounts_switchStatement hP hagain _
  · exact accounts_advance.bind fun _ _ => (accounts_block hagain _).map fun _ _ => trivial
  · exact hexpression

theorem accounts_declarationOrStatement :
    Accounts P anything (declarationOrStatement fuel again) := by
  refine (accounts_accept? _).bind_option
    (fun keyword _ => accounts_classDeclaration hP hagain keyword) ?_
  refine accounts_look.ite ?_ ?_
  · refine accounts_advance.bind fun keyword _ => ?_
    exact (accounts_function hagain keyword).map fun _ _ => trivial
  refine (accounts_accept? _).bind_option (fun keyword _ => ?_) (accounts_statement hP hagain)
  refine (accounts_varDecl hP keyword).bind fun _ _ => ?_
  exact (accounts_acceptMark? _).bind fun _ _ => accounts_anything _

end StmtRules

/-- The rules for statements and declarations account for what they say. -/
theorem accounts_stmtAt (hP : CoverClosed P) (fuel : Nat) (rule : StmtRule) :
    Accounts P anything (stmtAt fuel rule) := by
  induction fuel generalizing rule with
  | zero => exact accounts_fail _
  | succ fuel ih =>
    cases rule with
    | statement => exact accounts_statement hP ih
    | declaration => exact accounts_declarationOrStatement hP ih

/-! ### Whole files -/

end Reader
end CurlyScript
