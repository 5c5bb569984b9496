import CurlyScript.Grammar.Reader
import CurlyScript.Proofs.Cursor

/-!
# Contracts of readers

What there is to say about a rule of the grammar is said once, in its contract: how it moves the
cursor, that it does not depend on the bound it is given for what is left to read, and which
tokens it reads to which part of the syntax tree when nothing is wrong.  The contract of a rule
follows from those of the rules it calls, one lemma for each way of putting rules together.

## Main definitions

* `ReaderState.Leads` — a reader may take one state to the other.
* `Reading` — which tokens are read to which result, and what is left of them.
* `Reader.MeetsAt`, `Reader.Meets` — the contract of a reader in one state, and in all states
  where less than a given amount is left to read.
* `Reader.Silent` — a reader that does not complain, so that it can be tried.

## Main results

* `Reader.Meets.bind` — the contract of one reader after another.
* `Reader.meets_accept?`, `Reader.meets_acceptOperator?`, `Reader.meets_expect`,
  `Reader.meets_closeAngle?` — the contracts of the single steps.
* `Reader.meets_commaSeparated`, `Reader.meetsAt_recovered` — those of a repetition and of a rule
  whose failure is caught.
-/

namespace CurlyScript

/-! ### States that follow each other -/

/-- Whether an event is a syntax error, be it kept quiet. -/
def ReaderEvent.isComplaint : ReaderEvent → Bool
  | .reported _ => true
  | .suppressed _ => true
  | _ => false

/-- Whether an event can happen to a reader that is quiet, or to one that is not. -/
def ReaderEvent.Fits (quiet : Bool) : ReaderEvent → Prop
  | .reported _ => quiet = false
  | .suppressed _ => quiet = true
  | _ => True

namespace ReaderState

/-- A reader may take the first state to the second one. -/
structure Leads (s s' : ReaderState) : Prop where
  /-- The cursor has moved as cursors do. -/
  reaches : s.cursor.Reaches s'.cursor
  /-- Quiet readers stay quiet. -/
  quiet_eq : s'.quiet = s.quiet
  /-- Events are only added, and the flag tells whether a complaint is among them. -/
  exists_said : ∃ said, s'.log = said ++ s.log ∧ (∀ e ∈ said, e.Fits s.quiet) ∧
    (s'.hadError = true ↔ s.hadError = true ∨ ∃ e ∈ said, e.isComplaint = true)

namespace Leads

theorem refl (s : ReaderState) : s.Leads s :=
  ⟨.refl _, rfl, [], rfl, by simp, by simp⟩

theorem trans {s t u : ReaderState} (h : s.Leads t) (h' : t.Leads u) : s.Leads u := by
  obtain ⟨said, hlog, hfits, herror⟩ := h.exists_said
  obtain ⟨more, hlog', hfits', herror'⟩ := h'.exists_said
  refine ⟨h.reaches.trans h'.reaches, h'.quiet_eq.trans h.quiet_eq, more ++ said, ?_, ?_, ?_⟩
  · rw [hlog', hlog, List.append_assoc]
  · intro e he
    rcases List.mem_append.mp he with he | he
    · rw [← h.quiet_eq]
      exact hfits' e he
    · exact hfits e he
  · rw [herror', herror]
    simp only [List.mem_append, or_and_right, exists_or]
    constructor
    · rintro ((h | h) | h)
      · exact .inl h
      · exact .inr (.inr h)
      · exact .inr (.inl h)
    · rintro (h | h | h)
      · exact .inl (.inl h)
      · exact .inr h
      · exact .inl (.inr h)

theorem hadError_eq_false {s s' : ReaderState} (h : s.Leads s') (hs' : s'.hadError = false) :
    s.hadError = false := by
  obtain ⟨said, -, -, herror⟩ := h.exists_said
  rw [← Bool.not_eq_true]
  intro hs
  have := herror.mpr (.inl hs)
  rw [hs'] at this
  cases this

theorem remaining_le {s s' : ReaderState} (h : s.Leads s') :
    s'.cursor.remaining ≤ s.cursor.remaining :=
  h.reaches.remaining_le

theorem from_cursor {c : Cursor} {s s' : ReaderState} (h : s.Leads s') (hs : s.cursor.From c) :
    s'.cursor.From c :=
  hs.trans h.reaches

/-- Moving the cursor only. -/
theorem of_reaches {s : ReaderState} {c : Cursor} (h : s.cursor.Reaches c) :
    s.Leads { s with cursor := c } :=
  ⟨h, rfl, [], rfl, by simp, by simp⟩

end Leads

theorem leads_note (s : ReaderState) (e : ReaderEvent) (hfits : e.Fits s.quiet)
    (he : e.isComplaint = false) : s.Leads (s.note e) :=
  ⟨.refl _, rfl, [e], rfl, by simpa using hfits, by simp [note, he]⟩

theorem leads_report (s : ReaderState) (e : SyntaxError) : s.Leads (s.report e) := by
  unfold report
  refine ⟨.refl _, rfl, [if s.quiet then .suppressed e else .reported e], rfl, ?_, ?_⟩
  · intro event hevent
    rw [List.mem_singleton] at hevent
    subst hevent
    rcases hquiet : s.quiet with _ | _ <;> simp [ReaderEvent.Fits]
  · rcases hquiet : s.quiet with _ | _ <;> simp [ReaderEvent.isComplaint]

end ReaderState

/-! ### Readings -/

/-- Which tokens are read to which result, and what is left of them. -/
abbrev Reading (α : Type) := List Token → α → List Token → Prop

/-- The kind of the first token of some. -/
def headKind? (tokens : List Token) : Option Kind := tokens.head?.map Token.kind

@[simp] theorem headKind?_nil : headKind? [] = none := rfl

@[simp] theorem headKind?_cons (t : Token) (rest : List Token) :
    headKind? (t :: rest) = some t.kind := rfl

theorem headKind?_eq_some_iff {tokens : List Token} {kind : Kind} :
    headKind? tokens = some kind ↔ ∃ t rest, tokens = t :: rest ∧ t.kind = kind := by
  cases tokens <;> simp

/-- Whether none of some operators comes first. -/
def NoOperator (ops : List Operator) (tokens : List Token) : Prop :=
  ∀ op ∈ ops, headKind? tokens ≠ some (.operator op)

namespace Reading

/-- Nothing is read. -/
def done {α : Type} (a : α) : Reading α := fun tokens b rest => b = a ∧ rest = tokens

/-- One reading after another. -/
def andThen {α β : Type} (P : Reading α) (Q : α → Reading β) : Reading β :=
  fun tokens b rest => ∃ a between, P tokens a between ∧ Q a between b rest

/-- One reading after another that may find nothing. -/
def cases {α β : Type} (P : Reading (Option α)) (Q : α → Reading β) (N : Reading β) : Reading β :=
  fun tokens b rest =>
    (∃ a between, P tokens (some a) between ∧ Q a between b rest) ∨
      ∃ between, P tokens none between ∧ N between b rest

/-- One of two readings, by the kind of the first token. -/
def branch {α : Type} (kind : Kind) (P N : Reading α) : Reading α := fun tokens a rest =>
  (headKind? tokens = some kind ∧ P tokens a rest) ∨
    (headKind? tokens ≠ some kind ∧ N tokens a rest)

/-- A token of a kind. -/
def token (kind : Kind) : Reading Token := fun tokens t rest => tokens = t :: rest ∧ t.kind = kind

/-- A token of a kind, if it comes first. -/
def token? (kind : Kind) : Reading (Option Token) := fun tokens o rest =>
  match o with
  | some t => tokens = t :: rest ∧ t.kind = kind
  | none => headKind? tokens ≠ some kind ∧ rest = tokens

/-- One of some operators, if it comes first. -/
def operator? (ops : List Operator) : Reading (Option Token) := fun tokens o rest =>
  match o with
  | some t => tokens = t :: rest ∧ ∃ op ∈ ops, t.kind = .operator op
  | none => NoOperator ops tokens ∧ rest = tokens

/-- A reading that is kept only if the rest is as `Q` wants it.  Otherwise nothing is read. -/
def keptIf {α : Type} (P : Reading α) (Q : List Token → Prop) : Reading (Option α) :=
  fun tokens o rest =>
    match o with
    | some a => P tokens a rest ∧ Q rest
    | none => (¬ ∃ a between, P tokens a between ∧ Q between) ∧ rest = tokens

end Reading

/-- A list of types is closed by an angle bracket, or by the first half of a shift, whose second
half is left. -/
inductive Closes : List Token → Token → List Token → Prop
  /-- By a bracket. -/
  | angle {t : Token} {rest : List Token} (h : t.kind = .operator .greater) :
    Closes (t :: rest) t rest
  /-- By half of a shift. -/
  | shift {t : Token} {rest : List Token} (h : t.kind = .operator .rsh) :
    Closes (t :: rest) (halfShift t 0) (halfShift t 1 :: rest)

/-- A closing angle bracket, if one comes first. -/
def Reading.closing? : Reading (Option Token) := fun tokens o rest =>
  match o with
  | some t => Closes tokens t rest
  | none => NoOperator [.greater, .rsh] tokens ∧ rest = tokens

namespace Reader

variable {α β : Type} {c : Cursor}

/-! ### Contracts -/

/-- The state in which a reader ends, be it by a failure. -/
def endState : EStateM.Result SyntaxError ReaderState α → ReaderState
  | .ok _ s => s
  | .error _ s => s

@[simp] theorem endState_ok (a : α) (s : ReaderState) :
    endState (.ok a s : EStateM.Result SyntaxError ReaderState α) = s := rfl

@[simp] theorem endState_error (e : SyntaxError) (s : ReaderState) :
    endState (.error e s : EStateM.Result SyntaxError ReaderState α) = s := rfl

/-- The error with which a reader ends, if it fails. -/
def fault? : EStateM.Result SyntaxError ReaderState α → Option SyntaxError
  | .ok _ _ => none
  | .error e _ => some e

@[simp] theorem fault?_ok (a : α) (s : ReaderState) :
    fault? (.ok a s : EStateM.Result SyntaxError ReaderState α) = none := rfl

@[simp] theorem fault?_error (e : SyntaxError) (s : ReaderState) :
    fault? (.error e s : EStateM.Result SyntaxError ReaderState α) = some e := rfl

/-- The contract of a reader in one state.  The second reader is one that should come to the
same; `moves` tells by the result whether a token has been passed. -/
structure MeetsAt (s : ReaderState) (moves : α → Bool) (r r' : Reader α)
    (P : α → List Token → Prop) : Prop where
  /-- Both readers come to the same. -/
  agree : r' s = r s
  /-- The state in which the reader ends follows the one in which it begins. -/
  leads : s.Leads (endState (r s))
  /-- Where a token must have been passed, less is left to read. -/
  moved : ∀ a s', r s = .ok a s' → moves a = true → s'.cursor.remaining < s.cursor.remaining
  /-- A result without complaint is one of the reading, and conversely. -/
  clean : s.hadError = false → ∀ a rest,
    (∃ s', r s = .ok a s' ∧ s'.hadError = false ∧ s'.cursor.ahead = rest) ↔ P a rest

/-- The contract of a reader wherever the cursor can go from a given one and less than `n` is left
to read. -/
def Meets (c : Cursor) (n : Nat) (moves : α → Bool) (r r' : Reader α) (P : Reading α) : Prop :=
  ∀ s : ReaderState, s.cursor.From c → s.cursor.remaining < n →
    MeetsAt s moves r r' (P s.cursor.ahead)

/-- The result always comes with a token that has been passed. -/
abbrev always : α → Bool := fun _ => true

/-- Nothing need have been passed. -/
abbrev never : α → Bool := fun _ => false

/-! ### Putting readers together -/

theorem bind_ok {r : Reader α} {f : α → Reader β} {s s' : ReaderState} {a : α}
    (h : r s = .ok a s') : (r >>= f) s = f a s' := by
  change EStateM.bind r f s = f a s'
  simp only [EStateM.bind, h]

theorem bind_error {r : Reader α} {f : α → Reader β} {s s' : ReaderState} {e : SyntaxError}
    (h : r s = .error e s') : (r >>= f) s = .error e s' := by
  change EStateM.bind r f s = .error e s'
  simp only [EStateM.bind, h]

theorem bind_congr {r q : Reader α} {s : ReaderState} (h : r s = q s) (f : α → Reader β) :
    (r >>= f) s = (q >>= f) s := by
  change EStateM.bind r f s = EStateM.bind q f s
  simp only [EStateM.bind, h]

theorem MeetsAt.weaken {s : ReaderState} {moves moves' : α → Bool} {r r' : Reader α}
    {P : α → List Token → Prop} (h : MeetsAt s moves r r' P)
    (hmoves : ∀ a, moves' a = true → moves a = true) : MeetsAt s moves' r r' P :=
  ⟨h.agree, h.leads, fun a s' hr ha => h.moved a s' hr (hmoves a ha), h.clean⟩

theorem MeetsAt.congr {s : ReaderState} {moves : α → Bool} {r r' : Reader α}
    {P Q : α → List Token → Prop} (h : MeetsAt s moves r r' P)
    (hPQ : ∀ a rest, P a rest ↔ Q a rest) : MeetsAt s moves r r' Q :=
  ⟨h.agree, h.leads, h.moved, fun hs a rest => (h.clean hs a rest).trans (hPQ a rest)⟩

theorem Meets.weaken {n : Nat} {moves moves' : α → Bool} {r r' : Reader α} {P : Reading α}
    (h : Meets c n moves r r' P) (hmoves : ∀ a, moves' a = true → moves a = true) :
    Meets c n moves' r r' P :=
  fun s hs hn => (h s hs hn).weaken hmoves

/-- Progress need not be asked for. -/
theorem Meets.relax {n : Nat} {moves : α → Bool} {r r' : Reader α} {P : Reading α}
    (h : Meets c n moves r r' P) : Meets c n never r r' P :=
  h.weaken (by simp)

theorem Meets.congr {n : Nat} {moves : α → Bool} {r r' : Reader α} {P Q : Reading α}
    (h : Meets c n moves r r' P) (hPQ : ∀ tokens a rest, P tokens a rest ↔ Q tokens a rest) :
    Meets c n moves r r' Q :=
  fun s hs hn => (h s hs hn).congr (hPQ _)

theorem Meets.mono {n m : Nat} {moves : α → Bool} {r r' : Reader α} {P : Reading α}
    (h : Meets c n moves r r' P) (hm : m ≤ n) : Meets c m moves r r' P :=
  fun s hs hn => h s hs (Nat.lt_of_lt_of_le hn hm)

/-- Readers may be exchanged for such as come to the same in the state at hand. -/
theorem MeetsAt.of_eq {s : ReaderState} {moves : α → Bool} {r r' q q' : Reader α}
    {P : α → List Token → Prop} (h : MeetsAt s moves r r' P) (hq : q s = r s)
    (hq' : q' s = r' s) : MeetsAt s moves q q' P := by
  refine ⟨by rw [hq, hq']; exact h.agree, by rw [hq]; exact h.leads, ?_, ?_⟩
  · rw [hq]
    exact h.moved
  · rw [hq]
    exact h.clean

theorem Meets.of_eq {n : Nat} {moves : α → Bool} {r r' q q' : Reader α} {P : Reading α}
    (h : Meets c n moves r r' P)
    (hq : ∀ s : ReaderState, s.cursor.From c → s.cursor.remaining < n → q s = r s)
    (hq' : ∀ s : ReaderState, s.cursor.From c → s.cursor.remaining < n → q' s = r' s) :
    Meets c n moves q q' P :=
  fun s hs hn => (h s hs hn).of_eq (hq s hs hn) (hq' s hs hn)

theorem MeetsAt.bind {s : ReaderState} {moves : α → Bool} {moves' : β → Bool} {r r' : Reader α}
    {f f' : α → Reader β} {P : α → List Token → Prop} {Q : α → Reading β}
    (hs : s.cursor.From c) (h : MeetsAt s moves r r' P)
    (hf : ∀ a t, r s = .ok a t → t.cursor.From c →
      t.cursor.remaining + (moves a).toNat ≤ s.cursor.remaining →
      MeetsAt t (fun b => !moves a && moves' b) (f a) (f' a) (Q a t.cursor.ahead)) :
    MeetsAt s moves' (r >>= f) (r' >>= f')
      (fun b rest => ∃ a between, P a between ∧ Q a between b rest) := by
  have hnext : ∀ a t, r s = .ok a t →
      MeetsAt t (fun b => !moves a && moves' b) (f a) (f' a) (Q a t.cursor.ahead) := by
    intro a t ht
    have hleads : s.Leads t := by simpa [ht] using h.leads
    refine hf a t ht (hleads.from_cursor hs) ?_
    rcases hmoves : moves a with _ | _
    · exact hleads.remaining_le
    · exact h.moved a t ht hmoves
  rcases hr : r s with ⟨a, t⟩ | ⟨e, t⟩
  · have ha := hnext a t hr
    have hleads : s.Leads t := by simpa [hr] using h.leads
    have hbind : (r >>= f) s = f a t := bind_ok hr
    have hbind' : (r' >>= f') s = f' a t := bind_ok (h.agree.trans hr)
    refine ⟨by rw [hbind, hbind', ha.agree], by rw [hbind]; exact hleads.trans ha.leads, ?_, ?_⟩
    · intro b u hu hb
      rw [hbind] at hu
      rcases hmoves : moves a with _ | _
      · have hlt := ha.moved b u hu (by simp [hmoves, hb])
        exact Nat.lt_of_lt_of_le hlt hleads.remaining_le
      · have hle : t.Leads u := by simpa [hu] using ha.leads
        exact Nat.lt_of_le_of_lt hle.remaining_le (h.moved a t hr hmoves)
    · intro hclean b rest
      rw [hbind]
      constructor
      · rintro ⟨u, hu, huerr, hurest⟩
        have hle : t.Leads u := by simpa [hu] using ha.leads
        have hterr := hle.hadError_eq_false huerr
        exact ⟨a, t.cursor.ahead, (h.clean hclean a _).mp ⟨t, hr, hterr, rfl⟩,
          (ha.clean hterr b rest).mp ⟨u, hu, huerr, hurest⟩⟩
      · rintro ⟨a', between, hP, hQ⟩
        obtain ⟨t', ht', hterr, rfl⟩ := (h.clean hclean a' between).mpr hP
        rw [hr] at ht'
        cases ht'
        exact (ha.clean hterr b rest).mpr hQ
  · have hbind : (r >>= f) s = .error e t := bind_error hr
    have hbind' : (r' >>= f') s = .error e t := bind_error (h.agree.trans hr)
    have hleads : s.Leads t := by simpa [hr] using h.leads
    refine ⟨by rw [hbind, hbind'], by rw [hbind]; exact hleads, ?_, ?_⟩
    · intro b u hu
      rw [hbind] at hu
      cases hu
    · intro hclean b rest
      rw [hbind]
      constructor
      · rintro ⟨u, hu, -⟩
        cases hu
      · rintro ⟨a', between, hP, -⟩
        obtain ⟨t', ht', -⟩ := (h.clean hclean a' between).mpr hP
        rw [hr] at ht'
        cases ht'

/-- One reader after another: what the first one passes need not be passed again, and lowers the
bound for the second one. -/
theorem Meets.bind {n : Nat} {moves : α → Bool} {moves' : β → Bool} {r r' : Reader α}
    {f f' : α → Reader β} {P : Reading α} {Q : α → Reading β} (h : Meets c n moves r r' P)
    (hf : ∀ a, Meets c (n - (moves a).toNat) (fun b => !moves a && moves' b) (f a) (f' a) (Q a)) :
    Meets c n moves' (r >>= f) (r' >>= f') (P.andThen Q) := by
  intro s hs hn
  refine MeetsAt.bind hs (h s hs hn) fun a t _ ht hle => hf a t ht ?_
  omega

/-- After a reader that always passes a token. -/
theorem Meets.bind_always {n : Nat} {moves' : β → Bool} {r r' : Reader α}
    {f f' : α → Reader β} {P : Reading α} {Q : α → Reading β} (h : Meets c n always r r' P)
    (hf : ∀ a, Meets c (n - 1) never (f a) (f' a) (Q a)) :
    Meets c n moves' (r >>= f) (r' >>= f') (P.andThen Q) :=
  h.bind fun a => (hf a).weaken (by simp)

/-- After a reader that need not pass anything. -/
theorem Meets.bind_never {n : Nat} {moves' : β → Bool} {r r' : Reader α}
    {f f' : α → Reader β} {P : Reading α} {Q : α → Reading β} (h : Meets c n never r r' P)
    (hf : ∀ a, Meets c n moves' (f a) (f' a) (Q a)) :
    Meets c n moves' (r >>= f) (r' >>= f') (P.andThen Q) :=
  h.bind fun a => (hf a).weaken (by simp)

/-- After a reader that passes a token if it finds one: the two cases apart. -/
theorem Meets.bind_option {n : Nat} {moves' : β → Bool} {r r' : Reader (Option α)}
    {f f' : Option α → Reader β} {P : Reading (Option α)} {Q : α → Reading β} {N : Reading β}
    (h : Meets c n Option.isSome r r' P)
    (hsome : ∀ a, Meets c (n - 1) never (f (some a)) (f' (some a)) (Q a))
    (hnone : Meets c n moves' (f none) (f' none) N) :
    Meets c n moves' (r >>= f) (r' >>= f') (P.cases Q N) := by
  have hall : Meets c n moves' (r >>= f) (r' >>= f') (P.andThen fun o => o.elim N Q) := by
    refine h.bind fun o => ?_
    rcases o with _ | a
    · exact hnone.weaken (by simp)
    · exact (hsome a).weaken (by simp)
  refine hall.congr fun tokens b rest => ?_
  constructor
  · rintro ⟨_ | a, between, hP, hQ⟩
    · exact .inr ⟨between, hP, hQ⟩
    · exact .inl ⟨a, between, hP, hQ⟩
  · rintro (⟨a, between, hP, hQ⟩ | ⟨between, hP, hN⟩)
    · exact ⟨some a, between, hP, hQ⟩
    · exact ⟨none, between, hP, hN⟩

/-! ### Readers that do not move -/

theorem meets_pure {moves : α → Bool} (n : Nat) (a : α) (hmoves : moves a = false) :
    Meets c n moves (pure a) (pure a) (.done a) := by
  intro s hs hn
  refine ⟨rfl, .refl s, ?_, ?_⟩
  · intro b t ht hb
    cases ht
    rw [hmoves] at hb
    cases hb
  · intro hclean b rest
    constructor
    · rintro ⟨t, ht, -, rfl⟩
      cases ht
      exact ⟨rfl, rfl⟩
    · rintro ⟨rfl, rfl⟩
      exact ⟨s, rfl, hclean, rfl⟩

theorem meets_fail (n : Nat) (moves : α → Bool) (cause : Cause) :
    Meets c n moves (fail cause) (fail cause) (fun _ _ _ => False) := by
  intro s hs hn
  refine ⟨rfl, .refl s, fun a t ht => (by cases ht), fun hclean b rest => ?_⟩
  simp only [iff_false, not_exists]
  rintro t ⟨ht, -⟩
  cases ht

theorem Meets.map {n : Nat} {moves : α → Bool} {moves' : β → Bool} {r r' : Reader α}
    {P : Reading α} (f : α → β) (h : Meets c n moves r r' P)
    (hmoves : ∀ a, moves' (f a) = true → moves a = true) :
    Meets c n moves' (f <$> r) (f <$> r')
      (fun tokens b rest => ∃ a, P tokens a rest ∧ b = f a) := by
  have hbind : Meets c n moves' (r >>= fun a => pure (f a)) (r' >>= fun a => pure (f a))
      (P.andThen fun a => .done (f a)) := by
    refine h.bind fun a => meets_pure _ (f a) ?_
    rcases hf : moves' (f a) with _ | _
    · rw [Bool.and_false]
    · rw [hmoves a hf]
      rfl
  rw [map_eq_pure_bind, map_eq_pure_bind]
  refine hbind.congr fun tokens b rest => ?_
  constructor
  · rintro ⟨a, between, hP, rfl, rfl⟩
    exact ⟨a, hP, rfl⟩
  · rintro ⟨a, hP, rfl⟩
    exact ⟨a, rest, hP, rfl, rfl⟩

/-- An event that is no complaint. -/
theorem meets_note (n : Nat) {e : ReaderEvent} (hfits : ∀ quiet, e.Fits quiet)
    (he : e.isComplaint = false) : Meets c n never (note e) (note e) (.done ()) := by
  intro s hs hn
  refine ⟨rfl, s.leads_note e (hfits _) he, by simp, ?_⟩
  intro hclean b rest
  constructor
  · rintro ⟨t, ht, -, rfl⟩
    cases ht
    exact ⟨rfl, rfl⟩
  · rintro ⟨rfl, rfl⟩
    exact ⟨s.note e, rfl, hclean, rfl⟩

/-- A complaint leaves nothing clean. -/
theorem meets_report (n : Nat) (e : SyntaxError) :
    Meets c n never (report e) (report e) (fun _ _ _ => False) := by
  intro s hs hn
  refine ⟨rfl, s.leads_report e, by simp, fun hclean b rest => ?_⟩
  simp only [iff_false, not_exists]
  rintro t ⟨ht, herr, -⟩
  cases ht
  cases herr

/-- A complaint about the next token. -/
theorem meets_reportHere (n : Nat) (f : Token → SyntaxError) {r : Reader α} {P : Reading α}
    (hr : Meets c n never r r P) :
    Meets c n never (do report (f (← here)); r) (do report (f (← here)); r)
      (fun _ _ _ => False) := by
  intro s hs hn
  have hreport : Meets c n never (do report (f s.cursor.here); r) (do report (f s.cursor.here); r)
      (Reading.andThen (fun _ _ _ => False) fun _ => P) :=
    (meets_report n (f s.cursor.here)).bind_never fun _ => hr
  refine ((hreport s hs hn).congr fun a rest => ?_).of_eq rfl rfl
  simp [Reading.andThen]

/-! ### Looking -/

theorem check_eq (kind : Kind) (s : ReaderState) :
    check kind s = .ok (headKind? s.cursor.ahead == some kind) s := by
  unfold check Cursor.atEnd Cursor.here
  rcases s.cursor.ahead with _ | ⟨t, rest⟩
  · rfl
  · simp

theorem here_kind_of_nil {s : ReaderState} (hs : s.cursor.From c) (h : s.cursor.ahead = []) :
    s.cursor.here.kind = .endOfFile := by
  have hstop := hs.placed.stop_isEnd
  rw [Token.isEnd, beq_iff_eq] at hstop
  simpa [Cursor.here, h] using hstop

theorem here_of_cons {s : ReaderState} {t : Token} {rest : List Token}
    (h : s.cursor.ahead = t :: rest) : s.cursor.here = t := by
  simp [Cursor.here, h]

/-- The kind of the next token, which is that of an end when none is left. -/
theorem kind_here {s : ReaderState} (hs : s.cursor.From c) :
    s.cursor.here.kind = (headKind? s.cursor.ahead).getD .endOfFile := by
  rcases h : s.cursor.ahead with _ | ⟨t, rest⟩
  · exact here_kind_of_nil hs h
  · rw [here_of_cons h, headKind?_cons, Option.getD_some]

/-- A choice by the kind of the next token. -/
theorem Meets.branch {n : Nat} {moves : α → Bool} {kind : Kind} {r r' q q' : Reader α}
    {P N : Reading α} (hyes : Meets c n moves r r' P) (hno : Meets c n moves q q' N) :
    Meets c n moves (do if ← check kind then r else q) (do if ← check kind then r' else q')
      (.branch kind P N) := by
  intro s hs hn
  by_cases h : headKind? s.cursor.ahead = some kind
  · have hrun : ∀ r q : Reader α, (do if ← check kind then r else q) s = r s := by
      intro r q
      rw [bind_ok (check_eq kind s), if_pos (by simpa using h)]
    refine ((hyes s hs hn).congr fun a rest => ?_).of_eq (hrun r q) (hrun r' q')
    simp [Reading.branch, h]
  · have hrun : ∀ r q : Reader α, (do if ← check kind then r else q) s = q s := by
      intro r q
      rw [bind_ok (check_eq kind s), if_neg (by simpa using h)]
    refine ((hno s hs hn).congr fun a rest => ?_).of_eq (hrun r q) (hrun r' q')
    simp [Reading.branch, h]

/-- A rule that takes what is left to read as its bound. -/
theorem meets_remaining {n : Nat} {moves : α → Bool} {f : Nat → Reader α} {P : Reading α}
    (hf : ∀ fuel, Meets c (fuel + 1) moves (f fuel) (f fuel) P) :
    Meets c n moves (do f (← remaining)) (do f (← remaining)) P :=
  fun s hs _ => (hf s.cursor.remaining s hs (Nat.lt_succ_self _)).of_eq rfl rfl

/-! ### Single steps -/

/-- A state past the next token. -/
def past (s : ReaderState) : ReaderState := { s with cursor := s.cursor.advance }

theorem advance_eq (s : ReaderState) : advance s = .ok s.cursor.here (past s) := rfl

theorem leads_past (s : ReaderState) : s.Leads (past s) := .of_reaches (.advance (.refl _))

theorem ahead_past {s : ReaderState} {t : Token} {rest : List Token}
    (h : s.cursor.ahead = t :: rest) : (past s).cursor.ahead = rest := by
  simp [past, Cursor.advance, h]

theorem remaining_past {s : ReaderState} {t : Token} {rest : List Token}
    (h : s.cursor.ahead = t :: rest) : (past s).cursor.remaining < s.cursor.remaining := by
  have hpos := Cursor.weight_pos t
  rw [Cursor.remaining, Cursor.remaining, ahead_past h, h, Cursor.totalWeight_cons]
  omega

/-- Going on after a token that is there, in the state past it. -/
theorem meetsAt_advance_step {s : ReaderState} {moves : β → Bool} {t : Token} {rest : List Token}
    {f f' : Token → Reader β} {P : β → List Token → Prop} (hahead : s.cursor.ahead = t :: rest)
    (h : MeetsAt (past s) never (f t) (f' t) P) :
    MeetsAt s moves (advance >>= f) (advance >>= f') P := by
  have hrun : ∀ g : Token → Reader β, (advance >>= g) s = g t (past s) := by
    intro g
    rw [bind_ok (advance_eq s), here_of_cons hahead]
  have hleads := leads_past s
  have hlt := remaining_past hahead
  refine ⟨by rw [hrun, hrun]; exact h.agree, by rw [hrun]; exact hleads.trans h.leads, ?_, ?_⟩
  · intro b u hu _
    rw [hrun] at hu
    have hle : (past s).Leads u := by simpa [hu] using h.leads
    exact Nat.lt_of_le_of_lt hle.remaining_le hlt
  · intro hclean b left
    rw [hrun]
    exact h.clean hclean b left

/-- Going on after a token that is there. -/
theorem meetsAt_advance_bind {s : ReaderState} {n : Nat} {moves : β → Bool} {t : Token}
    {rest : List Token} {f f' : Token → Reader β} {Q : Reading β} (hs : s.cursor.From c)
    (hn : s.cursor.remaining < n + 1) (hahead : s.cursor.ahead = t :: rest)
    (h : Meets c n never (f t) (f' t) Q) :
    MeetsAt s moves (advance >>= f) (advance >>= f') (Q rest) := by
  have hlt := remaining_past hahead
  have hm := h (past s) ((leads_past s).from_cursor hs) (by omega)
  rw [ahead_past hahead] at hm
  exact meetsAt_advance_step hahead hm

/-- A result that leaves the state as it is. -/
theorem meetsAt_of_stay {s : ReaderState} {moves : α → Bool} {r r' : Reader α} {a : α}
    (h : r s = .ok a s) (h' : r' s = .ok a s) (hmoves : moves a = false) :
    MeetsAt s moves r r' (fun b rest => b = a ∧ rest = s.cursor.ahead) := by
  refine ⟨by rw [h, h'], by rw [h]; exact .refl s, ?_, ?_⟩
  · intro b t ht hb
    rw [h] at ht
    cases ht
    rw [hmoves] at hb
    cases hb
  · intro hclean b rest
    rw [h]
    constructor
    · rintro ⟨t, ht, -, rfl⟩
      cases ht
      exact ⟨rfl, rfl⟩
    · rintro ⟨rfl, rfl⟩
      exact ⟨s, rfl, hclean, rfl⟩

/-- Moving past a token that is there, and giving it back as found. -/
theorem meetsAt_of_take {s : ReaderState} {r : Reader (Option Token)} {t : Token}
    {rest : List Token} (hahead : s.cursor.ahead = t :: rest)
    (h : r s = (some <$> advance) s) :
    MeetsAt s Option.isSome r r (fun o left => o = some t ∧ left = rest) := by
  have hrun : r s = .ok (some t) (past s) := by
    rw [h]
    change EStateM.map some advance s = _
    simp only [EStateM.map, advance_eq, here_of_cons hahead]
  refine ⟨rfl, by rw [hrun]; exact leads_past s, ?_, ?_⟩
  · intro o s' hs' _
    rw [hrun] at hs'
    cases hs'
    exact remaining_past hahead
  · intro hclean o left
    rw [hrun]
    constructor
    · rintro ⟨s', hs', -, rfl⟩
      cases hs'
      exact ⟨rfl, ahead_past hahead⟩
    · rintro ⟨rfl, rfl⟩
      exact ⟨past s, rfl, hclean, ahead_past hahead⟩

theorem accept?_eq (kind : Kind) (s : ReaderState) :
    accept? kind s =
      if headKind? s.cursor.ahead = some kind then (some <$> advance) s else .ok none s := by
  have hbind := bind_ok (f := fun found : Bool =>
    if found = true then (do return some (← advance)) else (return none : Reader (Option Token)))
    (check_eq kind s)
  unfold accept?
  rw [hbind]
  by_cases h : headKind? s.cursor.ahead = some kind
  · rw [if_pos h, if_pos (by simpa using h)]
    rfl
  · rw [if_neg h, if_neg (by simpa using h)]
    rfl

theorem meets_accept? (n : Nat) (kind : Kind) :
    Meets c n Option.isSome (accept? kind) (accept? kind) (.token? kind) := by
  intro s hs hn
  by_cases h : headKind? s.cursor.ahead = some kind
  · obtain ⟨t, rest, hahead, hkind⟩ := headKind?_eq_some_iff.mp h
    refine (meetsAt_of_take hahead (by rw [accept?_eq, if_pos h])).congr fun o left => ?_
    rw [hahead]
    rcases o with _ | u
    · simp [Reading.token?, hkind]
    · simp only [Reading.token?, Option.some.injEq, List.cons.injEq]
      constructor
      · rintro ⟨rfl, rfl⟩
        exact ⟨⟨rfl, rfl⟩, hkind⟩
      · rintro ⟨⟨rfl, rfl⟩, -⟩
        exact ⟨rfl, rfl⟩
  · have hrun : accept? kind s = .ok none s := by rw [accept?_eq, if_neg h]
    refine (meetsAt_of_stay hrun hrun rfl).congr fun o left => ?_
    rcases o with _ | u
    · simp [Reading.token?, h]
    · simp only [Reading.token?, reduceCtorEq, false_and, false_iff, not_and]
      rintro hahead hkind
      exact h (by simp [hahead, hkind])

/-- A choice by whether a token of a kind comes first, which is then passed. -/
theorem meets_accept?_bind {n : Nat} {moves : β → Bool} (kind : Kind)
    {f f' : Option Token → Reader β} {Q : Token → Reading β} {N : Reading β}
    (hsome : ∀ t, t.kind = kind → Meets c (n - 1) never (f (some t)) (f' (some t)) (Q t))
    (hnone : Meets c n moves (f none) (f' none) N) :
    Meets c n moves (accept? kind >>= f) (accept? kind >>= f') (fun tokens b rest =>
      (∃ t between, tokens = t :: between ∧ t.kind = kind ∧ Q t between b rest) ∨
        (headKind? tokens ≠ some kind ∧ N tokens b rest)) := by
  intro s hs hn
  by_cases h : headKind? s.cursor.ahead = some kind
  · obtain ⟨t, rest, hahead, hkind⟩ := headKind?_eq_some_iff.mp h
    have hrun : ∀ g : Option Token → Reader β,
        (accept? kind >>= g) s = (advance >>= fun t => g (some t)) s := by
      intro g
      have hfound : accept? kind s = .ok (some t) (past s) := by
        rw [accept?_eq, if_pos h]
        change EStateM.map some advance s = _
        simp only [EStateM.map, advance_eq, here_of_cons hahead]
      rw [bind_ok hfound, bind_ok (advance_eq s), here_of_cons hahead]
    refine ((meetsAt_advance_bind hs (by omega) hahead (hsome t hkind)).congr
      fun b left => ?_).of_eq (hrun f) (hrun f')
    rw [hahead]
    constructor
    · intro hQ
      exact .inl ⟨t, rest, rfl, hkind, hQ⟩
    · rintro (⟨_, _, heq, -, hQ⟩ | ⟨hno, -⟩)
      · cases heq
        exact hQ
      · exact absurd (by simp [hkind]) hno
  · have hrun : ∀ g : Option Token → Reader β, (accept? kind >>= g) s = g none s := by
      intro g
      exact bind_ok (by rw [accept?_eq, if_neg h])
    refine ((hnone s hs hn).congr fun b left => ?_).of_eq (hrun f) (hrun f')
    constructor
    · intro hN
      exact .inr ⟨h, hN⟩
    · rintro (⟨t, between, hahead, hkind, -⟩ | ⟨-, hN⟩)
      · exact absurd (by rw [hahead, headKind?_cons, hkind]) h
      · exact hN

theorem acceptOperator?_eq (ops : List Operator) (s : ReaderState) :
    acceptOperator? ops s =
      (match s.cursor.here.kind with
        | .operator op =>
          if ops.contains op then (do return some (← advance)) else return none
        | _ => return none : Reader (Option Token)) s := rfl

/-- Looking for an operator: it is the next token, or nothing happens. -/
theorem acceptOperator?_cases (ops : List Operator) {s : ReaderState} (hs : s.cursor.From c) :
    (∃ t rest op, s.cursor.ahead = t :: rest ∧ op ∈ ops ∧ t.kind = .operator op ∧
      acceptOperator? ops s = (some <$> advance) s) ∨
    (NoOperator ops s.cursor.ahead ∧ acceptOperator? ops s = .ok none s) := by
  have hrun := acceptOperator?_eq ops s
  rcases hahead : s.cursor.ahead with _ | ⟨t, rest⟩
  · refine .inr ⟨by intro op _; simp, ?_⟩
    rw [hrun, here_kind_of_nil hs hahead]
    rfl
  · rw [here_of_cons hahead] at hrun
    rcases hkind : t.kind with op | _ | _ | _ | _ | _
    case operator =>
      rw [hkind] at hrun
      by_cases hop : ops.contains op = true
      · refine .inl ⟨t, rest, op, rfl, by simpa using hop, hkind, ?_⟩
        rw [hrun]
        simp only [hop, if_true]
        rfl
      · refine .inr ⟨?_, ?_⟩
        · intro other hother
          rw [headKind?_cons, hkind]
          rintro h
          cases h
          exact hop (by simpa using hother)
        · rw [hrun]
          simp only [hop]
          rfl
    all_goals
      refine .inr ⟨fun op _ => by simp [hkind], ?_⟩
      rw [hrun, hkind]
      rfl

theorem meets_acceptOperator? (n : Nat) (ops : List Operator) :
    Meets c n Option.isSome (acceptOperator? ops) (acceptOperator? ops) (.operator? ops) := by
  intro s hs hn
  rcases acceptOperator?_cases ops hs with ⟨t, rest, op, hahead, hop, hkind, hrun⟩ | ⟨hno, hrun⟩
  · refine (meetsAt_of_take hahead hrun).congr fun o left => ?_
    rw [hahead]
    rcases o with _ | u
    · simp only [Reading.operator?, reduceCtorEq, false_and, false_iff, not_and]
      intro hno
      exact absurd (by rw [headKind?_cons, hkind]) (hno op hop)
    · simp only [Reading.operator?, Option.some.injEq, List.cons.injEq]
      constructor
      · rintro ⟨rfl, rfl⟩
        exact ⟨⟨rfl, rfl⟩, op, hop, hkind⟩
      · rintro ⟨⟨rfl, rfl⟩, -⟩
        exact ⟨rfl, rfl⟩
  · refine (meetsAt_of_stay hrun hrun rfl).congr fun o left => ?_
    rcases o with _ | u
    · simp [Reading.operator?, hno]
    · simp only [Reading.operator?, reduceCtorEq, false_and, false_iff, not_and, not_exists]
      rintro hahead op hop hkind
      exact hno op hop (by rw [hahead, headKind?_cons, hkind])

theorem meets_expect (n : Nat) (kind : Kind) (what : Expectation) :
    Meets c n always (expect kind what) (expect kind what) (.token kind) := by
  have h : Meets c n always (expect kind what) (expect kind what)
      ((Reading.token? kind).andThen fun o tokens t rest => o = some t ∧ rest = tokens) := by
    refine (meets_accept? n kind).bind fun o => ?_
    rcases o with _ | t
    · exact (meets_fail n _ _).congr (by simp)
    · exact (meets_pure _ t rfl).congr fun tokens u rest => by simp [Reading.done, eq_comm]
  refine h.congr fun tokens t rest => ?_
  constructor
  · rintro ⟨_, between, htoken, rfl, rfl⟩
    exact htoken
  · intro htoken
    exact ⟨some t, rest, htoken, rfl, rfl⟩

theorem meets_expectName (n : Nat) (what : Expectation) :
    Meets c n always (expectName what) (expectName what) (.token .identifier) :=
  meets_expect n _ what

theorem meets_expectMark (n : Nat) (mark : Punctuation) (what : Expectation) :
    Meets c n always (expectMark mark what) (expectMark mark what) (.token (.punctuation mark)) :=
  meets_expect n _ what

theorem meets_acceptMark? (n : Nat) (mark : Punctuation) :
    Meets c n Option.isSome (acceptMark? mark) (acceptMark? mark) (.token? (.punctuation mark)) :=
  meets_accept? n _

/-! ### Closing angle brackets -/

/-- A state past the first half of the shift that is next. -/
def pastHalf (s : ReaderState) (shift : Token) : ReaderState :=
  ({ s with cursor := s.cursor.splitShift }).note (.split shift.span)

theorem leads_pastHalf (s : ReaderState) (shift : Token) : s.Leads (pastHalf s shift) :=
  (ReaderState.Leads.of_reaches (.splitShift (.refl _))).trans
    (ReaderState.leads_note _ _ trivial rfl)

theorem ahead_pastHalf {s : ReaderState} {t : Token} {rest : List Token}
    (h : s.cursor.ahead = t :: rest) (hkind : t.kind = .operator .rsh) :
    (pastHalf s t).cursor.ahead = halfShift t 1 :: rest := by
  simp [pastHalf, ReaderState.note, Cursor.splitShift, h, hkind]

theorem remaining_pastHalf {s : ReaderState} {t : Token} {rest : List Token}
    (h : s.cursor.ahead = t :: rest) (hkind : t.kind = .operator .rsh) :
    (pastHalf s t).cursor.remaining < s.cursor.remaining := by
  have hwhole : Cursor.weight t = 2 := by simp [Cursor.weight, hkind]
  rw [Cursor.remaining, Cursor.remaining, ahead_pastHalf h hkind, h, Cursor.totalWeight_cons,
    Cursor.totalWeight_cons, Cursor.weight_halfShift, hwhole]
  omega

/-- Closing a list takes a bracket, splits a shift, or does nothing. -/
theorem closeAngle?_eq (s : ReaderState) :
    closeAngle? s =
      if headKind? s.cursor.ahead = some (.operator .greater) then (some <$> advance) s
      else if headKind? s.cursor.ahead = some (.operator .rsh) then
        .ok (some (halfShift s.cursor.here 0)) (pastHalf s s.cursor.here)
      else .ok none s := by
  unfold closeAngle?
  by_cases hangle : headKind? s.cursor.ahead = some (.operator .greater)
  · have haccept : accept? (.operator .greater) s = .ok (some s.cursor.here) (past s) := by
      rw [accept?_eq, if_pos hangle]
      rfl
    rw [bind_ok haccept, if_pos hangle]
    rfl
  · have haccept : accept? (.operator .greater) s = .ok none s := by
      rw [accept?_eq, if_neg hangle]
    rw [bind_ok haccept, if_neg hangle]
    refine (bind_ok (check_eq (.operator .rsh) s)).trans ?_
    by_cases hshift : headKind? s.cursor.ahead = some (.operator .rsh)
    · rw [if_pos hshift, if_pos (by simpa using hshift)]
      rfl
    · rw [if_neg hshift, if_neg (by simpa using hshift)]
      rfl

theorem meets_closeAngle? (n : Nat) :
    Meets c n Option.isSome closeAngle? closeAngle? .closing? := by
  intro s hs hn
  by_cases hangle : headKind? s.cursor.ahead = some (.operator .greater)
  · obtain ⟨t, rest, hahead, hkind⟩ := headKind?_eq_some_iff.mp hangle
    refine (meetsAt_of_take hahead (by rw [closeAngle?_eq, if_pos hangle])).congr fun o left => ?_
    rw [hahead]
    rcases o with _ | u
    · simp [Reading.closing?, NoOperator, hkind]
    · simp only [Reading.closing?, Option.some.injEq]
      constructor
      · rintro ⟨rfl, rfl⟩
        exact .angle hkind
      · intro h
        cases h with
        | angle => exact ⟨rfl, rfl⟩
        | shift h =>
          rw [hkind] at h
          cases h
  · by_cases hshift : headKind? s.cursor.ahead = some (.operator .rsh)
    · obtain ⟨t, rest, hahead, hkind⟩ := headKind?_eq_some_iff.mp hshift
      have hrun : closeAngle? s = .ok (some (halfShift t 0)) (pastHalf s t) := by
        rw [closeAngle?_eq, if_neg hangle, if_pos hshift, here_of_cons hahead]
      refine ⟨rfl, by rw [hrun]; exact leads_pastHalf s t, ?_, ?_⟩
      · intro o s' hs' _
        rw [hrun] at hs'
        cases hs'
        exact remaining_pastHalf hahead hkind
      · intro hclean o left
        rw [hrun, hahead]
        constructor
        · rintro ⟨s', hs', -, rfl⟩
          cases hs'
          rw [ahead_pastHalf hahead hkind]
          exact Closes.shift hkind
        · rcases o with _ | u
          · simp [Reading.closing?, NoOperator, hkind]
          · intro h
            cases (h : Closes _ _ _) with
            | angle h =>
              rw [hkind] at h
              cases h
            | shift => exact ⟨_, rfl, hclean, ahead_pastHalf hahead hkind⟩
    · have hrun : closeAngle? s = .ok none s := by rw [closeAngle?_eq, if_neg hangle, if_neg hshift]
      refine (meetsAt_of_stay hrun hrun rfl).congr fun o left => ?_
      rcases o with _ | u
      · simp [Reading.closing?, NoOperator, hangle, hshift]
      · simp only [Reading.closing?, reduceCtorEq, false_and, false_iff]
        intro h
        generalize s.cursor.ahead = tokens at h hangle hshift
        cases h with
        | angle h => exact hangle (by simp [h])
        | shift h => exact hshift (by simp [h])

/-! ### Repeating -/

/-- Where a bound of nothing is enough, nothing is left. -/
theorem ahead_eq_nil {s : ReaderState} (h : s.cursor.remaining ≤ 0) : s.cursor.ahead = [] := by
  have := (Cursor.remaining_eq_zero_iff s.cursor).mp (Nat.le_zero.mp h)
  simpa [Cursor.atEnd] using this

/-- With a bound that is large enough, a repetition goes on after every comma. -/
theorem commaSeparated_eq {item : Reader α} {count : Nat} {s : ReaderState}
    (hitem : ∀ a s', item s = .ok a s' → s'.cursor.remaining < s.cursor.remaining)
    (hs : s.cursor.remaining ≤ count) :
    commaSeparated item count s =
      (do
        let first ← item
        match ← acceptMark? .comma with
        | some _ => return first :: (← commaSeparated item (count - 1))
        | none => return [first] : Reader (List α)) s := by
  cases count with
  | succ count => rfl
  | zero =>
    -- nothing is left to read, so that the first item fails
    rcases hr : item s with ⟨a, s'⟩ | ⟨e, s'⟩
    · have := hitem a s' hr
      omega
    · rw [commaSeparated, bind_error hr, bind_error hr]

/-- Items with commas between them.  The reading `R` of the whole is given by what it is for one
item more. -/
theorem meets_commaSeparated {item item' : Reader α} {P : Reading α} {R : Reading (List α)}
    (hR : ∀ tokens as rest, R tokens as rest ↔
      (∃ a, P tokens a rest ∧ headKind? rest ≠ some (.punctuation .comma) ∧ as = [a]) ∨
      ∃ a comma between more, P tokens a (comma :: between) ∧ comma.kind = .punctuation .comma ∧
        R between more rest ∧ as = a :: more)
    {n : Nat} (hitem : Meets c n always item item' P) {count count' : Nat} (hcount : n ≤ count + 1)
    (hcount' : n ≤ count' + 1) :
    Meets c n always (commaSeparated item count) (commaSeparated item' count') R := by
  induction n generalizing count count' with
  | zero => exact fun s _ hn => absurd hn (Nat.not_lt_zero _)
  | succ n ih =>
    have hmore : Meets c n always (commaSeparated item (count - 1))
        (commaSeparated item' (count' - 1)) R :=
      ih (hitem.mono (by omega)) (by omega) (by omega)
    have hstep : Meets c (n + 1) always
        (do
          let first ← item
          match ← acceptMark? .comma with
          | some _ => return first :: (← commaSeparated item (count - 1))
          | none => return [first])
        (do
          let first ← item'
          match ← acceptMark? .comma with
          | some _ => return first :: (← commaSeparated item' (count' - 1))
          | none => return [first]) _ :=
      hitem.bind_always fun a => (meets_acceptMark? n .comma).bind_option
        (fun _ => (hmore.mono (Nat.sub_le n 1)).relax.bind_never fun more =>
          meets_pure _ (a :: more) rfl)
        (meets_pure n [a] rfl)
    refine (hstep.congr fun tokens as rest => ?_).of_eq ?_ ?_
    · rw [hR]
      constructor
      · rintro ⟨a, _, hP, ⟨comma, _, ⟨rfl, hcomma⟩, more, _, hmore, rfl, rfl⟩ |
          ⟨_, ⟨hno, rfl⟩, rfl, rfl⟩⟩
        · exact .inr ⟨a, comma, _, more, hP, hcomma, hmore, rfl⟩
        · exact .inl ⟨a, hP, hno, rfl⟩
      · rintro (⟨a, hP, hno, rfl⟩ | ⟨a, comma, between, more, hP, hcomma, hmore, rfl⟩)
        · exact ⟨a, rest, hP, .inr ⟨rest, ⟨hno, rfl⟩, rfl, rfl⟩⟩
        · exact ⟨a, _, hP, .inl ⟨comma, _, ⟨rfl, hcomma⟩, more, _, hmore, rfl, rfl⟩⟩
    · intro s hs hn
      exact commaSeparated_eq (fun a s' hr => (hitem s hs hn).moved a s' hr rfl) (by omega)
    · intro s hs hn
      refine commaSeparated_eq (fun a s' hr => (hitem s hs hn).moved a s' ?_ rfl) (by omega)
      rw [← (hitem s hs hn).agree, hr]

/-! ### Going on after a failure -/

theorem leads_resume (s : ReaderState) : s.Leads (resume s) :=
  (ReaderState.Leads.of_reaches (Cursor.reaches_skipTo _ _)).trans
    (ReaderState.leads_note _ _ trivial rfl)

/-- Going on after a failure passes at least one token, unless none is left. -/
theorem remaining_resume_lt {s : ReaderState} (h : s.cursor.ahead ≠ []) :
    (resume s).cursor.remaining < s.cursor.remaining := by
  obtain ⟨t, rest, hahead⟩ := List.exists_cons_of_ne_nil h
  have hskip := (Cursor.reaches_skip s.cursor startsDeclaration).remaining_le
  exact Nat.lt_of_le_of_lt hskip (remaining_past hahead)

/-- A rule whose failure is caught passes a token in any case, unless none is left. -/
theorem meetsAt_recovered {s : ReaderState} {r r' : Reader α} {P : α → List Token → Prop}
    (h : MeetsAt s always r r' P) (hs : s.cursor.ahead ≠ []) :
    MeetsAt s always (recovered r) (recovered r')
      (fun o rest => ∃ a, P a rest ∧ o = some a) := by
  have hpos : 0 < s.cursor.remaining := by
    rw [Nat.pos_iff_ne_zero, Ne, Cursor.remaining_eq_zero_iff, Cursor.atEnd, List.isEmpty_iff]
    exact hs
  rcases hr : r s with ⟨a, t⟩ | ⟨e, t⟩
  · have hrun : recovered r s = .ok (some a) t := by simp only [recovered, recover, hr]
    have hrun' : recovered r' s = .ok (some a) t := by
      simp only [recovered, recover, h.agree, hr]
    refine ⟨by rw [hrun, hrun'], by rw [hrun]; simpa [hr] using h.leads, ?_, ?_⟩
    · intro o u hu _
      rw [hrun] at hu
      cases hu
      exact h.moved a t hr rfl
    · intro hclean o rest
      rw [hrun]
      constructor
      · rintro ⟨u, hu, herr, hrest⟩
        cases hu
        exact ⟨a, (h.clean hclean a rest).mp ⟨t, hr, herr, hrest⟩, rfl⟩
      · rintro ⟨b, hP, rfl⟩
        obtain ⟨u, hu, herr, hrest⟩ := (h.clean hclean b rest).mpr hP
        rw [hr] at hu
        cases hu
        exact ⟨t, rfl, herr, hrest⟩
  · have hleads : s.Leads t := by simpa [hr] using h.leads
    have hrun : recovered r s = .ok none (resume (t.report e)) := by
      simp only [recovered, recover, hr]
    have hrun' : recovered r' s = .ok none (resume (t.report e)) := by
      simp only [recovered, recover, h.agree, hr]
    have hall : t.Leads (resume (t.report e)) := (t.leads_report e).trans (leads_resume _)
    refine ⟨by rw [hrun, hrun'], by rw [hrun]; exact hleads.trans hall, ?_, ?_⟩
    · intro o u hu _
      rw [hrun] at hu
      cases hu
      by_cases hend : t.cursor.ahead = []
      · have hzero : t.cursor.remaining = 0 := by simp [Cursor.remaining, hend]
        have := hall.remaining_le
        omega
      · have hlt := remaining_resume_lt (s := t.report e) hend
        exact Nat.lt_of_lt_of_le hlt hleads.remaining_le
    · intro hclean o rest
      rw [hrun]
      constructor
      · rintro ⟨u, hu, herr, -⟩
        cases hu
        have := (leads_resume (t.report e)).hadError_eq_false herr
        cases this
      · rintro ⟨b, hP, rfl⟩
        obtain ⟨u, hu, -⟩ := (h.clean hclean b rest).mpr hP
        rw [hr] at hu
        cases hu

/-- Going on after a rule whose failure is caught.  Without complaint it has not failed. -/
theorem meetsAt_recovered_bind {s : ReaderState} {m : Nat} {r r' : Reader α}
    {f f' : Option α → Reader β} {P : Reading α} {Q : α → Reading β} {N : Reading β}
    (hs : s.cursor.From c) (hm : s.cursor.remaining < m + 1) (hne : s.cursor.ahead ≠ [])
    (h : MeetsAt s always r r' (P s.cursor.ahead))
    (hsome : ∀ a, Meets c m never (f (some a)) (f' (some a)) (Q a))
    (hnone : Meets c m never (f none) (f' none) N) :
    MeetsAt s never (recovered r >>= f) (recovered r' >>= f') (P.andThen Q s.cursor.ahead) := by
  have hall : MeetsAt s never (recovered r >>= f) (recovered r' >>= f') (fun b rest =>
      ∃ o between, (∃ a, P s.cursor.ahead a between ∧ o = some a) ∧
        (o.elim N Q) between b rest) := by
    refine MeetsAt.bind hs (meetsAt_recovered h hne) fun o t _ ht hle => ?_
    have hlt : t.cursor.remaining < m := by
      simp only [Bool.toNat_true] at hle
      omega
    rcases o with _ | a
    · exact (hnone t ht hlt).weaken (by simp)
    · exact (hsome a t ht hlt).weaken (by simp)
  refine hall.congr fun b rest => ?_
  constructor
  · rintro ⟨_, between, ⟨a, hP, rfl⟩, hQ⟩
    exact ⟨a, between, hP, hQ⟩
  · rintro ⟨a, between, hP, hQ⟩
    exact ⟨some a, between, ⟨a, hP, rfl⟩, hQ⟩

/-! ### Readers that can be tried -/

/-- A reader that does not complain, whatever it comes to. -/
def Silent (r : Reader α) : Prop := ∀ s : ReaderState,
  (endState (r s)).hadError = s.hadError ∧
    ∃ said, (endState (r s)).log = said ++ s.log ∧ ∀ e ∈ said, e.isComplaint = false

theorem silent_of_stay {r : Reader α} (h : ∀ s, endState (r s) = s) : Silent r :=
  fun s => ⟨by rw [h], [], by rw [h]; rfl, by simp⟩

theorem silent_pure (a : α) : Silent (pure a) := silent_of_stay fun _ => rfl

theorem silent_fail (cause : Cause) : Silent (fail cause : Reader α) := silent_of_stay fun _ => rfl

theorem silent_check (kind : Kind) : Silent (check kind) := silent_of_stay fun _ => rfl

theorem Silent.bind {r : Reader α} {f : α → Reader β} (h : Silent r) (hf : ∀ a, Silent (f a)) :
    Silent (r >>= f) := by
  intro s
  obtain ⟨herror, said, hlog, hsaid⟩ := h s
  rcases hrun : r s with ⟨a, t⟩ | ⟨e, t⟩
  · rw [hrun, endState_ok] at herror hlog
    obtain ⟨herror', more, hlog', hmore⟩ := hf a t
    rw [bind_ok hrun]
    refine ⟨herror'.trans herror, more ++ said, ?_, ?_⟩
    · rw [hlog', hlog, List.append_assoc]
    · intro e he
      rcases List.mem_append.mp he with he | he
      · exact hmore e he
      · exact hsaid e he
  · rw [hrun] at herror hlog
    rw [bind_error hrun]
    exact ⟨herror, said, hlog, hsaid⟩

theorem Silent.map {r : Reader α} (f : α → β) (h : Silent r) : Silent (f <$> r) := by
  rw [map_eq_pure_bind]
  exact h.bind fun a => silent_pure (f a)

theorem silent_accept? (kind : Kind) : Silent (accept? kind) := by
  intro s
  rw [accept?_eq]
  split
  · exact ⟨rfl, [], rfl, by simp⟩
  · exact ⟨rfl, [], rfl, by simp⟩

theorem silent_expect (kind : Kind) (what : Expectation) : Silent (expect kind what) := by
  refine (silent_accept? kind).bind fun o => ?_
  rcases o with _ | t
  · exact silent_fail _
  · exact silent_pure t

theorem silent_closeAngle? : Silent closeAngle? := by
  intro s
  rw [closeAngle?_eq]
  split
  · exact ⟨rfl, [], rfl, by simp⟩
  · split
    · exact ⟨rfl, [.split s.cursor.here.span], rfl, by simp [ReaderEvent.isComplaint]⟩
    · exact ⟨rfl, [], rfl, by simp⟩

theorem silent_commaSeparated {item : Reader α} (h : Silent item) (count : Nat) :
    Silent (commaSeparated item count) := by
  induction count with
  | zero => exact h.bind fun a => silent_pure [a]
  | succ count ih =>
    refine h.bind fun a => (silent_accept? _).bind fun o => ?_
    rcases o with _ | t
    · exact silent_pure [a]
    · exact ih.bind fun more => silent_pure (a :: more)

/-! ### Trying a reader -/

/-- A state in which what was tried has been taken back, with a word about it. -/
def takenBack (s t : ReaderState) (e : ReaderEvent) : ReaderState :=
  { t.note e with cursor := t.cursor.restore s.cursor.checkpoint }

theorem leads_takenBack {s t : ReaderState} (h : s.Leads t) {e : ReaderEvent}
    (hfits : ∀ quiet, e.Fits quiet) (he : e.isComplaint = false) :
    s.Leads (takenBack s t e) := by
  have hnote := h.trans (t.leads_note e (hfits _) he)
  exact ⟨(Cursor.Reaches.refl _).attempt h.reaches, hnote.quiet_eq, hnote.exists_said⟩

theorem cursor_takenBack {s t : ReaderState} (h : s.Leads t) (e : ReaderEvent) :
    (takenBack s t e).cursor = s.cursor :=
  h.reaches.restore_eq

/-- A reader that is tried: its result is kept if the rest is as `Q` wants it, and otherwise the
cursor goes back. -/
theorem meetsAt_tried {s : ReaderState} {item : Reader α} {r : Reader (Option α)} {P : Reading α}
    {Q : List Token → Prop} (hitem : MeetsAt s always item item (P s.cursor.ahead))
    (hsilent : Silent item)
    (hrun : (∃ a t, item s = .ok a t ∧ Q t.cursor.ahead ∧ r s = .ok (some a) t) ∨
      (∀ a t, item s = .ok a t → ¬ Q t.cursor.ahead) ∧ ∃ e, (∀ quiet, e.Fits quiet) ∧
        e.isComplaint = false ∧ r s = .ok none (takenBack s (endState (item s)) e)) :
    MeetsAt s Option.isSome r r (P.keptIf Q s.cursor.ahead) := by
  rcases hrun with ⟨a, t, hok, hQ, hr⟩ | ⟨hno, e, hfits, he, hr⟩
  · refine ⟨rfl, by rw [hr]; simpa [hok] using hitem.leads, ?_, ?_⟩
    · intro o u hu _
      rw [hr] at hu
      cases hu
      exact hitem.moved a t hok rfl
    · intro hclean o rest
      rw [hr]
      have hterr : t.hadError = false := by
        have := (hsilent s).1
        rw [hok] at this
        exact this.trans hclean
      have hP := (hitem.clean hclean a _).mp ⟨t, hok, hterr, rfl⟩
      rcases o with _ | b
      · simp only [Reading.keptIf]
        constructor
        · rintro ⟨u, hu, -⟩
          cases hu
        · rintro ⟨hnone, -⟩
          exact absurd ⟨a, _, hP, hQ⟩ hnone
      · constructor
        · rintro ⟨u, hu, -, rfl⟩
          cases hu
          exact ⟨hP, hQ⟩
        · rintro ⟨hPb, -⟩
          obtain ⟨u, hu, huerr, hrest⟩ := (hitem.clean hclean b rest).mpr hPb
          rw [hok] at hu
          cases hu
          exact ⟨t, rfl, hterr, hrest⟩
  · have hleads := leads_takenBack hitem.leads hfits he
    have hcursor := cursor_takenBack hitem.leads e
    refine ⟨rfl, by rw [hr]; exact hleads, ?_, ?_⟩
    · intro o u hu ho
      rw [hr] at hu
      cases hu
      cases ho
    · intro hclean o rest
      rw [hr]
      have hnone : ¬ ∃ a between, P s.cursor.ahead a between ∧ Q between := by
        rintro ⟨a, between, hP, hQ⟩
        obtain ⟨t, ht, -, rfl⟩ := (hitem.clean hclean a between).mpr hP
        exact hno a t ht hQ
      rcases o with _ | b
      · constructor
        · rintro ⟨u, hu, -, rfl⟩
          cases hu
          exact ⟨hnone, by rw [hcursor]⟩
        · rintro ⟨-, rfl⟩
          exact ⟨_, rfl, (hsilent s).1.trans hclean, by rw [hcursor]⟩
      · constructor
        · rintro ⟨u, hu, -⟩
          cases hu
        · rintro ⟨hPb, hQ⟩
          exact absurd ⟨b, rest, hPb, hQ⟩ hnone

end Reader
end CurlyScript
