import CurlyScript.Proofs.Steady

/-!
# Where expressions stand

The tokens of a file stand one after the other, and a reader only goes forward over them, or back to
where it has been.  So what a rule reads lies between the last token that was read before it and the
last one that it has read itself.  That is said here of every rule for types and expressions, along
with what becomes of the tokens that are left, and with the file that every error is about.  Nothing
is asked of the tokens or of earlier errors, so all of this holds after a failure as well.

A span is made from the tokens that are kept, which are not all that were read: an assignment to
something else than a place keeps its target alone, and half of a shift closes a list.  All that
matters is that no span leaves the part of the text its tokens were read from.

## Main definitions

* `Extent` — a file and its size.
* `Span.Inside` — a span of a file that lies between two places.
* `InOrder` — tokens of a file that stand one after the other.
* `Cursor.reach` — where the last token that was read ends.
* `ReaderState.Orderly` — the tokens that are left are in order, and errors are about the file.
* `Reader.Keeps` — a reader that keeps all this, and what it says of where its result stands.

## Main results

* `Cursor.Orderly.reaches` — a cursor only goes forward.
* `Reader.Keeps.bind` — one reader after another.
* `Reader.keeps_typeRef`, `Reader.keeps_expression` — types and expressions lie between what was
  read before them and what has been read after them.
-/

namespace CurlyScript

/-! ### Spans between two places -/

/-- A file and its size. -/
structure Extent where
  /-- The name of the file. -/
  file : String
  /-- How many bytes the file has. -/
  size : Nat

/-- The span is one of the file and lies between two places. -/
structure Span.Inside (s : Span) (file : String) (lo hi : Nat) : Prop where
  /-- It is one of the file. -/
  file_eq : s.file = file
  /-- It does not start before the first place. -/
  lo_le : lo ≤ s.start
  /-- It does not end after the second place. -/
  le_hi : s.stop ≤ hi

namespace Span.Inside

variable {a b : Span} {file : String} {lo lo' m hi hi' : Nat}

theorem mono (h : a.Inside file lo hi) (hlo : lo' ≤ lo) (hhi : hi ≤ hi') :
    a.Inside file lo' hi' :=
  ⟨h.file_eq, Nat.le_trans hlo h.lo_le, Nat.le_trans h.le_hi hhi⟩

/-- What covers two spans lies where they lie. -/
theorem cover (ha : a.Inside file lo m) (hb : b.Inside file lo' hi) (hlo : lo ≤ lo')
    (hhi : m ≤ hi) : (a.cover b).Inside file lo hi := by
  obtain ⟨hfile, hstart, hstop⟩ := ha
  obtain ⟨hfile', hstart', hstop'⟩ := hb
  have hmax : max a.stop b.stop ≤ hi := by omega
  rw [Span.cover, join, if_pos (hfile.trans hfile'.symm), Option.getD_some]
  split
  · exact ⟨hfile, hstart, hmax⟩
  · exact ⟨hfile', Nat.le_trans hlo hstart', hmax⟩

/-- The first of two spans lies where what covers them lies. -/
theorem of_cover (h : (a.cover b).Inside file lo hi) : a.Inside file lo hi := by
  obtain ⟨hfile, hstart, hstop⟩ := h
  rw [Span.cover, join] at hfile hstart hstop
  by_cases hfiles : a.file = b.file
  · rw [if_pos hfiles, Option.getD_some] at hfile hstart hstop
    by_cases hle : a.start ≤ b.start
    · rw [if_pos hle] at hfile hstart hstop
      exact ⟨hfile, hstart, Nat.le_trans (Nat.le_max_left ..) hstop⟩
    · rw [if_neg hle] at hfile hstart hstop
      have hafter : lo ≤ b.start := hstart
      exact ⟨hfiles.trans hfile, by omega, Nat.le_trans (Nat.le_max_left ..) hstop⟩
  · rw [if_neg hfiles] at hfile hstart hstop
    exact ⟨hfile, hstart, hstop⟩

end Span.Inside

/-! ### Tokens in order -/

/-- Tokens of the file that stand one after the other from some place on.  A shift has the two bytes
that it can be split into. -/
def InOrder (x : Extent) : Nat → List Token → Prop
  | lo, [] => lo ≤ x.size
  | lo, t :: ts =>
    t.span.file = x.file ∧ lo ≤ t.span.start ∧
      (t.kind = .operator .rsh → t.span.start + 2 ≤ t.span.stop) ∧ InOrder x t.span.stop ts

theorem InOrder.le_size {x : Extent} {lo : Nat} {ts : List Token} (h : InOrder x lo ts) :
    lo ≤ x.size := by
  induction ts generalizing lo with
  | nil => exact h
  | cons t ts ih =>
    obtain ⟨-, hlo, -, hmore⟩ := h
    exact Nat.le_trans hlo (Nat.le_trans t.span.start_le_stop (ih hmore))

/-- Where the last token that was read ends. -/
def Cursor.reach (c : Cursor) : Nat :=
  match c.behind with
  | [] => 0
  | t :: _ => t.span.stop

/-- The tokens that are left come after those that were read, one after the other. -/
def Cursor.Orderly (x : Extent) (c : Cursor) : Prop := InOrder x c.reach (c.ahead ++ [c.stop])

namespace Cursor.Orderly

variable {x : Extent} {c d : Cursor}

theorem reach_le_size (h : c.Orderly x) : c.reach ≤ x.size := InOrder.le_size h

theorem advance (h : c.Orderly x) : c.advance.Orderly x ∧ c.reach ≤ c.advance.reach := by
  rcases hahead : c.ahead with _ | ⟨t, rest⟩
  · have hstay : c.advance = c := by simp only [Cursor.advance, hahead]
    rw [hstay]
    exact ⟨h, Nat.le_refl _⟩
  · rw [Orderly, hahead] at h
    obtain ⟨-, hlo, -, hmore⟩ := h
    simp only [Cursor.advance, hahead]
    exact ⟨hmore, Nat.le_trans hlo t.span.start_le_stop⟩

/-- The halves of a shift stand one after the other, where the shift stands. -/
theorem splitShift (h : c.Orderly x) : c.splitShift.Orderly x ∧ c.reach ≤ c.splitShift.reach := by
  rcases splitShift_cases c with hstay | ⟨t, rest, hahead, hkind, hsplit⟩
  · rw [hstay]
    exact ⟨h, Nat.le_refl _⟩
  · rw [Orderly, hahead] at h
    obtain ⟨hfile, hlo, hshift, hmore⟩ := h
    have hbytes := hshift hkind
    have hfirst : (halfShift t 0).span.stop = t.span.start + 1 := rfl
    rw [hsplit]
    refine ⟨?_, ?_⟩
    · refine ⟨hfile, Nat.le_refl _, nofun, ?_⟩
      -- what comes after the shift comes after its second half
      have hsecond : (halfShift t 1).span.stop ≤ t.span.stop := hbytes
      cases rest with
      | nil =>
        obtain ⟨hfile', hlo', hshift', hmore'⟩ := hmore
        exact ⟨hfile', Nat.le_trans hsecond hlo', hshift', hmore'⟩
      | cons u rest =>
        obtain ⟨hfile', hlo', hshift', hmore'⟩ := hmore
        exact ⟨hfile', Nat.le_trans hsecond hlo', hshift', hmore'⟩
    · show c.reach ≤ (halfShift t 0).span.stop
      omega

/-- A cursor only goes forward, and what is left stays in order. -/
theorem reaches (h : c.Orderly x) (hd : c.Reaches d) : d.Orderly x ∧ c.reach ≤ d.reach := by
  induction hd with
  | refl => exact ⟨h, Nat.le_refl _⟩
  | advance _ ih =>
    obtain ⟨hd, hle⟩ := ih h
    exact ⟨hd.advance.1, Nat.le_trans hle hd.advance.2⟩
  | splitShift _ ih =>
    obtain ⟨hd, hle⟩ := ih h
    exact ⟨hd.splitShift.1, Nat.le_trans hle hd.splitShift.2⟩
  | attempt _ tried ih =>
    rw [tried.restore_eq]
    exact ih h

end Cursor.Orderly

/-! ### States -/

/-- A state on the way through a file: what is left is in order, and what has been reported is about
the file. -/
structure ReaderState.Orderly (x : Extent) (s : ReaderState) : Prop where
  /-- The cursor is before the end. -/
  placed : s.cursor.Placed
  /-- The tokens that are left are in order. -/
  tokens : s.cursor.Orderly x
  /-- Errors that were reported are about the file. -/
  reports : ∀ e, ReaderEvent.reported e ∈ s.log → e.span.file = x.file

namespace ReaderState.Orderly

variable {x : Extent} {s : ReaderState}

theorem move (h : s.Orderly x) {c : Cursor} (hc : s.cursor.Reaches c) :
    ({ s with cursor := c } : ReaderState).Orderly x ∧ s.cursor.reach ≤ c.reach := by
  obtain ⟨htokens, hle⟩ := h.tokens.reaches hc
  exact ⟨⟨h.placed.reaches hc, htokens, h.reports⟩, hle⟩

theorem note (h : s.Orderly x) {e : ReaderEvent} (he : e.isComplaint = false) :
    (s.note e).Orderly x := by
  refine ⟨h.placed, h.tokens, fun error herror => ?_⟩
  rcases List.mem_cons.mp herror with rfl | herror
  · cases he
  · exact h.reports error herror

theorem report (h : s.Orderly x) {e : SyntaxError} (he : e.span.file = x.file) :
    (s.report e).Orderly x := by
  refine ⟨h.placed, h.tokens, fun error herror => ?_⟩
  rcases List.mem_cons.mp herror with heq | herror
  · -- an error that is kept quiet is no report
    split at heq
    · cases heq
    · cases heq
      exact he
  · exact h.reports error herror

/-- The next token is one of the file, be it the end. -/
theorem here_file (h : s.Orderly x) : s.cursor.here.span.file = x.file := by
  have htokens := h.tokens
  rw [Cursor.Orderly] at htokens
  rw [Cursor.here]
  cases hahead : s.cursor.ahead with
  | nil =>
    rw [hahead] at htokens
    exact htokens.1
  | cons t rest =>
    rw [hahead] at htokens
    exact htokens.1

/-- The next token comes after those that were read. -/
theorem here_inside (h : s.Orderly x) {t : Token} {rest : List Token}
    (hahead : s.cursor.ahead = t :: rest) :
    t.span.Inside x.file s.cursor.reach (Reader.past s).cursor.reach := by
  have htokens := h.tokens
  rw [Cursor.Orderly, hahead] at htokens
  refine ⟨htokens.1, htokens.2.1, ?_⟩
  simp only [Reader.past, Cursor.advance, hahead]
  exact Nat.le_refl _

theorem past (h : s.Orderly x) :
    (Reader.past s).Orderly x ∧ s.cursor.reach ≤ (Reader.past s).cursor.reach :=
  h.move (.advance (.refl _))

theorem resume (h : s.Orderly x) :
    (Reader.resume s).Orderly x ∧ s.cursor.reach ≤ (Reader.resume s).cursor.reach := by
  obtain ⟨hmoved, hle⟩ := h.move (Cursor.reaches_skipTo s.cursor Reader.startsDeclaration)
  exact ⟨hmoved.note rfl, hle⟩

end ReaderState.Orderly

/-! ### Readers -/

namespace Reader

variable {α β : Type} {x : Extent} {lo m : Nat} {Q Q' : Nat → α → Prop} {R : Nat → β → Prop}

/-- What is known of an outcome: the state is orderly and no place before `lo` has been reached.  A
result is as `Q` says, which is given the place that has been reached; a failure is about the
file. -/
inductive Kept (x : Extent) (lo : Nat) (Q : Nat → α → Prop) :
    EStateM.Result SyntaxError ReaderState α → Prop
  /-- There is a result. -/
  | ok {a : α} {t : ReaderState} (hle : lo ≤ t.cursor.reach) (ht : t.Orderly x)
      (ha : Q t.cursor.reach a) : Kept x lo Q (.ok a t)
  /-- There is none. -/
  | error {e : SyntaxError} {t : ReaderState} (hle : lo ≤ t.cursor.reach) (ht : t.Orderly x)
      (he : e.span.file = x.file) : Kept x lo Q (.error e t)

/-- A reader that keeps states orderly from some place on, and what it says of its results. -/
def Keeps (x : Extent) (lo : Nat) (Q : Nat → α → Prop) (r : Reader α) : Prop :=
  ∀ s : ReaderState, s.Orderly x → lo ≤ s.cursor.reach → Kept x s.cursor.reach Q (r s)

/-- The same, when a token is next. -/
def KeepsBefore (t : Token) (x : Extent) (lo : Nat) (Q : Nat → α → Prop) (r : Reader α) : Prop :=
  ∀ (s : ReaderState) (rest : List Token), s.Orderly x → lo ≤ s.cursor.reach →
    s.cursor.ahead = t :: rest → Kept x s.cursor.reach Q (r s)

/-- The result has a span between the place `lo` and the one that has been reached. -/
def standsIn (x : Extent) (lo : Nat) (span : α → Span) (hi : Nat) (a : α) : Prop :=
  (span a).Inside x.file lo hi

theorem standsIn.further {span : α → Span} {m hi : Nat} {a : α} (hm : m ≤ hi)
    (h : standsIn x lo span m a) : standsIn x lo span hi a :=
  Span.Inside.mono h (Nat.le_refl _) hm

/-- Nothing is said of the place of a result. -/
def anywhere (_ : Nat) (_ : α) : Prop := True

/-- What is said of a result, if there is one. -/
def perhaps (Q : Nat → α → Prop) (hi : Nat) (found : Option α) : Prop := optional (Q hi) found

/-! ### Putting readers together -/

theorem Kept.later {result : EStateM.Result SyntaxError ReaderState α} (h : Kept x m Q result)
    (hm : lo ≤ m) : Kept x lo Q result := by
  cases h with
  | ok hle ht ha => exact .ok (Nat.le_trans hm hle) ht ha
  | error hle ht he => exact .error (Nat.le_trans hm hle) ht he

theorem Keeps.later {r : Reader α} (h : Keeps x lo Q r) (hm : lo ≤ m) : Keeps x m Q r :=
  fun s hs hle => h s hs (Nat.le_trans hm hle)

theorem Keeps.before {r : Reader α} (h : Keeps x lo Q r) (t : Token) : KeepsBefore t x lo Q r :=
  fun s _ hs hle _ => h s hs hle

theorem keeps_pure {a : α} (h : ∀ hi, lo ≤ hi → hi ≤ x.size → Q hi a) : Keeps x lo Q (pure a) :=
  fun _ hs hle => .ok (Nat.le_refl _) hs (h _ hle hs.tokens.reach_le_size)

theorem keeps_anywhere (a : α) : Keeps x lo anywhere (pure a) := keeps_pure fun _ _ _ => trivial

theorem keeps_none : Keeps x lo (perhaps Q) (pure none) := keeps_pure fun _ _ _ => optional_none

/-- A result that was read before the place that has been reached. -/
theorem keeps_standing {span : α → Span} {a : α} {n : Nat} (h : (span a).Inside x.file lo n)
    (hn : n ≤ m) : Keeps x m (standsIn x lo span) (pure a) :=
  keeps_pure fun _ hhi _ => h.mono (Nat.le_refl _) (Nat.le_trans hn hhi)

/-- A result that goes from one part that was read to another. -/
theorem keeps_covering {span : α → Span} {a : α} {first last : Span} {lo' n : Nat}
    (hfirst : first.Inside x.file lo n) (hlast : last.Inside x.file lo' m) (hlo : lo ≤ lo')
    (hn : n ≤ m) (hspan : span a = first.cover last) :
    Keeps x m (standsIn x lo span) (pure a) := by
  apply keeps_standing _ (Nat.le_refl m)
  rw [hspan]
  exact hfirst.cover hlast hlo hn

theorem keeps_fail (cause : Cause) : Keeps x lo Q (fail cause) :=
  fun _ hs _ => .error (Nat.le_refl _) hs hs.here_file

/-- The second reader begins at the place that the first one has reached. -/
theorem Keeps.bind {r : Reader α} {f : α → Reader β} (h : Keeps x lo Q r)
    (hf : ∀ a m, lo ≤ m → Q m a → Keeps x m R (f a)) : Keeps x lo R (r >>= f) := by
  intro s hs hle
  have hrun := h s hs hle
  rcases hr : r s with ⟨a, t⟩ | ⟨e, t⟩
  · rw [hr] at hrun
    rw [bind_ok hr]
    cases hrun with
    | ok hreach ht ha =>
      exact (hf a _ (Nat.le_trans hle hreach) ha t ht (Nat.le_refl _)).later hreach
  · rw [hr] at hrun
    rw [bind_error hr]
    cases hrun with
    | error hreach ht he => exact .error hreach ht he

theorem Keeps.map {r : Reader α} {f : α → β} (h : Keeps x lo Q r)
    (hf : ∀ hi a, Q hi a → R hi (f a)) : Keeps x lo R (f <$> r) := by
  intro s hs hle
  have hrun := h s hs hle
  rw [map_eq_pure_bind]
  rcases hr : r s with ⟨a, t⟩ | ⟨e, t⟩
  · rw [hr] at hrun
    rw [bind_ok hr]
    cases hrun with
    | ok hle ht ha => exact .ok hle ht (hf _ _ ha)
  · rw [hr] at hrun
    rw [bind_error hr]
    cases hrun with
    | error hle ht he => exact .error hle ht he

theorem Keeps.weaken {r : Reader α} (h : Keeps x lo Q r) (hQ : ∀ hi a, Q hi a → Q' hi a) :
    Keeps x lo Q' r := by
  rw [← id_map r]
  exact h.map hQ

theorem keeps_some {a : α} (h : Keeps x lo Q (pure a)) :
    Keeps x lo (perhaps Q) (pure (some a)) := by
  rw [← map_pure]
  exact h.map fun _ _ => optional_some

/-- After a reader that may find nothing: the two cases apart. -/
theorem Keeps.bind_option {r : Reader (Option α)} {f : Option α → Reader β}
    (h : Keeps x lo (perhaps Q) r) (hsome : ∀ a m, lo ≤ m → Q m a → Keeps x m R (f (some a)))
    (hnone : Keeps x lo R (f none)) : Keeps x lo R (r >>= f) := by
  refine h.bind fun found m hm hfound => ?_
  cases found with
  | none => exact hnone.later hm
  | some a => exact hsome a m hm (hfound a rfl)

/-- A choice by a truth value that is found. -/
theorem Keeps.ite {c : Reader Bool} {r q : Reader β} (hc : Keeps x lo anywhere c)
    (hyes : Keeps x lo R r) (hno : Keeps x lo R q) : Keeps x lo R (do if ← c then r else q) := by
  refine hc.bind fun b m hm _ => ?_
  cases b with
  | false => exact hno.later hm
  | true => exact hyes.later hm

/-- A reader that looks at the next token first. -/
theorem keeps_here {f : Token → Reader β} (hnext : ∀ t, KeepsBefore t x lo R (f t))
    (hend : ∀ t : Token, t.kind = .endOfFile → t.span.file = x.file → Keeps x lo R (f t)) :
    Keeps x lo R (here >>= f) := by
  intro s hs hle
  show Kept x s.cursor.reach R (f s.cursor.here s)
  cases hahead : s.cursor.ahead with
  | nil => exact hend _ (here_kind_of_nil hs.placed.from_self hahead) hs.here_file s hs hle
  | cons t rest =>
    rw [here_of_cons hahead]
    exact hnext t s rest hs hle hahead

/-- A reader that does the same whether a token or the end is next. -/
theorem keeps_anyHere {f : Token → Reader β} (h : ∀ t, Keeps x lo R (f t)) :
    Keeps x lo R (here >>= f) := keeps_here (fun t => (h t).before t) fun t _ _ => h t

/-- Moving past a token that is known to be next. -/
theorem keepsBefore_advance {t : Token} {f : Token → Reader β}
    (hf : ∀ m, lo ≤ m → t.span.Inside x.file lo m → Keeps x m R (f t)) :
    KeepsBefore t x lo R (advance >>= f) := by
  intro s rest hs hle hahead
  show Kept x s.cursor.reach R (f s.cursor.here (past s))
  obtain ⟨hpast, hreach⟩ := hs.past
  have hinside := (hs.here_inside hahead).mono hle (Nat.le_refl _)
  rw [here_of_cons hahead]
  exact (hf _ (Nat.le_trans hle hreach) hinside (past s) hpast (Nat.le_refl _)).later hreach

theorem keeps_advance : Keeps x lo anywhere advance :=
  fun _ hs _ => .ok hs.past.2 hs.past.1 trivial

theorem keeps_report {e : SyntaxError} (he : e.span.file = x.file) :
    Keeps x lo anywhere (report e) :=
  fun _ hs _ => .ok (Nat.le_refl _) (hs.report he) trivial

/-- Saying something that is no report. -/
theorem keeps_note {e : ReaderEvent} (he : e.isComplaint = false) :
    Keeps x lo anywhere (note e) :=
  fun _ hs _ => .ok (Nat.le_refl _) (hs.note he) trivial

theorem keeps_check (kind : Kind) : Keeps x lo anywhere (check kind) :=
  fun _ hs _ => .ok (Nat.le_refl _) hs trivial

theorem keeps_atEnd : Keeps x lo anywhere atEnd := fun _ hs _ => .ok (Nat.le_refl _) hs trivial

/-- A rule that takes what is left to read as its bound. -/
theorem keeps_bounded {f : Nat → Reader α} (hf : ∀ fuel, Keeps x lo Q (f fuel)) :
    Keeps x lo Q (do f (← remaining)) := fun s hs hle => hf _ s hs hle

/-! ### Single tokens -/

theorem keeps_accept? (kind : Kind) :
    Keeps x lo (perhaps (standsIn x lo Token.span)) (accept? kind) := by
  intro s hs hle
  rw [accept?_eq]
  by_cases hkind : headKind? s.cursor.ahead = some kind
  · obtain ⟨t, rest, hahead, -⟩ := headKind?_eq_some_iff.mp hkind
    rw [if_pos hkind]
    show Kept _ _ _ (.ok (some s.cursor.here) (past s))
    rw [here_of_cons hahead]
    exact .ok hs.past.2 hs.past.1
      (optional_some ((hs.here_inside hahead).mono hle (Nat.le_refl _)))
  · rw [if_neg hkind]
    exact .ok (Nat.le_refl _) hs optional_none

theorem keeps_acceptMark? (mark : Punctuation) :
    Keeps x lo (perhaps (standsIn x lo Token.span)) (acceptMark? mark) := keeps_accept? _

theorem keeps_acceptOperator? (ops : List Operator) :
    Keeps x lo (perhaps (standsIn x lo Token.span)) (acceptOperator? ops) := by
  refine keeps_here (fun t => ?_) fun t ht _ => by rw [ht]; exact keeps_none
  cases t.kind with
  | operator op =>
    dsimp only
    split
    · apply keepsBefore_advance
      intro m _ hinside
      exact keeps_some (keeps_standing hinside (Nat.le_refl _))
    · exact keeps_none.before t
  | _ => exact keeps_none.before t

theorem keeps_expect (kind : Kind) (what : Expectation) :
    Keeps x lo (standsIn x lo Token.span) (expect kind what) :=
  (keeps_accept? kind).bind_option
    (fun _ _ _ ht => keeps_standing ht (Nat.le_refl _)) (keeps_fail _)

theorem keeps_expectMark (mark : Punctuation) (what : Expectation) :
    Keeps x lo (standsIn x lo Token.span) (expectMark mark what) := keeps_expect _ _

theorem keeps_expectName (what : Expectation) :
    Keeps x lo (standsIn x lo Token.span) (expectName what) := keeps_expect _ _

theorem keeps_closeAngle? : Keeps x lo (perhaps anywhere) closeAngle? := by
  intro s hs hle
  rw [closeAngle?_eq]
  split
  · show Kept _ _ _ (.ok (some s.cursor.here) (past s))
    exact .ok hs.past.2 hs.past.1 (optional_some trivial)
  · split
    · obtain ⟨hhalf, hreach⟩ := hs.move (.splitShift (.refl _))
      exact .ok hreach (hhalf.note rfl) (optional_some trivial)
    · exact .ok (Nat.le_refl _) hs optional_none

/-! ### Repeating and recovering -/

/-- Items with commas between them, each of which stays where it was while more are read. -/
theorem keeps_commaSeparated {item : Reader α} (hitem : Keeps x lo Q item)
    (hQ : ∀ {m hi a}, m ≤ hi → Q m a → Q hi a) (count : Nat) :
    Keeps x lo (fun hi => each (Q hi)) (commaSeparated item count) := by
  induction count with
  | zero =>
    exact hitem.bind fun _ _ _ ha => keeps_pure fun _ hm _ => each_cons (hQ hm ha) each_nil
  | succ count ih =>
    refine hitem.bind fun a m hm ha => (keeps_acceptMark? .comma).bind_option ?_ ?_
    · intro _ m' hm' _
      refine (ih.later (by omega)).bind fun more m'' hm'' hmore => keeps_pure fun hi hhi _ => ?_
      exact each_cons (hQ (by omega) ha) fun b hb => hQ hhi (hmore b hb)
    · exact keeps_pure fun _ hhi _ => each_cons (hQ hhi ha) each_nil

theorem keeps_listUpTo (close : Punctuation) {item : Reader α} (hitem : Keeps x lo Q item)
    (fuel : Nat) : Keeps x lo anywhere (listUpTo close item fuel) := by
  have hanywhere : Keeps x lo anywhere item := hitem.weaken fun _ _ _ => trivial
  refine (keeps_check _).ite (keeps_anywhere _) ?_
  exact (keeps_commaSeparated hanywhere (fun _ _ => trivial) fuel).weaken fun _ _ _ => trivial

/-- After a failure that is caught, reading goes on further on. -/
theorem Keeps.recover {r : Reader α} (h : Keeps x lo Q r) {s : ReaderState} (hs : s.Orderly x)
    (hle : lo ≤ s.cursor.reach) :
    (recover r s).2.Orderly x ∧ s.cursor.reach ≤ (recover r s).2.cursor.reach ∧
      perhaps Q (recover r s).2.cursor.reach (recover r s).1 := by
  have hrun := h s hs hle
  unfold Reader.recover
  generalize r s = result at hrun
  cases hrun with
  | ok hreach ht ha => exact ⟨ht, hreach, optional_some ha⟩
  | error hreach ht he =>
    -- what is passed over is never gone back to
    obtain ⟨hresumed, hfurther⟩ := (ht.report he).resume
    exact ⟨hresumed, Nat.le_trans hreach hfurther, optional_none⟩

theorem keeps_recovered {r : Reader α} (h : Keeps x lo Q r) :
    Keeps x lo (perhaps Q) (recovered r) := by
  intro s hs hle
  obtain ⟨hs', hreach, hresult⟩ := h.recover hs hle
  exact .ok hreach hs' hresult

/-! ### Types -/

/-- The last of some types that lie somewhere. -/
theorem lastTypeSpan_inside {entries : List TypeRef} {file : String} {hi : Nat}
    (h : ∀ entry ∈ entries, entry.span.Inside file lo hi) :
    ∀ span ∈ lastTypeSpan? entries, span.Inside file lo hi := by
  induction entries with
  | nil => exact nofun
  | cons entry entries ih =>
    obtain ⟨hentry, hentries⟩ := List.forall_mem_cons.mp h
    cases entries with
    | nil =>
      rintro _ ⟨⟩
      exact hentry
    | cons next entries => exact ih hentries

/-- A list lies where its bracket and its entries lie. -/
theorem typeList_inside {angle : Token} {entries : List TypeRef} {file : String} {hi : Nat}
    (hangle : angle.span.Inside file lo hi)
    (hentries : ∀ entry ∈ entries, entry.span.Inside file lo hi) :
    (TypeList.mk angle entries).span.Inside file lo hi := by
  have hlast := lastTypeSpan_inside hentries
  rw [TypeList.span]
  cases hspan : lastTypeSpan? entries with
  | none => exact hangle
  | some last => exact hangle.cover (hlast last hspan) (Nat.le_refl _) (Nat.le_refl _)

/-- A type lies where its parts lie. -/
theorem typeRef_inside {name : Token} {generics : Option TypeList} {bound : Option TypeRef}
    {file : String} {hi : Nat} (hname : name.span.Inside file lo hi)
    (hgenerics : ∀ l ∈ generics, l.span.Inside file lo hi)
    (hbound : ∀ type ∈ bound, type.span.Inside file lo hi) :
    (TypeRef.mk name generics bound).span.Inside file lo hi := by
  cases bound with
  | some type => exact hname.cover (hbound type rfl) (Nat.le_refl _) (Nat.le_refl _)
  | none =>
    cases generics with
    | some l => exact hname.cover (hgenerics l rfl) (Nat.le_refl _) (Nat.le_refl _)
    | none => exact hname

section Types

variable {entry : Reader TypeRef} (hentry : ∀ lo, Keeps x lo (standsIn x lo TypeRef.span) entry)

include hentry

theorem keeps_angleList (fuel lo : Nat) :
    Keeps x lo (standsIn x lo TypeList.span) (angleList fuel entry) := by
  refine (keeps_expect _ _).bind fun angle m hm hangle => ?_
  refine (keeps_commaSeparated (hentry m) standsIn.further fuel).bind ?_
  intro entries m' hm' hentries
  refine keeps_closeAngle?.bind_option (fun _ hi hhi _ => ?_) (keeps_fail _)
  refine keeps_pure fun hi' hhi' _ => typeList_inside ?_ fun entry hentry => ?_
  · exact hangle.mono (Nat.le_refl _) (by omega)
  · exact (hentries entry hentry).mono hm (by omega)

theorem keeps_angleList? (fuel lo : Nat) :
    Keeps x lo (perhaps (standsIn x lo TypeList.span)) (angleList? fuel entry) :=
  (keeps_check _).ite ((keeps_angleList hentry fuel lo).map fun _ _ => optional_some) keeps_none

theorem keeps_typeAfter? (mark : Punctuation) (lo : Nat) :
    Keeps x lo (perhaps (standsIn x lo TypeRef.span)) (typeAfter? mark entry) :=
  (keeps_acceptMark? mark).bind_option
    (fun _ m hm _ => (hentry m).map fun _ _ h => optional_some (h.mono hm (Nat.le_refl _)))
    keeps_none

end Types

theorem keeps_typeAt (fuel : Nat) (what : Expectation) (lo : Nat) :
    Keeps x lo (standsIn x lo TypeRef.span) (typeAt fuel what) := by
  induction fuel generalizing what lo with
  | zero => exact keeps_fail _
  | succ fuel ih =>
    refine (keeps_expectName what).bind fun name m hm hname => ?_
    refine (keeps_angleList? (ih _) fuel m).bind fun generics m' hm' hgenerics => ?_
    refine (keeps_typeAfter? (ih _) .colon m').bind fun bound m'' hm'' hbound => ?_
    refine keeps_pure fun hi hhi _ => typeRef_inside ?_ (fun l hl => ?_) fun type htype => ?_
    · exact hname.mono (Nat.le_refl _) (by omega)
    · exact (hgenerics l hl).mono hm (by omega)
    · exact (hbound type htype).mono (by omega) hhi

theorem keeps_typeRef (lo : Nat) : Keeps x lo (standsIn x lo TypeRef.span) typeRef :=
  keeps_bounded fun fuel => keeps_typeAt fuel _ lo

theorem keeps_typeArguments (lo : Nat) :
    Keeps x lo (standsIn x lo TypeList.span) typeArguments :=
  keeps_bounded fun fuel => keeps_angleList (keeps_typeAt fuel _) fuel lo

theorem keeps_typeParameters? : Keeps x lo anywhere typeParameters? :=
  keeps_bounded fun fuel =>
    (keeps_angleList? (keeps_typeAt fuel _) fuel lo).weaken fun _ _ _ => trivial

theorem keeps_parameters : Keeps x lo anywhere parameters := by
  have hparameter : ∀ lo, Keeps x lo anywhere parameter := fun lo =>
    (keeps_expectName _).bind fun _ _ _ _ => (keeps_expectMark _ _).bind fun _ m _ _ =>
      (keeps_typeRef m).bind fun _ _ _ _ => keeps_anywhere _
  exact (keeps_bounded fun fuel => keeps_listUpTo .rparen (hparameter lo) fuel).bind
    fun _ _ _ _ => (keeps_expectMark _ _).bind fun _ _ _ _ => keeps_anywhere _

theorem keeps_returnType? : Keeps x lo anywhere returnType? :=
  (keeps_typeAfter? keeps_typeRef .arrow lo).weaken fun _ _ _ => trivial

/-! ### Trying -/

/-- What is taken back leaves the cursor where it was, and nothing is found. -/
theorem kept_takenBack {s t : ReaderState} (hs : s.Orderly x) (ht : t.Orderly x)
    (hleads : s.Leads t) {e : ReaderEvent} (he : e.isComplaint = false) :
    Kept x s.cursor.reach (perhaps Q) (.ok none (takenBack s t e)) := by
  have hcursor := cursor_takenBack hleads e
  have hback : (takenBack s t e).Orderly x :=
    ⟨hcursor ▸ hs.placed, hcursor ▸ hs.tokens, (ht.note he).reports⟩
  refine .ok ?_ hback optional_none
  rw [hcursor]

theorem keeps_callTypeArguments? : Keeps x lo (perhaps anywhere) callTypeArguments? := by
  intro s hs hle
  have hnoted : (s.note (.tryingGenerics s.cursor.here.span)).Orderly x := hs.note rfl
  have hrun := keeps_typeArguments lo _ hnoted hle
  have hleads : s.Leads (endState (typeArguments (s.note (.tryingGenerics s.cursor.here.span)))) :=
    (s.leads_note (.tryingGenerics s.cursor.here.span) trivial rfl).trans
      (meets_typeArguments _ _ hnoted.placed.from_self (Nat.lt_succ_self _)).leads
  -- unless a parenthesis follows, the cursor goes back to where the attempt began
  rw [Pairing.callTypeArguments?_eq]
  generalize typeArguments (s.note _) = result at hrun hleads
  cases hrun with
  | ok hreach ht ha =>
    dsimp only
    split
    · exact .ok hreach ht (optional_some trivial)
    · exact kept_takenBack hs ht hleads rfl
  | error hreach ht he => exact kept_takenBack hs ht hleads rfl

theorem keeps_loopType? (keyword : Token) (lo : Nat) :
    Keeps x lo (perhaps (standsIn x lo TypeRef.span)) (loopType? keyword) := by
  intro s hs hle
  have hrun := keeps_typeRef lo s hs hle
  have hleads := (meets_typeRef _ s hs.placed.from_self (Nat.lt_succ_self _)).leads
  rw [Pairing.loopType?_eq]
  generalize typeRef s = result at hrun hleads
  cases hrun with
  | ok hreach ht ha =>
    dsimp only
    split
    · exact .ok hreach ht (optional_some ha)
    · exact kept_takenBack hs ht hleads rfl
  | error hreach ht he => exact kept_takenBack hs ht hleads rfl

/-! ### Expressions -/

section ExprRules

variable {fuel : Nat} {again : Rule → Reader Expr}
  (hagain : ∀ rule lo, Keeps x lo (standsIn x lo Expr.span) (again rule))

include hagain

/-- An expression that some token opens, up to what is read last. -/
theorem keeps_lambda {keyword : Token} (hm : lo ≤ m)
    (hkeyword : keyword.span.Inside x.file lo m) :
    Keeps x m (standsIn x lo Expr.span) (lambda again keyword) := by
  refine keeps_typeParameters?.bind fun _ _ hm₁ _ => (keeps_expectMark _ _).bind fun _ _ hm₂ _ => ?_
  refine keeps_parameters.bind fun _ _ hm₃ _ => keeps_returnType?.bind fun _ m' hm₄ _ => ?_
  refine (hagain .expression m').bind fun body _ hm₅ hbody => ?_
  exact keeps_covering hkeyword hbody (by omega) (by omega) rfl

theorem keeps_grouping {lparen : Token} (hm : lo ≤ m)
    (hlparen : lparen.span.Inside x.file lo m) :
    Keeps x m (standsIn x lo Expr.span) (grouping again lparen) := by
  refine (hagain .expression m).bind fun _ _ hm₁ _ => ?_
  refine (keeps_expectMark _ _).bind fun rparen _ hm₂ hrparen => ?_
  exact keeps_covering hlparen hrparen (by omega) (by omega) rfl

theorem keeps_array {bracket : Token} (hm : lo ≤ m)
    (hbracket : bracket.span.Inside x.file lo m) :
    Keeps x m (standsIn x lo Expr.span) (array fuel again bracket) := by
  refine (keeps_listUpTo _ (hagain .expression m) fuel).bind fun _ _ hm₁ _ => ?_
  refine (keeps_expectMark _ _).bind fun close _ hm₂ hclose => ?_
  exact keeps_covering hbracket hclose (by omega) (by omega) rfl

theorem keeps_primary (lo : Nat) : Keeps x lo (standsIn x lo Expr.span) (primary fuel again) := by
  have hfail : Keeps x lo (standsIn x lo Expr.span) (fail .expectedExpression) := keeps_fail _
  -- an expression of one token lies where the token lies
  have hone (t : Token) (e : Token → Expr) (he : (e t).span = t.span) :
      KeepsBefore t x lo (standsIn x lo Expr.span) (do return e (← advance)) := by
    apply keepsBefore_advance
    intro m _ hinside
    exact keeps_standing (he ▸ hinside) (Nat.le_refl _)
  refine keeps_here (fun t => ?_) fun t ht _ => by rw [ht]; exact hfail
  cases t.kind with
  | keyword word =>
    cases word with
    | true => exact hone t _ rfl
    | false => exact hone t _ rfl
    | this => exact hone t _ rfl
    | fn => exact keepsBefore_advance fun m hm hinside => keeps_lambda hagain hm hinside
    | _ => exact hfail.before t
  | literal kind =>
    cases kind with
    | identifier => exact hone t _ rfl
    | _ =>
      dsimp only
      cases t.literal with
      | none => exact hfail.before t
      | some value => exact hone t _ rfl
  | punctuation mark =>
    cases mark with
    | lparen => exact keepsBefore_advance fun m hm hinside => keeps_grouping hagain hm hinside
    | lbracket => exact keepsBefore_advance fun m hm hinside => keeps_array hagain hm hinside
    | _ => exact hfail.before t
  | _ => exact hfail.before t

section Suffixes

variable {e : Expr} (hm : lo ≤ m) (he : e.span.Inside x.file lo m)

include hm he

theorem keeps_finishCall (generics : Option TypeList) :
    Keeps x m (standsIn x lo Expr.span) (finishCall fuel again e generics) := by
  refine (keeps_listUpTo _ (hagain .expression m) fuel).bind fun _ _ hm₁ _ => ?_
  refine (keeps_expectMark _ _).bind fun paren _ hm₂ hparen => ?_
  exact keeps_covering he hparen (by omega) (by omega) rfl

theorem keeps_placeSuffix? :
    Keeps x m (perhaps (standsIn x lo Expr.span)) (placeSuffix? fuel again e) := by
  refine (keeps_check _).ite ?_ ?_
  · refine keeps_callTypeArguments?.bind_option (fun generics m₁ hm₁ _ => ?_) keeps_none
    refine keeps_advance.bind fun _ m₂ hm₂ _ => ?_
    have he' := he.mono (Nat.le_refl _) (Nat.le_trans hm₁ hm₂)
    exact (keeps_finishCall hagain (by omega) he' (some generics)).map fun _ _ => optional_some
  · refine (keeps_acceptOperator? _).bind_option (fun op m₁ hm₁ hop => ?_) keeps_none
    exact keeps_some (keeps_covering he hop (by omega) (by omega) rfl)

theorem keeps_suffix? : Keeps x m (perhaps (standsIn x lo Expr.span)) (suffix? fuel again e) := by
  refine (keeps_acceptMark? .dot).bind_option (fun _ m₁ hm₁ _ => ?_) ?_
  · refine (keeps_expectName _).bind fun member m₂ hm₂ hmember => ?_
    exact keeps_some (keeps_covering he hmember (by omega) (by omega) rfl)
  refine (keeps_acceptMark? .lparen).bind_option (fun _ m₁ hm₁ _ => ?_) ?_
  · have he' := he.mono (Nat.le_refl _) hm₁
    have hcall : Keeps x m₁ (standsIn x lo Expr.span) (finishCall fuel again e none) :=
      keeps_finishCall hagain (Nat.le_trans hm hm₁) he' none
    exact hcall.map fun _ _ => optional_some
  refine (keeps_acceptMark? .lbracket).bind_option (fun _ m₁ hm₁ _ => ?_) ?_
  · refine (hagain .expression m₁).bind fun _ m₂ hm₂ _ => ?_
    refine (keeps_expectMark _ _).bind fun bracket m₃ hm₃ hbracket => ?_
    exact keeps_some (keeps_covering he hbracket (by omega) (by omega) rfl)
  · simp only [Option.isSome_none, Bool.false_eq_true, if_false]
    split
    · exact keeps_placeSuffix? hagain hm he
    · exact keeps_none

end Suffixes

theorem keeps_suffixes (count : Nat) {e : Expr} (hm : lo ≤ m) (he : e.span.Inside x.file lo m) :
    Keeps x m (standsIn x lo Expr.span) (suffixes fuel again count e) := by
  induction count generalizing e m with
  | zero => exact keeps_standing he (Nat.le_refl _)
  | succ count ih =>
    refine (keeps_suffix? hagain hm he).bind_option (fun longer m₁ hm₁ hlonger => ?_) ?_
    · exact ih (Nat.le_trans hm hm₁) hlonger
    · exact keeps_standing he (Nat.le_refl _)

theorem keeps_unary (lo : Nat) : Keeps x lo (standsIn x lo Expr.span) (unary fuel again) := by
  refine (keeps_acceptOperator? _).bind_option (fun op m hm hop => ?_) ?_
  · refine (hagain .unary m).bind fun operand m₁ hm₁ hoperand => ?_
    exact keeps_covering hop hoperand hm (by omega) rfl
  · exact (keeps_primary hagain lo).bind fun e m hm he => keeps_suffixes hagain fuel hm he

theorem keeps_power (lo : Nat) : Keeps x lo (standsIn x lo Expr.span) (power fuel again) := by
  refine (keeps_unary hagain lo).bind fun base m hm hbase => ?_
  refine (keeps_acceptOperator? _).bind_option (fun op m₁ hm₁ _ => ?_) ?_
  · refine (hagain .power m₁).bind fun exponent m₂ hm₂ hexponent => ?_
    exact keeps_covering hbase hexponent (by omega) (by omega) rfl
  · exact keeps_standing hbase (Nat.le_refl _)

section Operands

variable {operand : Reader Expr} (hoperand : ∀ lo, Keeps x lo (standsIn x lo Expr.span) operand)

include hoperand

omit hagain in
theorem keeps_chain (ops : List Operator) (count : Nat) {left : Expr} (hm : lo ≤ m)
    (hleft : left.span.Inside x.file lo m) :
    Keeps x m (standsIn x lo Expr.span) (chain ops operand count left) := by
  induction count generalizing left m with
  | zero => exact keeps_standing hleft (Nat.le_refl _)
  | succ count ih =>
    refine (keeps_acceptOperator? ops).bind_option (fun op m₁ hm₁ _ => ?_) ?_
    · refine (hoperand m₁).bind fun right m₂ hm₂ hright => ih (by omega) ?_
      exact hleft.cover hright (by omega) (by omega)
    · exact keeps_standing hleft (Nat.le_refl _)

omit hagain in
theorem keeps_comparison (ops : List Operator) {left : Expr} (hm : lo ≤ m)
    (hleft : left.span.Inside x.file lo m) :
    Keeps x m (standsIn x lo Expr.span) (comparison ops operand left) := by
  refine (keeps_acceptOperator? ops).bind_option (fun op m₁ hm₁ _ => ?_) ?_
  · refine (hoperand m₁).bind fun right m₂ hm₂ hright => ?_
    have hwhole : Keeps x m₂ (standsIn x lo Expr.span) (pure (.binary left op right)) :=
      keeps_covering hleft hright (by omega) (by omega) rfl
    apply keeps_anyHere
    intro t
    split
    · split
      · exact keeps_fail _
      · exact hwhole
    · exact hwhole
  · exact keeps_standing hleft (Nat.le_refl _)

end Operands

theorem keeps_binary (levels : List Level) (lo : Nat) :
    Keeps x lo (standsIn x lo Expr.span) (binary fuel again levels) := by
  induction levels generalizing lo with
  | nil => exact keeps_power hagain lo
  | cons level tighter ih =>
    refine (ih lo).bind fun left m hm hleft => ?_
    split
    · exact keeps_chain ih level.operators fuel hm hleft
    · exact keeps_comparison ih level.operators hm hleft

theorem keeps_ternary (lo : Nat) : Keeps x lo (standsIn x lo Expr.span) (ternary fuel again) := by
  refine (keeps_binary hagain binaryLevels lo).bind fun condition m hm hcondition => ?_
  refine (keeps_acceptMark? .questionMark).bind fun question m₁ hm₁ _ => ?_
  cases question with
  | none => exact keeps_standing hcondition hm₁
  | some _ =>
    refine (hagain .expression m₁).bind fun _ m₂ hm₂ _ => ?_
    refine (keeps_expectMark _ _).bind fun _ m₃ hm₃ _ => ?_
    refine (hagain .ternary m₃).bind fun no m₄ hm₄ hno => ?_
    exact keeps_covering hcondition hno (by omega) (by omega) rfl

omit hagain in
/-- The assignment of a value to a target, whose tokens come before those of the value.  A target
that cannot be assigned to stands for the whole. -/
theorem keeps_assignTo {target value : Expr} {n : Nat} (htarget : target.span.Inside x.file lo n)
    (hvalue : value.span.Inside x.file lo m) (hn : n ≤ m) (op : Token)
    (compound : Option Operator) :
    Keeps x m (standsIn x lo Expr.span) (assignTo target op compound value) := by
  -- a compound assignment reads the target again, which lies no further
  have hassigned : (assignedValue target op compound value).span.Inside x.file lo m := by
    cases compound with
    | none => exact hvalue
    | some base => exact htarget.cover hvalue (Nat.le_refl _) hn
  unfold assignTo
  split
  · exact keeps_covering htarget hassigned (Nat.le_refl _) hn rfl
  · exact keeps_covering htarget.of_cover hassigned (Nat.le_refl _) hn rfl
  · refine (keeps_report htarget.file_eq).bind fun _ m' hm' _ => ?_
    exact keeps_standing htarget (Nat.le_trans hn hm')

theorem keeps_assignment (lo : Nat) :
    Keeps x lo (standsIn x lo Expr.span) (assignment fuel again) := by
  refine (keeps_ternary hagain lo).bind fun target m hm htarget => ?_
  have hsame : Keeps x m (standsIn x lo Expr.span) (pure target) :=
    keeps_standing htarget (Nat.le_refl _)
  refine keeps_here (fun t => ?_) fun t ht _ => by rw [ht]; exact hsame
  cases t.kind with
  | operator op =>
    dsimp only
    split
    · refine keepsBefore_advance fun m₁ hm₁ _ => ?_
      refine (hagain .expression m₁).bind fun value m₂ hm₂ hvalue => ?_
      exact keeps_assignTo htarget (hvalue.mono (by omega) (Nat.le_refl _)) (by omega) t _
    · exact hsame.before t
  | _ => exact hsame.before t

end ExprRules

/-- Every rule for expressions reads what lies between the tokens before it and the last one it has
read. -/
theorem keeps_ruleAt (fuel : Nat) (rule : Rule) (lo : Nat) :
    Keeps x lo (standsIn x lo Expr.span) (ruleAt fuel rule) := by
  induction fuel generalizing rule lo with
  | zero => exact keeps_fail _
  | succ fuel ih =>
    cases rule with
    | expression => exact keeps_assignment ih lo
    | ternary => exact keeps_ternary ih lo
    | power => exact keeps_power ih lo
    | unary => exact keeps_unary ih lo

theorem keeps_expression (lo : Nat) : Keeps x lo (standsIn x lo Expr.span) expression :=
  keeps_bounded fun fuel => keeps_ruleAt fuel .expression lo

theorem keeps_expression? (lo : Nat) :
    Keeps x lo (perhaps (standsIn x lo Expr.span)) expression? := by
  apply keeps_anyHere
  intro t
  split
  · exact (keeps_expression lo).map fun _ _ => optional_some
  · exact keeps_none

end Reader
end CurlyScript
