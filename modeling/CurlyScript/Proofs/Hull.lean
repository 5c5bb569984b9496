import CurlyScript.Proofs.Arrangement
import CurlyScript.Proofs.Concatenation
import CurlyScript.Proofs.TypeGrammar

/-!
# The spans of runs of tokens

The span of a node is put together from the spans of two of its parts, and never looks at the tokens
in between.  It is the right one if the parts are the first and the last of the node: then it starts
where the first token starts, on the line of that token, and ends where the last token ends.  This
rests on nothing but the order of the tokens, which the brackets that a shift is split into keep.

## Main definitions

* `Ordered` — tokens of one file, each ending before the next one starts.
* `Hull` — the span from the first of some tokens to the last one.
* `Stands` — a span that goes from the first to the last of the tokens that spell some pieces.

## Main results

* `Hull.cover` — what covers a hull at the front of some tokens and one at their end is their hull.
* `Stands.cover` — from one part of a node to another, with any tokens between them.
* `Frontend.inOrder_withoutEnd` — the tokens of a text are in order.
-/

namespace CurlyScript

/-! ### Tokens in order -/

/-- Tokens of one file, each of which ends before the next one starts. -/
def Ordered (tokens : List Token) : Prop :=
  tokens.Pairwise fun t u => t.span.file = u.span.file ∧ t.span.stop ≤ u.span.start

section InOrder

variable {x : Extent} {lo lo' : Nat} {tokens : List Token}

theorem InOrder.mono (h : InOrder x lo tokens) (hlo : lo' ≤ lo) : InOrder x lo' tokens := by
  cases tokens with
  | nil => exact Nat.le_trans hlo h
  | cons t rest => exact ⟨h.1, Nat.le_trans hlo h.2.1, h.2.2⟩

theorem InOrder.of_append {more : List Token} (h : InOrder x lo (tokens ++ more)) :
    InOrder x lo tokens := by
  induction tokens generalizing lo with
  | nil => exact h.le_size
  | cons t rest ih => exact ⟨h.1, h.2.1, h.2.2.1, ih h.2.2.2⟩

/-- Nothing starts before the place from which on the tokens are in order. -/
theorem InOrder.inside (h : InOrder x lo tokens) {t : Token} (ht : t ∈ tokens) :
    t.span.file = x.file ∧ lo ≤ t.span.start := by
  induction tokens generalizing lo with
  | nil => cases ht
  | cons u rest ih =>
    obtain ⟨hfile, hlo, -, hmore⟩ := h
    rcases List.mem_cons.mp ht with rfl | ht
    · exact ⟨hfile, hlo⟩
    · obtain ⟨hfile', hlo'⟩ := ih hmore ht
      exact ⟨hfile', Nat.le_trans hlo (Nat.le_trans u.span.start_le_stop hlo')⟩

theorem InOrder.ordered (h : InOrder x lo tokens) : Ordered tokens := by
  induction tokens generalizing lo with
  | nil => exact .nil
  | cons t rest ih =>
    obtain ⟨hfile, -, -, hmore⟩ := h
    refine .cons (fun u hu => ?_) (ih hmore)
    obtain ⟨hfile', hstart⟩ := hmore.inside hu
    exact ⟨hfile.trans hfile'.symm, hstart⟩

/-- The halves of shifts stand one after the other as well. -/
theorem InOrder.halved (h : InOrder x lo tokens) : InOrder x lo (halved tokens) := by
  induction tokens generalizing lo with
  | nil => exact h
  | cons t rest ih =>
    obtain ⟨hfile, hlo, hshift, hmore⟩ := h
    by_cases hkind : t.kind = .operator .rsh
    · rw [halved_cons_of_shift hkind]
      refine ⟨hfile, hlo, nofun, hfile, Nat.le_refl _, nofun, (ih hmore).mono ?_⟩
      exact hshift hkind
    · rw [halved_cons_of_ne hkind]
      exact ⟨hfile, hlo, hshift, ih hmore⟩

end InOrder

/-! ### Hulls -/

/-- A span starts where another one starts: in the same file, on the same line, at the same byte. -/
structure Span.StartsAs (s t : Span) : Prop where
  /-- The file is the same. -/
  file_eq : s.file = t.file
  /-- The line is the same. -/
  line_eq : s.line = t.line
  /-- The line begins at the same offset. -/
  lineStart_eq : s.lineStart = t.lineStart
  /-- The first byte is the same. -/
  start_eq : s.start = t.start

/-- The span goes from the start of the first of some tokens to the end of the last one. -/
structure Hull (tokens : List Token) (s : Span) : Prop where
  /-- It starts as the first token does. -/
  first : ∃ t ∈ tokens.head?, s.StartsAs t.span
  /-- It ends where the last token ends. -/
  last : ∃ t ∈ tokens.getLast?, s.stop = t.span.stop

theorem hull_singleton (t : Token) : Hull [t] t.span :=
  ⟨⟨t, rfl, rfl, rfl, rfl, rfl⟩, ⟨t, rfl, rfl⟩⟩

theorem Hull.ne_nil {tokens : List Token} {s : Span} (h : Hull tokens s) : tokens ≠ [] := by
  rintro rfl
  obtain ⟨t, ht, -⟩ := h.first
  cases ht

section Ordered

variable {used front back : List Token} {s s' : Span} {t u : Token}

theorem Ordered.of_part (h : Ordered used) (hfront : front <:+: used) : Ordered front :=
  h.sublist hfront.sublist

/-- The first token is the first in its file. -/
theorem Ordered.head_le (h : Ordered used) (ht : t ∈ used.head?) (hu : u ∈ used) :
    t.span.file = u.span.file ∧ t.span.start ≤ u.span.start := by
  obtain ⟨rest, rfl⟩ := List.head?_eq_some_iff.mp ht
  rcases List.mem_cons.mp hu with rfl | hu
  · exact ⟨rfl, Nat.le_refl _⟩
  · obtain ⟨hfile, hle⟩ := (List.pairwise_cons.mp h).1 u hu
    exact ⟨hfile, Nat.le_trans t.span.start_le_stop hle⟩

/-- The last token is the last to end. -/
theorem Ordered.le_last (h : Ordered used) (ht : t ∈ used.getLast?) (hu : u ∈ used) :
    u.span.stop ≤ t.span.stop := by
  obtain ⟨rest, rfl⟩ := List.getLast?_eq_some_iff.mp ht
  rcases List.mem_append.mp hu with hu | hu
  · have hle := ((List.pairwise_append.mp h).2.2 u hu t (List.mem_singleton_self t)).2
    exact Nat.le_trans hle t.span.start_le_stop
  · rw [List.mem_singleton.mp hu]

/-- What covers a hull at the front of some tokens and one at their end is the hull of all of
them.  The two may overlap. -/
theorem Hull.cover (hused : Ordered used) (h : Hull front s) (h' : Hull back s')
    (hfront : front <+: used) (hback : back <:+ used) : Hull used (s.cover s') := by
  obtain ⟨t, ht, hstarts⟩ := h.first
  obtain ⟨u, hu, hstop⟩ := h.last
  obtain ⟨t', ht', hstarts'⟩ := h'.first
  obtain ⟨u', hu', hstop'⟩ := h'.last
  have hfirst : t ∈ used.head? := by
    obtain ⟨more, rfl⟩ := hfront
    rw [List.head?_append, ht]
    rfl
  have hlast : u' ∈ used.getLast? := by
    obtain ⟨before, rfl⟩ := hback
    rw [List.getLast?_append, hu']
    rfl
  -- the first tokens of both say that they are of one file, and which one starts first
  obtain ⟨hfile, hstart⟩ := hused.head_le hfirst (hback.subset (List.mem_of_head? ht'))
  have hstops := hused.le_last hlast (hfront.subset (List.mem_of_getLast? hu))
  have hfiles : s.file = s'.file := by rw [hstarts.file_eq, hfile, hstarts'.file_eq]
  have hle : s.start ≤ s'.start := by rwa [hstarts.start_eq, hstarts'.start_eq]
  rw [Span.cover, Span.join, if_pos hfiles, if_pos hle, Option.getD_some]
  refine ⟨⟨t, hfirst, hstarts.file_eq, hstarts.line_eq, hstarts.lineStart_eq, hstarts.start_eq⟩,
    u', hlast, ?_⟩
  show max s.stop s'.stop = u'.span.stop
  rw [hstop, hstop', Nat.max_eq_right hstops]

end Ordered

/-! ### The tokens of a node -/

/-- Without its first token, the end of a file is an end of it still. -/
theorem suffix_of_cons {t : Token} {a file : List Token} (h : t :: a <:+ file) : a <:+ file :=
  (List.suffix_cons t a).trans h

/-- Some of the tokens of a file, up to its end, begin with tokens that spell some pieces.  The span
goes from the first of these to the last one, which is no semicolon. -/
structure Stands (file : List Token) (ps : List Piece) (s : Span) (a b : List Token) : Prop where
  /-- The tokens are those of the file from some place on. -/
  inside : a <:+ file
  /-- The pieces are spelled by them. -/
  spells : Spells ps a b
  /-- The span is that of the tokens that spell the pieces. -/
  hull : ∃ used, a = used ++ b ∧ Hull used s ∧
    ∀ t ∈ used.getLast?, t.kind ≠ .punctuation .semicolon

namespace Stands

variable {file a b c d : List Token} {ps ms qs : List Piece} {s s' : Span}

theorem rest (h : Stands file ps s a b) : b <:+ file := h.spells.suffix.trans h.inside

theorem of_pieces (h : Stands file ps s a b) (hps : ps = qs) : Stands file qs s a b := hps ▸ h

theorem token {t : Token} {kind : Kind} (ha : t :: b <:+ file) (ht : t.kind = kind)
    (hkind : kind ≠ .punctuation .semicolon) : Stands file [.kept t] t.span (t :: b) b := by
  refine ⟨ha, Spells.nil.kept, [t], rfl, hull_singleton t, ?_⟩
  rintro _ ⟨⟩
  exact ht ▸ hkind

/-- From the first to the last part of a node. -/
theorem cover (hfile : Ordered file) (h : Stands file ps s a b) (hmid : Spells ms b c)
    (h' : Stands file qs s' c d) : Stands file (ps ++ (ms ++ qs)) (s.cover s') a d := by
  refine ⟨h.inside, h.spells.append (hmid.append h'.spells), ?_⟩
  have hinside := h.inside
  obtain ⟨front, rfl, hfront, -⟩ := h.hull
  obtain ⟨mid, rfl⟩ := hmid.suffix
  obtain ⟨back, rfl, hback, hend⟩ := h'.hull
  have hlast : (front ++ (mid ++ back)).getLast? = back.getLast? := by
    obtain ⟨t, ht, -⟩ := hback.last
    rw [List.getLast?_append, List.getLast?_append, ht]
    rfl
  have hused : front ++ (mid ++ back) <:+: file := by
    refine List.IsInfix.trans ⟨[], d, ?_⟩ hinside.isInfix
    simp
  refine ⟨front ++ (mid ++ back), by simp, ?_, hlast ▸ hend⟩
  apply hfront.cover (hfile.of_part hused) hback (List.prefix_append ..)
  exact (List.suffix_append ..).trans (List.suffix_append ..)

/-- The first part of a node adds nothing to the node. -/
theorem cover_front (hfile : Ordered file) (h : Stands file ps s a b)
    (h' : Stands file qs s' a c) (hc : c <:+ b) : Stands file qs (s.cover s') a c := by
  refine ⟨h'.inside, h'.spells, ?_⟩
  have hinside := h'.inside
  obtain ⟨front, hab, hfront, -⟩ := h.hull
  obtain ⟨used, rfl, hused, hend⟩ := h'.hull
  obtain ⟨more, rfl⟩ := hc
  have hfrontUsed : front <+: used := by
    rw [← List.append_assoc, List.append_cancel_right_eq] at hab
    exact ⟨more, hab.symm⟩
  have hordered := hfile.of_part ((List.prefix_append used c).isInfix.trans hinside.isInfix)
  exact ⟨used, rfl, hfront.cover hordered hused hfrontUsed List.suffix_rfl, hend⟩

end Stands

/-! ### The tokens of a text -/

/-- The tokens of a text are in order. -/
theorem Frontend.inOrder_withoutEnd (file text : String) :
    InOrder ⟨file, Text.byteLength text.toList⟩ 0 (lex file text).1.withoutEnd := by
  have hwithout : (lex file text).1.withoutEnd = (Lexer.ofText file text).collect.1 :=
    Lexer.withoutEnd_tokenize _
  rw [hwithout]
  exact (Lexer.inOrder_collect (Lexer.at_ofText file text) rfl).of_append

end CurlyScript
