import Mathlib.Data.List.Basic
import Mathlib.Data.List.TakeDrop
import Mathlib.Data.List.TakeWhile
import CurlyScript.Grammar.Cursor

/-!
# Where a cursor can go

A reader moves its cursor in three ways only: past a token, past the first half of a shift that
it splits, and back to a checkpoint.  Going back is well nested: a checkpoint is used to return
to the place where it was taken, after the moves that were tried from there.

## Main definitions

* `Cursor.Reaches` — one cursor is reached from another by such moves.
* `Cursor.undoAll`, `Cursor.UndoInBounds` — undoing splits, and that it stays inside the tokens.
* `Cursor.Placed` — no end of a file is behind the cursor or ahead of it, and one stands where
  the tokens ahead end.
* `Cursor.Sound` — the cursor stands inside the tokens, not past their first end, and the last
  token is an end.

## Main results

* `Cursor.Reaches.restore_eq` — going back leaves no trace.
* `Cursor.Reaches.remaining_le` — there is never more left to read than before.
* `Cursor.sound_of_reaches` — whatever is reached from the start of some tokens is sound.
-/

namespace CurlyScript
namespace Cursor

/-! ### Moves -/

/-- The second cursor is reached from the first one. -/
inductive Reaches : Cursor → Cursor → Prop
  /-- No move. -/
  | refl (c : Cursor) : Reaches c c
  /-- Past one more token. -/
  | advance {c d : Cursor} (h : Reaches c d) : Reaches c d.advance
  /-- Past the first half of a shift. -/
  | splitShift {c d : Cursor} (h : Reaches c d) : Reaches c d.splitShift
  /-- Further moves, all of which are taken back. -/
  | attempt {c d e : Cursor} (h : Reaches c d) (tried : Reaches d e) :
    Reaches c (e.restore d.checkpoint)

/-- All tokens before the first end, as they stand now. -/
def body (c : Cursor) : List Token := c.behind.reverse ++ c.ahead

theorem tokens_eq_body (c : Cursor) : c.tokens = c.body ++ c.stop :: c.beyond := rfl

/-- The tokens before some splits, the first of them being the latest. -/
def undoAll (splits : List Split) (tokens : List Token) : List Token :=
  splits.foldl (fun tokens s => s.undo tokens) tokens

/-- Each split of some is undone at a place that the tokens have by then. -/
def UndoInBounds : List Split → List Token → Prop
  | [], _ => True
  | s :: older, tokens => s.position + 1 < tokens.length ∧ UndoInBounds older (s.undo tokens)

@[simp] theorem undoAll_nil (tokens : List Token) : undoAll [] tokens = tokens := rfl

@[simp] theorem undoAll_cons (s : Split) (splits : List Split) (tokens : List Token) :
    undoAll (s :: splits) tokens = undoAll splits (s.undo tokens) := rfl

theorem undoAll_append (later older : List Split) (tokens : List Token) :
    undoAll (later ++ older) tokens = undoAll older (undoAll later tokens) := by
  simp [undoAll]

theorem restore_eq (c : Cursor) (k : Checkpoint) :
    c.restore k =
      { c with
        behind := ((undoAll (c.splits.take (c.splits.length - k.splits)) c.body).take
          k.position).reverse
        ahead := (undoAll (c.splits.take (c.splits.length - k.splits)) c.body).drop k.position
        splits := c.splits.drop (c.splits.length - k.splits) } := rfl

/-! ### One move -/

@[simp] theorem body_advance (c : Cursor) : c.advance.body = c.body := by
  unfold advance body
  split <;> simp_all

@[simp] theorem stop_advance (c : Cursor) : c.advance.stop = c.stop := by
  unfold advance
  split <;> rfl

@[simp] theorem beyond_advance (c : Cursor) : c.advance.beyond = c.beyond := by
  unfold advance
  split <;> rfl

@[simp] theorem splits_advance (c : Cursor) : c.advance.splits = c.splits := by
  unfold advance
  split <;> rfl

@[simp] theorem stop_splitShift (c : Cursor) : c.splitShift.stop = c.stop := by
  unfold splitShift
  split
  · rfl
  · split <;> rfl

@[simp] theorem beyond_splitShift (c : Cursor) : c.splitShift.beyond = c.beyond := by
  unfold splitShift
  split
  · rfl
  · split <;> rfl

/-- Undoing a split right where two tokens stand puts one in their place. -/
theorem undo_append (front back : List Token) (a b whole : Token) :
    (⟨front.length, whole⟩ : Split).undo (front ++ a :: b :: back) = front ++ whole :: back := by
  have htake : (front ++ a :: b :: back).take front.length = front := by simp
  have hdrop : (front ++ a :: b :: back).drop (front.length + 2) = back := by
    rw [← List.drop_drop, List.drop_left]
    rfl
  rw [Split.undo, htake, hdrop]

/-- A split is there to be undone, or the cursor has stayed. -/
theorem splitShift_cases (c : Cursor) :
    c.splitShift = c ∨ ∃ t rest, c.ahead = t :: rest ∧ t.kind = .operator .rsh ∧
      c.splitShift =
        { c with
          behind := halfShift t 0 :: c.behind
          ahead := halfShift t 1 :: rest
          splits := ⟨c.position, t⟩ :: c.splits } := by
  rcases h : c.ahead with _ | ⟨t, rest⟩
  · left
    simp [splitShift, h]
  · by_cases hkind : t.kind = .operator .rsh
    · right
      exact ⟨t, rest, rfl, hkind, by simp [splitShift, h, hkind]⟩
    · left
      simp [splitShift, h, hkind]

/-- What a split adds to the history, and that undoing it gives the old tokens. -/
theorem exists_undo_splitShift (c : Cursor) :
    ∃ made, c.splitShift.splits = made ++ c.splits ∧ undoAll made c.splitShift.body = c.body ∧
      (∀ older, UndoInBounds older c.body → UndoInBounds (made ++ older) c.splitShift.body) := by
  rcases splitShift_cases c with h | ⟨t, rest, hahead, -, h⟩
  · exact ⟨[], by simp [h], by simp [h], fun older hold => by simpa [h] using hold⟩
  · have hundo : (⟨c.position, t⟩ : Split).undo c.splitShift.body = c.body := by
      have hfront : c.position = c.behind.reverse.length := by simp [position]
      have hbody : c.splitShift.body =
          c.behind.reverse ++ halfShift t 0 :: halfShift t 1 :: rest := by
        simp [h, body]
      rw [hbody, hfront, undo_append, body, hahead]
    refine ⟨[⟨c.position, t⟩], by simp [h], by simpa using hundo, fun older hold => ?_⟩
    refine ⟨?_, by rw [hundo]; exact hold⟩
    simp only [h, body, position, List.reverse_cons, List.append_assoc, List.length_append,
      List.length_reverse, List.length_cons]
    omega

/-! ### Going back -/

/-- A restored cursor is the cursor at the checkpoint, if undoing the splits since then gives
the tokens of that time. -/
theorem restore_checkpoint_of_undo {c d : Cursor} {made : List Split}
    (hsplits : d.splits = made ++ c.splits) (hundo : undoAll made d.body = c.body)
    (hstop : d.stop = c.stop) (hbeyond : d.beyond = c.beyond) : d.restore c.checkpoint = c := by
  have hmade : d.splits.length - c.checkpoint.splits = made.length := by
    simp [hsplits, checkpoint]
  have htake : d.splits.take made.length = made := by simp [hsplits]
  have hdrop : d.splits.drop made.length = c.splits := by simp [hsplits]
  have hfront : c.body.take c.checkpoint.position = c.behind.reverse := by
    simp [body, checkpoint, position]
  have hback : c.body.drop c.checkpoint.position = c.ahead := by
    have : c.checkpoint.position = c.behind.reverse.length := by simp [checkpoint, position]
    rw [this, body, List.drop_left]
  rw [restore_eq, hmade, htake, hdrop, hundo, hfront, hback, hstop, hbeyond,
    List.reverse_reverse]

namespace Reaches

/-- Whatever has been reached, undoing the splits since then gives the old tokens. -/
theorem exists_undo {c d : Cursor} (h : Reaches c d) :
    ∃ made, d.splits = made ++ c.splits ∧ undoAll made d.body = c.body ∧ d.stop = c.stop ∧
      d.beyond = c.beyond ∧
      (∀ older, UndoInBounds older c.body → UndoInBounds (made ++ older) d.body) := by
  induction h with
  | refl c => exact ⟨[], rfl, rfl, rfl, rfl, fun _ hold => hold⟩
  | advance h ih => simpa using ih
  | @splitShift c d h ih =>
    obtain ⟨made, hsplits, hundo, hstop, hbeyond, hbound⟩ := ih
    obtain ⟨more, hmore, hback, hin⟩ := exists_undo_splitShift d
    refine ⟨more ++ made, by rw [hmore, hsplits, List.append_assoc], ?_, by simpa using hstop,
      by simpa using hbeyond, fun older hold => ?_⟩
    · rw [undoAll_append, hback, hundo]
    · rw [List.append_assoc]
      exact hin _ (hbound older hold)
  | @attempt c d e h tried ih ihTried =>
    obtain ⟨made, hsplits, hundo, hstop, hbeyond, -⟩ := ihTried
    rw [restore_checkpoint_of_undo hsplits hundo hstop hbeyond]
    exact ih

/-- **Going back leaves no trace.**  Whatever is tried from a checkpoint on, restoring it gives
the cursor that took it. -/
theorem restore_eq {c d : Cursor} (h : Reaches c d) : d.restore c.checkpoint = c := by
  obtain ⟨made, hsplits, hundo, hstop, hbeyond, -⟩ := h.exists_undo
  exact restore_checkpoint_of_undo hsplits hundo hstop hbeyond

theorem trans {c d e : Cursor} (h : Reaches c d) (h' : Reaches d e) : Reaches c e := by
  induction h' with
  | refl => exact h
  | advance _ ih => exact (ih h).advance
  | splitShift _ ih => exact (ih h).splitShift
  | attempt _ tried ih _ => exact (ih h).attempt tried

end Reaches

/-! ### Skipping -/

/-- Moving past some tokens at once. -/
theorem reaches_take (c : Cursor) (count : Nat) :
    Reaches c
      { c with
        behind := (c.ahead.take count).reverse ++ c.behind
        ahead := c.ahead.drop count } := by
  induction count generalizing c with
  | zero => exact .refl c
  | succ count ih =>
    rcases h : c.ahead with _ | ⟨t, rest⟩
    · have hsame : c = { c with behind := c.behind, ahead := [] } := by rw [← h]
      simpa [← hsame] using Reaches.refl c
    · have hstep : c.advance = { c with behind := t :: c.behind, ahead := rest } := by
        simp [Cursor.advance, h]
      have hrest := (Reaches.refl c).advance.trans (ih c.advance)
      simpa [hstep] using hrest

/-- Skipping begins with one token. -/
theorem reaches_skip (c : Cursor) (stopAt : Token → Bool) :
    Reaches c.advance (c.skipTo stopAt) := by
  have hmove := reaches_take c.advance (c.advance.ahead.takeWhile fun t => !stopAt t).length
  have htake : c.advance.ahead.take (c.advance.ahead.takeWhile fun t => !stopAt t).length =
      c.advance.ahead.takeWhile fun t => !stopAt t :=
    List.prefix_iff_eq_take.mp (List.takeWhile_prefix _) |>.symm
  rw [htake] at hmove
  exact hmove

theorem reaches_skipTo (c : Cursor) (stopAt : Token → Bool) : Reaches c (c.skipTo stopAt) :=
  (Reaches.refl c).advance.trans (reaches_skip c stopAt)

/-! ### How much is left -/

@[simp] theorem totalWeight_nil : totalWeight [] = 0 := rfl

@[simp] theorem totalWeight_cons (t : Token) (rest : List Token) :
    totalWeight (t :: rest) = weight t + totalWeight rest := rfl

theorem weight_pos (t : Token) : 0 < weight t := by
  unfold weight
  split <;> omega

@[simp] theorem weight_halfShift (t : Token) (skip : Nat) : weight (halfShift t skip) = 1 := rfl

theorem remaining_splitShift_le (c : Cursor) : c.splitShift.remaining ≤ c.remaining := by
  rcases splitShift_cases c with h | ⟨t, rest, hahead, hkind, h⟩
  · exact Nat.le_of_eq (by rw [h])
  · have hhalf : weight (halfShift t 1) = 1 := rfl
    have hwhole : weight t = 2 := by simp [weight, hkind]
    simp only [h, remaining, hahead, totalWeight, hhalf, hwhole]
    omega

/-- There is never more left to read than before. -/
theorem Reaches.remaining_le {c d : Cursor} (h : Reaches c d) : d.remaining ≤ c.remaining := by
  induction h with
  | refl => exact Nat.le_refl _
  | advance _ ih => exact Nat.le_trans (remaining_advance_le _) ih
  | splitShift _ ih => exact Nat.le_trans (remaining_splitShift_le _) ih
  | attempt _ tried ih _ =>
    rw [tried.restore_eq]
    exact ih

/-! ### Staying before the end -/

/-- No token behind or ahead is the end of a file, and the end is one. -/
structure Placed (c : Cursor) : Prop where
  /-- The token after those ahead is an end. -/
  stop_isEnd : c.stop.isEnd = true
  /-- No token before it is one. -/
  body_not_isEnd : ∀ t ∈ c.body, t.isEnd = false

theorem Placed.ahead_not_isEnd {c : Cursor} (h : c.Placed) {t : Token} (ht : t ∈ c.ahead) :
    t.isEnd = false :=
  h.body_not_isEnd t (List.mem_append_right _ ht)

theorem Placed.splitShift {c : Cursor} (h : c.Placed) : c.splitShift.Placed := by
  rcases splitShift_cases c with hc | ⟨t, rest, hahead, -, hc⟩
  · rwa [hc]
  · refine ⟨by simpa using h.stop_isEnd, fun u hu => ?_⟩
    simp only [hc, body, List.reverse_cons, List.append_assoc, List.mem_append, List.mem_reverse,
      List.mem_cons, List.not_mem_nil, or_false] at hu
    rcases hu with hu | rfl | rfl | hu
    · exact h.body_not_isEnd u (List.mem_append_left _ (List.mem_reverse.mpr hu))
    · rfl
    · rfl
    · exact h.ahead_not_isEnd (by rw [hahead]; exact List.mem_cons_of_mem _ hu)

theorem Placed.reaches {c d : Cursor} (h : c.Placed) (hd : Reaches c d) : d.Placed := by
  induction hd with
  | refl => exact h
  | advance _ ih =>
    have hp := ih h
    exact ⟨by simpa using hp.stop_isEnd, by simpa using hp.body_not_isEnd⟩
  | splitShift _ ih => exact (ih h).splitShift
  | attempt _ tried ih _ =>
    rw [tried.restore_eq]
    exact ih h

/-- The cursor is one that can be reached from another one, before the end. -/
structure From (c d : Cursor) : Prop where
  /-- It is before the end. -/
  placed : c.Placed
  /-- It is reached. -/
  reaches : d.Reaches c

theorem Placed.from_self {c : Cursor} (h : c.Placed) : c.From c := ⟨h, .refl c⟩

theorem From.trans {c d e : Cursor} (h : d.From c) (h' : d.Reaches e) : e.From c :=
  ⟨h.placed.reaches h', h.reaches.trans h'⟩

/-! ### Soundness -/

/-- A cursor that stands inside its tokens, before or at their first end, with a history that
can be undone inside them. -/
structure Sound (c : Cursor) : Prop where
  /-- There is a token at the place of the cursor. -/
  position_lt : c.position < c.tokens.length
  /-- The last token is an end. -/
  last_isEnd : ∃ t, c.tokens.getLast? = some t ∧ t.isEnd = true
  /-- No end is behind the cursor. -/
  position_le_findIdx : c.position ≤ c.tokens.findIdx Token.isEnd
  /-- Every split can be undone in turn. -/
  undo_inBounds : UndoInBounds c.splits c.tokens

theorem findIdx_isEnd {c : Cursor} (h : c.Placed) :
    c.tokens.findIdx Token.isEnd = c.body.length := by
  rw [tokens_eq_body, List.findIdx_append]
  have hbody : c.body.findIdx Token.isEnd = c.body.length := by
    rw [List.findIdx_eq_length]
    exact h.body_not_isEnd
  rw [hbody, if_neg (Nat.lt_irrefl _), List.findIdx_cons, h.stop_isEnd, cond_true, Nat.zero_add]

theorem length_tokens (c : Cursor) : c.tokens.length = c.body.length + 1 + c.beyond.length := by
  rw [tokens_eq_body]
  simp
  omega

theorem position_le_length_body (c : Cursor) : c.position ≤ c.body.length := by
  simp [body, position]

/-- Undoing a split inside some tokens does not touch what comes after them. -/
theorem undo_append_right {s : Split} {tokens : List Token} (more : List Token)
    (h : s.position + 1 < tokens.length) : s.undo (tokens ++ more) = s.undo tokens ++ more := by
  rw [Split.undo, Split.undo, List.take_append_of_le_length (by omega),
    List.drop_append_of_le_length (by omega)]
  simp

theorem UndoInBounds.append {splits : List Split} {tokens : List Token} (more : List Token)
    (h : UndoInBounds splits tokens) : UndoInBounds splits (tokens ++ more) := by
  induction splits generalizing tokens with
  | nil => trivial
  | cons s splits ih =>
    obtain ⟨hlt, hrest⟩ := h
    refine ⟨by simp; omega, ?_⟩
    rw [undo_append_right more hlt]
    exact ih hrest

theorem UndoInBounds.undoAll_append {splits : List Split} {tokens : List Token}
    (more : List Token) (h : UndoInBounds splits tokens) :
    undoAll splits (tokens ++ more) = undoAll splits tokens ++ more := by
  induction splits generalizing tokens with
  | nil => rfl
  | cons s splits ih =>
    obtain ⟨hlt, hrest⟩ := h
    rw [undoAll_cons, undoAll_cons, undo_append_right more hlt, ih hrest]

theorem getLast?_withEnd (tokens : List Token) :
    ∃ t, (withEnd tokens).getLast? = some t ∧ t.isEnd = true := by
  unfold withEnd
  split
  · next h =>
    rcases hlast : tokens.getLast? with _ | t
    · simp [hlast] at h
    · exact ⟨t, rfl, by simpa [hlast] using h⟩
  · refine ⟨missingEnd tokens, by simp, ?_⟩
    unfold missingEnd
    split <;> rfl

/-- The tokens before the first end of some, and the rest. -/
theorem span_withEnd (tokens : List Token) :
    ∃ ahead stop beyond, (withEnd tokens).span (fun t => !t.isEnd) = (ahead, stop :: beyond) ∧
      withEnd tokens = ahead ++ stop :: beyond ∧ stop.isEnd = true ∧
      ∀ t ∈ ahead, t.isEnd = false := by
  obtain ⟨last, hlast, hend⟩ := getLast?_withEnd tokens
  have hmem : last ∈ withEnd tokens := List.mem_of_getLast? hlast
  have hspan := List.span_eq_takeWhile_dropWhile (fun t : Token => !t.isEnd) (withEnd tokens)
  have hsplit := List.takeWhile_append_dropWhile (p := fun t : Token => !t.isEnd)
    (l := withEnd tokens)
  rcases hdrop : (withEnd tokens).dropWhile fun t => !t.isEnd with _ | ⟨stop, beyond⟩
  · have hall := List.dropWhile_eq_nil_iff.mp hdrop last hmem
    simp [hend] at hall
  · refine ⟨_, stop, beyond, by rw [hspan, hdrop], by rw [← hdrop, hsplit], ?_, fun t ht => ?_⟩
    · have hhead := List.head?_dropWhile_not (fun t : Token => !t.isEnd) (withEnd tokens)
      rw [hdrop] at hhead
      simpa using hhead
    · have := List.mem_takeWhile_imp ht
      simpa using this

/-- A cursor before the first of some tokens holds these tokens, and an end at their end. -/
theorem ofTokens_spec (tokens : List Token) :
    (ofTokens tokens).Placed ∧ (ofTokens tokens).tokens = withEnd tokens ∧
      (ofTokens tokens).position = 0 ∧ (ofTokens tokens).splits = [] := by
  obtain ⟨ahead, stop, beyond, hspan, htokens, hstop, hahead⟩ := span_withEnd tokens
  have heq : ofTokens tokens = { behind := [], ahead, stop, beyond, splits := [] } := by
    simp only [ofTokens, hspan]
  refine ⟨⟨by rw [heq]; exact hstop, ?_⟩, ?_, ?_, ?_⟩
  · rw [heq]
    simpa [body] using hahead
  · rw [heq, htokens]
    rfl
  · rw [heq]
    rfl
  · rw [heq]

/-- A cursor before tokens without an end, and before any number of ends after them. -/
theorem ofTokens_append_ends {body ends : List Token} (hbody : ∀ t ∈ body, t.isEnd = false)
    (hends : ∀ t ∈ ends, t.isEnd = true) :
    ofTokens (body ++ ends) =
      { behind := [], ahead := body, stop := ends.headD (missingEnd body), beyond := ends.tail
        splits := [] } := by
  have hwith : withEnd (body ++ ends) = body ++ ends.headD (missingEnd body) :: ends.tail := by
    rcases ends with _ | ⟨stop, beyond⟩
    · have hlast : ¬ ((body.getLast?.map Token.isEnd).getD false = true) := by
        rcases hlast : body.getLast? with _ | last
        · simp
        · simpa using hbody last (List.mem_of_getLast? hlast)
      rw [List.append_nil, withEnd, if_neg hlast]
      rfl
    · have hlast := hends _ (List.getLast_mem (List.cons_ne_nil stop beyond))
      rw [withEnd, if_pos (by simpa [List.getLast?_eq_some_getLast] using hlast)]
      rfl
  have hstop : (ends.headD (missingEnd body)).isEnd = true := by
    rcases ends with _ | ⟨stop, beyond⟩
    · unfold missingEnd
      split <;> rfl
    · exact hends stop List.mem_cons_self
  have hspan : (withEnd (body ++ ends)).span (fun t => !t.isEnd) =
      (body, ends.headD (missingEnd body) :: ends.tail) := by
    rw [hwith, List.span_eq_takeWhile_dropWhile,
      List.takeWhile_append_of_pos (by simpa using hbody),
      List.dropWhile_append_of_pos (by simpa using hbody),
      List.takeWhile_cons_of_neg (by simp only [hstop, Bool.not_true]; exact Bool.false_ne_true),
      List.dropWhile_cons_of_neg (by simp only [hstop, Bool.not_true]; exact Bool.false_ne_true),
      List.append_nil]
  simp only [ofTokens, hspan]

/-- **Whatever is reached from the start of some tokens is sound.** -/
theorem sound_of_reaches {tokens : List Token} {c : Cursor} (h : Reaches (ofTokens tokens) c) :
    c.Sound := by
  obtain ⟨hplaced, htokens, -, hsplits⟩ := ofTokens_spec tokens
  obtain ⟨made, hmade, -, hstop, hbeyond, hbound⟩ := h.exists_undo
  have hp := hplaced.reaches h
  obtain ⟨last, hlast, hend⟩ := getLast?_withEnd tokens
  refine ⟨?_, ⟨last, ?_, hend⟩, ?_, ?_⟩
  · have hle := position_le_length_body c
    have hlen := length_tokens c
    omega
  · -- the end and what follows it are those of the start
    rw [← htokens, tokens_eq_body, List.getLast?_append_of_ne_nil _ (by simp)] at hlast
    rw [tokens_eq_body, List.getLast?_append_of_ne_nil _ (by simp), hstop, hbeyond]
    exact hlast
  · rw [findIdx_isEnd hp]
    exact position_le_length_body c
  · have hall := hbound [] trivial
    rw [List.append_nil] at hall
    rw [hmade, hsplits, List.append_nil, tokens_eq_body]
    exact hall.append _

end Cursor
end CurlyScript
