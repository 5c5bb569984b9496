import CurlyScript.Token.Basic

/-!
# Cursors

A cursor stands between the tokens that have been read and those that have not.  It never
moves past the first token for the end of a file.  A shift `>>` that closes two angle brackets
at once is split in the token list itself; the splits are remembered, so that a cursor can go
back to an earlier place and leave no trace.

## Main definitions

* `Cursor` — the tokens behind, the tokens ahead, the end, and the splits that were made.
* `Cursor.ofTokens` — a cursor before the first token.
* `Cursor.tokens` — all tokens, as they stand now.
* `Cursor.remaining` — how much is left to read, a shift counting for two.
* `Cursor.advance`, `Cursor.splitShift` — the two ways forward.
* `Cursor.checkpoint`, `Cursor.restore` — the way back.

## References

`SPEC_FULL.md`, section 4.3, and section E6, item 7, for shifts.
-/

namespace CurlyScript

/-! ### Splits -/

/-- A shift that was replaced by two closing angle brackets. -/
structure Split where
  /-- The place of the first bracket in the list of tokens. -/
  position : Nat
  /-- The shift. -/
  whole : Token

/-- The list of tokens before a split. -/
def Split.undo (s : Split) (tokens : List Token) : List Token :=
  tokens.take s.position ++ s.whole :: tokens.drop (s.position + 2)

/-- Half of a shift, a closing angle bracket: `skip` is zero or one byte from the start of the
shift. -/
def halfShift (shift : Token) (skip : Nat) : Token :=
  { kind := .operator .greater
    lexeme := ">"
    span :=
      { shift.span with
        start := shift.span.start + skip
        stop := shift.span.start + skip + 1
        lineStart_le_start := Nat.le_trans shift.span.lineStart_le_start (Nat.le_add_right ..)
        start_le_stop := Nat.le_add_right .. } }

/-! ### Cursors -/

/-- A place in a list of tokens. -/
structure Cursor where
  /-- The tokens that have been read, the latest first. -/
  behind : List Token
  /-- The tokens to be read, up to the end. -/
  ahead : List Token
  /-- The first token for the end of a file. -/
  stop : Token
  /-- What follows the end.  It is never read. -/
  beyond : List Token
  /-- The splits that stand, the latest first. -/
  splits : List Split

/-- The end of a list of tokens that has none. -/
def missingEnd (tokens : List Token) : Token :=
  match tokens.getLast? with
  | some last => .endOfFile last.span.atEnd
  | none => .endOfFile (.atOrigin "<empty>")

/-- A list of tokens with an end in its last place. -/
def withEnd (tokens : List Token) : List Token :=
  if (tokens.getLast?.map Token.isEnd).getD false then tokens else tokens ++ [missingEnd tokens]

/-- Where an earlier place of a cursor is remembered. -/
structure Checkpoint where
  /-- How many tokens had been read. -/
  position : Nat
  /-- How many splits stood. -/
  splits : Nat

namespace Cursor

/-- A cursor before the first of some tokens. -/
def ofTokens (tokens : List Token) : Cursor :=
  match (withEnd tokens).span fun t => !t.isEnd with
  | (ahead, stop :: beyond) => { behind := [], ahead, stop, beyond, splits := [] }
  | (ahead, []) => { behind := [], ahead, stop := missingEnd tokens, beyond := [], splits := [] }

/-- All tokens, as they stand now. -/
def tokens (c : Cursor) : List Token := c.behind.reverse ++ c.ahead ++ c.stop :: c.beyond

/-- How many tokens have been read. -/
def position (c : Cursor) : Nat := c.behind.length

/-- Whether the end has been reached. -/
def atEnd (c : Cursor) : Bool := c.ahead.isEmpty

/-- The next token, which may be the end. -/
def here (c : Cursor) : Token := c.ahead.headD c.stop

/-- The token after the next one, or the end. -/
def second (c : Cursor) : Token := c.ahead.tail.headD c.stop

/-- What a token counts for in what is left to read. -/
def weight (t : Token) : Nat := if t.kind = .operator .rsh then 2 else 1

/-- What some tokens count for together. -/
def totalWeight : List Token → Nat
  | [] => 0
  | t :: rest => weight t + totalWeight rest

/-- How much is left to read.  A shift counts for two, as it may have to be split. -/
def remaining (c : Cursor) : Nat := totalWeight c.ahead

/-- A cursor past the next token.  At the end it stays. -/
def advance (c : Cursor) : Cursor :=
  match c.ahead with
  | [] => c
  | t :: rest => { c with behind := t :: c.behind, ahead := rest }

/-- A cursor past the first half of the shift that is next, which is split.  Before any other
token it stays. -/
def splitShift (c : Cursor) : Cursor :=
  match c.ahead with
  | [] => c
  | t :: rest =>
    if t.kind = .operator .rsh then
      { c with
        behind := halfShift t 0 :: c.behind
        ahead := halfShift t 1 :: rest
        splits := ⟨c.position, t⟩ :: c.splits }
    else c

/-- A cursor past at least one token and before the first one after it that `stopAt` accepts,
or at the end. -/
def skipTo (c : Cursor) (stopAt : Token → Bool) : Cursor :=
  let c := c.advance
  let skipped := c.ahead.takeWhile fun t => !stopAt t
  { c with behind := skipped.reverse ++ c.behind, ahead := c.ahead.drop skipped.length }

/-! ### Going back -/

/-- The place of a cursor. -/
def checkpoint (c : Cursor) : Checkpoint := ⟨c.position, c.splits.length⟩

/-- The cursor at an earlier place.  The splits that were made since then are undone, the latest
first. -/
def restore (c : Cursor) (k : Checkpoint) : Cursor :=
  let made := c.splits.length - k.splits
  let tokens := (c.splits.take made).foldl (fun tokens s => s.undo tokens)
    (c.behind.reverse ++ c.ahead)
  { c with
    behind := (tokens.take k.position).reverse
    ahead := tokens.drop k.position
    splits := c.splits.drop made }

/-! ### Small facts -/

@[simp] theorem remaining_eq_zero_iff (c : Cursor) : c.remaining = 0 ↔ c.atEnd = true := by
  unfold remaining atEnd
  cases c.ahead with
  | nil => simp [totalWeight]
  | cons t rest =>
    simp only [totalWeight, List.isEmpty_cons, Bool.false_eq_true, iff_false]
    unfold weight
    split <;> omega

theorem remaining_advance_le (c : Cursor) : c.advance.remaining ≤ c.remaining := by
  unfold advance remaining
  split <;> simp_all [totalWeight]

theorem tokens_advance (c : Cursor) : c.advance.tokens = c.tokens := by
  unfold advance tokens
  split <;> simp_all

end Cursor
end CurlyScript
