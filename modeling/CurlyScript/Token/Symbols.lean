import CurlyScript.Token.Kind

/-!
# The tables of symbols and reserved words

The symbols of the language are its operators and its punctuation.  A lexer looks them up by
their spelling, and asks of a spelling whether some symbol begins with it.

## Main definitions

* `Symbol.table` — every symbol with its kind, operators first.
* `Symbol.kind?` — the symbol with exactly a given spelling.
* `Symbol.isStart` — whether a text begins some symbol.
* `Symbol.longestFirst` — the table with longer spellings before shorter ones.
* `Keyword.ofWord?` — the reserved word with a given spelling.

## References

`SPEC_FULL.md`, section 4.2, steps 2 and 4, and section E6, item 1.
-/

namespace CurlyScript

namespace Symbol

/-- Every symbol with its kind. -/
def table : List (String × Kind) :=
  Operator.all.map (fun op => (op.lexeme, .operator op)) ++
    Punctuation.all.map (fun mark => (mark.lexeme, .punctuation mark))

/-- The kind of the symbol that is spelled exactly so. -/
def kind? (spelling : List Char) : Option Kind :=
  (table.find? fun entry => entry.1.toList == spelling).map Prod.snd

/-- Whether a text is the beginning of some symbol, or all of it.  The empty text counts as
the beginning of none. -/
def isStart (text : List Char) : Bool :=
  !text.isEmpty && table.any fun entry => text.isPrefixOf entry.1.toList

/-- The order of the listing: longer spellings first, then by spelling. -/
def listedBefore (a b : String × Kind) : Bool :=
  b.1.length < a.1.length || (a.1.length == b.1.length && a.1 ≤ b.1)

/-- Every symbol with its kind, longer spellings first. -/
def longestFirst : List (String × Kind) := table.mergeSort listedBefore

end Symbol

/-- The reserved word that is spelled exactly so. -/
def Keyword.ofWord? (word : String) : Option Keyword :=
  Keyword.all.find? fun candidate => candidate.lexeme == word

end CurlyScript
