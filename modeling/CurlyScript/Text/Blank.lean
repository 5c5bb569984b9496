/-!
# Blank characters

The characters a lexer skips between tokens: those with the Unicode property
`White_Space`.

## Main definitions

* `Text.blankRanges` — the property as closed ranges of code points, in increasing order.
* `Text.isBlank` — membership of a character in one of them.
-/

namespace CurlyScript
namespace Text

/-- Whether a code point lies in one of the closed ranges of a table. -/
def inRanges (table : List (Nat × Nat)) (code : Nat) : Bool :=
  table.any fun range => range.1 ≤ code && code ≤ range.2

@[simp] theorem inRanges_nil (code : Nat) : inRanges [] code = false := rfl

@[simp] theorem inRanges_cons (range : Nat × Nat) (table : List (Nat × Nat)) (code : Nat) :
    inRanges (range :: table) code =
      ((decide (range.1 ≤ code) && decide (code ≤ range.2)) || inRanges table code) := rfl

/-- The code points with the property `White_Space`. -/
def blankRanges : List (Nat × Nat) :=
  [(0x9, 0xD), (0x20, 0x20), (0x85, 0x85), (0xA0, 0xA0), (0x1680, 0x1680), (0x2000, 0x200A),
    (0x2028, 0x2029), (0x202F, 0x202F), (0x205F, 0x205F), (0x3000, 0x3000)]

/-- Whether a character may stand between two tokens. -/
def isBlank (c : Char) : Bool := inRanges blankRanges c.toNat

@[simp] theorem isBlank_space : isBlank ' ' = true := rfl

@[simp] theorem isBlank_newline : isBlank '\n' = true := rfl

end Text
end CurlyScript
