/-!
# Texts measured in UTF-8 bytes

Offsets into a source text count the bytes of its UTF-8 form, while the text
itself is a list of characters.  This module holds the passage between the two,
and the reading of bytes that need not be well formed.

## Main definitions

* `Text.byteLength` — the bytes a list of characters takes.
* `Text.dropBytes?` — the text from a byte offset on, if a character starts there.
* `Text.takeBytes` — the text up to a byte offset.
* `Text.encode` — the bytes of a text.
* `Text.decode` — characters from bytes, every ill-formed stretch becoming one U+FFFD.

## References

`SPEC_FULL.md`, section 3 for offsets in bytes and section E7 for malformed input.
-/

namespace CurlyScript
namespace Text

/-! ### Lengths and offsets -/

/-- The number of bytes a text takes. -/
def byteLength : List Char → Nat
  | [] => 0
  | c :: cs => c.utf8Size + byteLength cs

@[simp] theorem byteLength_nil : byteLength [] = 0 := rfl

@[simp] theorem byteLength_cons (c : Char) (cs : List Char) :
    byteLength (c :: cs) = c.utf8Size + byteLength cs := rfl

@[simp] theorem byteLength_append (as bs : List Char) :
    byteLength (as ++ bs) = byteLength as + byteLength bs := by
  induction as with
  | nil => simp
  | cons c cs ih => simp [ih, Nat.add_assoc]

theorem length_le_byteLength (cs : List Char) : cs.length ≤ byteLength cs := by
  induction cs with
  | nil => simp
  | cons c cs ih =>
    have := Char.utf8Size_pos c
    simp only [List.length_cons, byteLength_cons]
    omega

/-- The text that begins at byte `n`, or `none` when `n` is past the end or inside a
character. -/
def dropBytes? : Nat → List Char → Option (List Char)
  | 0, cs => some cs
  | _ + 1, [] => none
  | n + 1, c :: cs => if c.utf8Size ≤ n + 1 then dropBytes? (n + 1 - c.utf8Size) cs else none

@[simp] theorem dropBytes?_zero (cs : List Char) : dropBytes? 0 cs = some cs := by
  cases cs <;> rfl

/-- Dropping as many bytes as a first part has leaves the second part. -/
theorem dropBytes?_append (as bs : List Char) :
    dropBytes? (byteLength as) (as ++ bs) = some bs := by
  induction as with
  | nil => simp
  | cons c cs ih =>
    have hc := Char.utf8Size_pos c
    obtain ⟨k, hk⟩ : ∃ k, byteLength (c :: cs) = k + 1 :=
      ⟨c.utf8Size + byteLength cs - 1, by simp only [byteLength_cons]; omega⟩
    rw [hk, List.cons_append, dropBytes?]
    simp only [byteLength_cons] at hk
    rw [if_pos (by omega), ← hk, Nat.add_sub_cancel_left, ih]

/-- The text from byte `n` on.  Nothing is left when no text begins there. -/
def dropBytes (n : Nat) (cs : List Char) : List Char := (dropBytes? n cs).getD []

/-- The characters that end within the first `n` bytes. -/
def takeBytes : Nat → List Char → List Char
  | 0, _ => []
  | _ + 1, [] => []
  | n + 1, c :: cs => if c.utf8Size ≤ n + 1 then c :: takeBytes (n + 1 - c.utf8Size) cs else []

theorem dropBytes_append (as bs : List Char) : dropBytes (byteLength as) (as ++ bs) = bs := by
  rw [dropBytes, dropBytes?_append, Option.getD_some]

/-- As many bytes as a first part has are that part. -/
theorem takeBytes_append (as bs : List Char) : takeBytes (byteLength as) (as ++ bs) = as := by
  induction as with
  | nil => rw [byteLength_nil, takeBytes]
  | cons c cs ih =>
    have hc := Char.utf8Size_pos c
    obtain ⟨k, hk⟩ : ∃ k, byteLength (c :: cs) = k + 1 :=
      ⟨c.utf8Size + byteLength cs - 1, by simp only [byteLength_cons]; omega⟩
    rw [hk, List.cons_append, takeBytes]
    simp only [byteLength_cons] at hk
    rw [if_pos (by omega), ← hk, Nat.add_sub_cancel_left, ih]

/-! ### Bytes -/

/-- The bytes of a text. -/
def encode (cs : List Char) : List UInt8 := cs.flatMap String.utf8EncodeChar

@[simp] theorem encode_nil : encode [] = [] := rfl

@[simp] theorem encode_cons (c : Char) (cs : List Char) :
    encode (c :: cs) = String.utf8EncodeChar c ++ encode cs := rfl

theorem length_encode (cs : List Char) : (encode cs).length = byteLength cs := by
  induction cs with
  | nil => rfl
  | cons c cs ih =>
    rw [encode_cons, List.length_append, String.length_utf8EncodeChar, ih, byteLength_cons]

/-! ### Bytes that need not be well formed -/

/-- What stands for bytes that form no character. -/
def replacement : Char := '\uFFFD'

/-- What may follow a lead byte: how many continuation bytes, and the range of the first
of them.  `none` for a byte that starts no sequence of two or more bytes. -/
def leadShape (lead : Nat) : Option (Nat × Nat × Nat) :=
  if 0xC2 ≤ lead ∧ lead ≤ 0xDF then some (1, 0x80, 0xBF)
  else if lead = 0xE0 then some (2, 0xA0, 0xBF)
  else if lead = 0xED then some (2, 0x80, 0x9F)
  else if 0xE1 ≤ lead ∧ lead ≤ 0xEF then some (2, 0x80, 0xBF)
  else if lead = 0xF0 then some (3, 0x90, 0xBF)
  else if 0xF1 ≤ lead ∧ lead ≤ 0xF3 then some (3, 0x80, 0xBF)
  else if lead = 0xF4 then some (3, 0x80, 0x8F)
  else none

/-- The continuation bytes at the head of `bytes`, at most `count`, the first of them in
`[low, high]`. -/
def continuation : Nat → Nat → Nat → List UInt8 → List UInt8
  | count + 1, low, high, b :: bytes =>
    if low ≤ b.toNat ∧ b.toNat ≤ high then b :: continuation count 0x80 0xBF bytes else []
  | _, _, _, _ => []

/-- The character that a lead byte with `count` continuation bytes encodes. -/
def assemble (lead count : Nat) (tail : List UInt8) : Char :=
  Char.ofNat (tail.foldl (fun acc b => acc * 64 + b.toNat % 64) (lead % Nat.pow 2 (6 - count)))

/-- Reads bytes as UTF-8.  Bytes that start a sequence and break it off, up to the byte
that cannot continue it, become one `replacement`. -/
def decode (bytes : List UInt8) : List Char :=
  match bytes with
  | [] => []
  | b :: rest =>
    if b.toNat < 0x80 then Char.ofNat b.toNat :: decode rest
    else
      match leadShape b.toNat with
      | none => replacement :: decode rest
      | some (count, low, high) =>
        let tail := continuation count low high rest
        let c := if tail.length = count then assemble b.toNat count tail else replacement
        c :: decode (rest.drop tail.length)
termination_by bytes.length
decreasing_by all_goals (simp only [List.length_cons, List.length_drop]; omega)

/-- The text that bytes stand for. -/
def decodeString (bytes : ByteArray) : String := String.ofList (decode bytes.toList)

end Text
end CurlyScript
