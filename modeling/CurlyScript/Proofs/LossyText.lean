import CurlyScript.Text.Utf8
import Mathlib.Tactic.IntervalCases

/-!
# Reading back what is cut off in a character

A text that is set as bytes is read back as it was.  When the bytes are cut off somewhere, every
character before the cut is read back, and the one that is cut in two is read as one replacement,
however many bytes of it are left.

## Main definitions

* `Text.Continues` — bytes that go on with a sequence that has begun.
* `Text.Leads` — a lead with the bytes that it asks for, as one character.

## Main results

* `Text.utf8EncodeChar_cases` — how a character is set.
* `Text.decode_utf8EncodeChar_append` — a whole character is read back.
* `Text.decode_take_utf8EncodeChar` — a character that is cut in two is read as a replacement.
-/

namespace CurlyScript
namespace Text

/-! ### Continuation bytes -/

/-- Bytes that go on with a sequence, the first of them in `[low, high]`. -/
def Continues : Nat → Nat → List UInt8 → Prop
  | _, _, [] => True
  | low, high, b :: bytes => low ≤ b.toNat ∧ b.toNat ≤ high ∧ Continues 0x80 0xBF bytes

theorem Continues.take {low high : Nat} {bytes : List UInt8} (h : Continues low high bytes)
    (n : Nat) : Continues low high (bytes.take n) := by
  induction bytes generalizing low high n with
  | nil => simp [Continues]
  | cons b bytes ih =>
    cases n with
    | zero => trivial
    | succ n => exact ⟨h.1, h.2.1, ih h.2.2 n⟩

/-- As many bytes as are asked for are taken, whatever follows. -/
theorem continuation_append {low high : Nat} {tail : List UInt8} (h : Continues low high tail)
    (rest : List UInt8) : continuation tail.length low high (tail ++ rest) = tail := by
  induction tail generalizing low high with
  | nil => unfold continuation; rfl
  | cons b tail ih =>
    rw [List.length_cons, List.cons_append, continuation, if_pos ⟨h.1, h.2.1⟩, ih h.2.2]

/-- Fewer bytes than are asked for are all taken. -/
theorem continuation_of_le {count low high : Nat} {tail : List UInt8}
    (h : Continues low high tail) (hcount : tail.length ≤ count) :
    continuation count low high tail = tail := by
  induction tail generalizing count low high with
  | nil => cases count <;> rfl
  | cons b tail ih =>
    cases count with
    | zero => simp at hcount
    | succ count =>
      rw [continuation, if_pos ⟨h.1, h.2.1⟩, ih h.2.2 (by simpa using hcount)]

/-! ### Characters of two or more bytes -/

theorem leadShape_two {lead : Nat} (hlow : 0xC2 ≤ lead) (hhigh : lead ≤ 0xDF) :
    leadShape lead = some (1, 0x80, 0xBF) := if_pos ⟨hlow, hhigh⟩

/-- After some leads of three bytes the second byte is bounded more narrowly. -/
theorem leadShape_three {lead : Nat} (hlow : 0xE0 ≤ lead) (hhigh : lead ≤ 0xEF) :
    leadShape lead =
      some (2, if lead = 0xE0 then 0xA0 else 0x80, if lead = 0xED then 0x9F else 0xBF) := by
  interval_cases lead <;> rfl

/-- So it is after some leads of four bytes. -/
theorem leadShape_four {lead : Nat} (hlow : 0xF0 ≤ lead) (hhigh : lead ≤ 0xF4) :
    leadShape lead =
      some (3, if lead = 0xF0 then 0x90 else 0x80, if lead = 0xF4 then 0x8F else 0xBF) := by
  interval_cases lead <;> rfl

/-- A character is no surrogate and not above the last one. -/
theorem toNat_bounds (c : Char) :
    c.toNat < 0xD800 ∨ 0xDFFF < c.toNat ∧ c.toNat < 0x110000 := c.valid

/-- A character is set as a lead with the bytes that it asks for, and these are put together to the
character again. -/
structure Leads (lead : UInt8) (tail : List UInt8) (low high : Nat) (c : Char) : Prop where
  /-- The bytes of the character. -/
  bytes : String.utf8EncodeChar c = lead :: tail
  /-- The lead is no character by itself. -/
  high_lead : ¬ lead.toNat < 0x80
  /-- The lead asks for as many bytes as there are. -/
  shape : leadShape lead.toNat = some (tail.length, low, high)
  /-- The bytes are within their bounds. -/
  continues : Continues low high tail
  /-- The bytes make up the character. -/
  assembled : assemble lead.toNat tail.length tail = c

/-- A number below 256 is a byte. -/
theorem toNat_byte {n : Nat} (h : n < 256) : (UInt8.ofNat n).toNat = n :=
  UInt8.toNat_ofNat_of_lt' h

theorem exists_leads_two {c : Char} (hlow : 0x80 ≤ c.toNat) (hhigh : c.toNat ≤ 0x7FF) :
    ∃ lead tail low high, Leads lead tail low high c := by
  have hval : c.val.toNat = c.toNat := rfl
  have hlead := toNat_byte (n := c.toNat / 64 % 32 + 192) (by omega)
  have hlast := toNat_byte (n := c.toNat % 64 + 128) (by omega)
  refine ⟨.ofNat (c.toNat / 64 % 32 + 192), [.ofNat (c.toNat % 64 + 128)], 0x80, 0xBF, ?_, ?_, ?_,
    ?_, ?_⟩
  · rw [String.utf8EncodeChar, hval]
    simp only [if_neg (show ¬ c.toNat ≤ 127 by omega), if_pos hhigh]
  · omega
  · rw [hlead]
    exact leadShape_two (by omega) (by omega)
  · simp only [Continues, and_true, hlast]
    omega
  · have hvalue : (c.toNat / 64 % 32 + 192) % 32 * 64 + (c.toNat % 64 + 128) % 64 = c.toNat := by
      omega
    show Char.ofNat (_ % 32 * 64 + _ % 64) = c
    rw [hlead, hlast, hvalue, Char.ofNat_toNat]

theorem exists_leads_three {c : Char} (hlow : 0x800 ≤ c.toNat) (hhigh : c.toNat ≤ 0xFFFF) :
    ∃ lead tail low high, Leads lead tail low high c := by
  have hbounds := toNat_bounds c
  have hval : c.val.toNat = c.toNat := rfl
  have hlead := toNat_byte (n := c.toNat / 4096 % 16 + 224) (by omega)
  have hnext := toNat_byte (n := c.toNat / 64 % 64 + 128) (by omega)
  have hlast := toNat_byte (n := c.toNat % 64 + 128) (by omega)
  refine ⟨.ofNat (c.toNat / 4096 % 16 + 224),
    [.ofNat (c.toNat / 64 % 64 + 128), .ofNat (c.toNat % 64 + 128)], _, _, ?_, ?_,
    leadShape_three (by omega) (by omega), ?_, ?_⟩
  · rw [String.utf8EncodeChar, hval]
    simp only [if_neg (show ¬ c.toNat ≤ 127 by omega), if_neg (show ¬ c.toNat ≤ 2047 by omega),
      if_pos hhigh]
  · omega
  · simp only [Continues, and_true, hlead, hnext, hlast]
    split <;> split <;> omega
  · have hvalue : ((c.toNat / 4096 % 16 + 224) % 16 * 64 + (c.toNat / 64 % 64 + 128) % 64) * 64 +
        (c.toNat % 64 + 128) % 64 = c.toNat := by
      omega
    show Char.ofNat ((_ % 16 * 64 + _ % 64) * 64 + _ % 64) = c
    rw [hlead, hnext, hlast, hvalue, Char.ofNat_toNat]

theorem exists_leads_four {c : Char} (hlow : 0x10000 ≤ c.toNat) :
    ∃ lead tail low high, Leads lead tail low high c := by
  have hbounds := toNat_bounds c
  have hval : c.val.toNat = c.toNat := rfl
  have hlead := toNat_byte (n := c.toNat / 262144 % 8 + 240) (by omega)
  have hsecond := toNat_byte (n := c.toNat / 4096 % 64 + 128) (by omega)
  have hthird := toNat_byte (n := c.toNat / 64 % 64 + 128) (by omega)
  have hlast := toNat_byte (n := c.toNat % 64 + 128) (by omega)
  refine ⟨.ofNat (c.toNat / 262144 % 8 + 240), [.ofNat (c.toNat / 4096 % 64 + 128),
    .ofNat (c.toNat / 64 % 64 + 128), .ofNat (c.toNat % 64 + 128)], _, _, ?_, ?_,
    leadShape_four (by omega) (by omega), ?_, ?_⟩
  · rw [String.utf8EncodeChar, hval]
    simp only [if_neg (show ¬ c.toNat ≤ 127 by omega), if_neg (show ¬ c.toNat ≤ 2047 by omega),
      if_neg (show ¬ c.toNat ≤ 65535 by omega)]
  · omega
  · simp only [Continues, and_true, hlead, hsecond, hthird, hlast]
    split <;> split <;> omega
  · have hvalue : (((c.toNat / 262144 % 8 + 240) % 8 * 64 + (c.toNat / 4096 % 64 + 128) % 64) * 64 +
        (c.toNat / 64 % 64 + 128) % 64) * 64 + (c.toNat % 64 + 128) % 64 = c.toNat := by
      omega
    show Char.ofNat (((_ % 8 * 64 + _ % 64) * 64 + _ % 64) * 64 + _ % 64) = c
    rw [hlead, hsecond, hthird, hlast, hvalue, Char.ofNat_toNat]

/-- Every character has one byte, which is the character, or a lead with more bytes. -/
theorem utf8EncodeChar_cases (c : Char) :
    String.utf8EncodeChar c = [.ofNat c.toNat] ∧ c.toNat < 0x80 ∨
      ∃ lead tail low high, Leads lead tail low high c := by
  by_cases hone : c.toNat < 0x80
  · exact .inl ⟨if_pos (show c.toNat ≤ 127 by omega), hone⟩
  · refine .inr ?_
    by_cases htwo : c.toNat ≤ 0x7FF
    · exact exists_leads_two (by omega) htwo
    · by_cases hthree : c.toNat ≤ 0xFFFF
      · exact exists_leads_three (by omega) hthree
      · exact exists_leads_four (by omega)

/-! ### Reading back -/

@[simp] theorem decode_nil : decode [] = [] := by
  rw [decode]

/-- A whole character is read back. -/
theorem decode_utf8EncodeChar_append (c : Char) (rest : List UInt8) :
    decode (String.utf8EncodeChar c ++ rest) = c :: decode rest := by
  rcases utf8EncodeChar_cases c with ⟨hbytes, hone⟩ | ⟨lead, tail, low, high, h⟩
  · have hbyte := toNat_byte (n := c.toNat) (by omega)
    rw [hbytes, List.singleton_append, decode, hbyte, if_pos hone, Char.ofNat_toNat]
  · rw [h.bytes, List.cons_append, decode, if_neg h.high_lead, h.shape]
    simp only [continuation_append h.continues, if_pos, h.assembled, List.drop_left]

/-- What is left of a character that is cut in two is read as one replacement. -/
theorem decode_take_utf8EncodeChar {c : Char} {n : Nat} (hpos : 0 < n) (hn : n < c.utf8Size) :
    decode ((String.utf8EncodeChar c).take n) = [replacement] := by
  have hlength := String.length_utf8EncodeChar c
  rcases utf8EncodeChar_cases c with ⟨hbytes, -⟩ | ⟨lead, tail, low, high, h⟩
  · rw [hbytes, List.length_singleton] at hlength
    omega
  · obtain ⟨n, rfl⟩ : ∃ m, n = m + 1 := ⟨n - 1, by omega⟩
    rw [h.bytes, List.length_cons] at hlength
    have hshort : (tail.take n).length < tail.length := by
      rw [List.length_take]
      omega
    rw [h.bytes, List.take_succ_cons, decode, if_neg h.high_lead, h.shape]
    simp only [continuation_of_le (h.continues.take n) hshort.le, if_neg hshort.ne,
      List.drop_length, decode_nil]

end Text
end CurlyScript
