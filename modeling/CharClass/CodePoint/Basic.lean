/-!
# Code points

A code point is a signed 32-bit integer, so that a byte widened with its sign, a Unicode character
and the `-1` that marks the end of an input are all code points. Most code points are no characters
at all, and no function of this library refuses one.

Classes of characters are given as closed ranges. `mem_between` reads such a range as two
inequalities between integers.
-/

namespace CharClass

/-- A character as it comes out of an input, or any other signed 32-bit integer. -/
abbrev CodePoint := Int32

namespace CodePoint

/-- The code point of a character. -/
def ofChar (char : Char) : CodePoint := Int32.ofNat char.toNat

/-- The code points of a text, one for each character. -/
def ofText (text : String) : List CodePoint := text.toList.map ofChar

/-- The code points from one character to another, both included. -/
def between (first last : Char) : Std.Rcc CodePoint := (ofChar first)...=(ofChar last)

@[simp] theorem toInt_ofChar (char : Char) : (ofChar char).toInt = char.toNat := by
  have hchar : char.toNat < 0x110000 := by
    have := char.valid
    simp only [UInt32.isValidChar, Nat.isValidChar] at this
    change char.val.toNat < _
    omega
  rw [ofChar, Int32.toInt_ofNat_of_lt (by omega)]

theorem mem_range {ch first last : CodePoint} :
    ch ∈ (first...=last) ↔ first.toInt ≤ ch.toInt ∧ ch.toInt ≤ last.toInt := by
  change first ≤ ch ∧ ch ≤ last ↔ _
  rw [Int32.le_iff_toInt_le, Int32.le_iff_toInt_le]

theorem mem_between {ch : CodePoint} {first last : Char} :
    ch ∈ between first last ↔ (first.toNat : Int) ≤ ch.toInt ∧ ch.toInt ≤ last.toNat := by
  rw [between, mem_range, toInt_ofChar, toInt_ofChar]

end CodePoint

end CharClass
