import CharClass.Proofs.Conversion
import Mathlib.Data.Set.Function

/-!
# The case bit in arithmetic

A conversion sets or clears one bit of the letters of the other case and leaves every other bit of
every code point alone. In such a letter the bit counts for 32, so the conversions can be written as a
sum and a difference as well, and these stay within the range of the code points.

The letters that a conversion moves are those of the other case. It never results in one of them, and
it carries them one to one to the letters of its own case, from where the other conversion carries
them back.
-/

namespace CharClass

namespace CodePoint

variable {ch : CodePoint}

theorem or_caseBit_and_not_caseBit : (ch ||| caseBit) &&& ~~~caseBit = ch &&& ~~~caseBit := by
  rw [← Int32.toBitVec_inj, Int32.toBitVec_and, Int32.toBitVec_and, Int32.toBitVec_or,
    Int32.toBitVec_not, BitVec.and_or_distrib_right, BitVec.and_not_self]
  exact BitVec.or_zero

/-! ### Sums and differences -/

theorem or_caseBit_eq_add (hupper : ch.isUpper = true) : ch ||| caseBit = ch + 0x20 := by
  have hbounds := isUpper_iff.1 hupper
  rw [← Int32.toInt_inj, toInt_or_caseBit hupper, Int32.toInt_add]
  exact (Int.bmod_eq_of_le_mul_two (by omega) (by omega)).symm

theorem and_not_caseBit_eq_sub (hlower : ch.isLower = true) :
    ch &&& ~~~caseBit = ch - 0x20 := by
  have hbounds := isLower_iff.1 hlower
  rw [← Int32.toInt_inj, toInt_and_not_caseBit hlower, Int32.toInt_sub]
  exact (Int.bmod_eq_of_le_mul_two (by omega) (by omega)).symm

/-- The complement of the case bit and `0xDF` differ above the low byte, where a letter has no bit. -/
theorem and_not_caseBit_eq_and_byte (hlower : ch.isLower = true) :
    ch &&& ~~~caseBit = ch &&& 0xDF :=
  forall_of_isAscii
    (P := fun ch => isLower ch = true → ch &&& ~~~caseBit = ch &&& 0xDF)
    (by decide +kernel) (isAscii_of_isLower hlower) hlower

end CodePoint

namespace LetterCase

open CodePoint (between toLower toUpper toInt_toLower toInt_toUpper mem_between)

variable {target : LetterCase} {ch : CodePoint}

/-- The letters of a case. -/
def letters : LetterCase → Std.Rcc CodePoint
  | lower => between 'a' 'z'
  | upper => between 'A' 'Z'

theorem mem_letters_lower : ch ∈ lower.letters ↔ 0x61 ≤ ch.toInt ∧ ch.toInt ≤ 0x7A :=
  mem_between

theorem mem_letters_upper : ch ∈ upper.letters ↔ 0x41 ≤ ch.toInt ∧ ch.toInt ≤ 0x5A :=
  mem_between

theorem not_mem_opposite_letters (hletter : ch ∈ target.letters) :
    ¬ch ∈ target.opposite.letters := by
  cases target with
  | lower =>
      rw [mem_letters_lower] at hletter
      rw [opposite, mem_letters_upper]
      omega
  | upper =>
      rw [mem_letters_upper] at hletter
      rw [opposite, mem_letters_lower]
      omega

/-! ### What a conversion moves -/

/-- A conversion changes no bit but the case bit. -/
theorem convert_and_not_caseBit (target : LetterCase) (ch : CodePoint) :
    target.convert ch &&& ~~~CodePoint.caseBit = ch &&& ~~~CodePoint.caseBit := by
  cases target with
  | lower =>
      rw [convert, toLower]
      split
      · exact CodePoint.or_caseBit_and_not_caseBit
      · rfl
  | upper =>
      rw [convert, toUpper]
      split
      · rw [Int32.and_assoc, Int32.and_self]
      · rfl

theorem convert_eq_iff_not_mem_letters :
    target.convert ch = ch ↔ ¬ch ∈ target.opposite.letters := by
  cases target with
  | lower => exact CodePoint.toLower_eq_self_iff.trans decide_eq_false_iff_not
  | upper => exact CodePoint.toUpper_eq_self_iff.trans decide_eq_false_iff_not

/-- What a conversion hands out is what it leaves alone. -/
theorem exists_convert_eq_iff :
    (∃ other, target.convert other = ch) ↔ ¬ch ∈ target.opposite.letters := by
  rw [← convert_eq_iff_not_mem_letters]
  constructor
  · rintro ⟨other, rfl⟩
    exact convert_convert target target other
  · exact fun hfixed => ⟨ch, hfixed⟩

theorem convert_mem_letters (hletter : ch ∈ target.opposite.letters) :
    target.convert ch ∈ target.letters := by
  cases target with
  | lower =>
      rw [opposite, mem_letters_upper] at hletter
      rw [mem_letters_lower, convert, toInt_toLower]
      omega
  | upper =>
      rw [opposite, mem_letters_lower] at hletter
      rw [mem_letters_upper, convert, toInt_toUpper]
      omega

/-- A letter is back where it was after a conversion to its own case, whatever came before. -/
theorem convert_convert_of_mem_letters {own : LetterCase} (hletter : ch ∈ own.letters) :
    own.convert (target.convert ch) = ch := by
  rw [convert_convert, convert_eq_iff_not_mem_letters]
  exact not_mem_opposite_letters hletter

theorem invOn_convert (target : LetterCase) :
    Set.InvOn target.opposite.convert target.convert {ch | ch ∈ target.opposite.letters}
      {ch | ch ∈ target.letters} :=
  ⟨fun _ hletter => convert_convert_of_mem_letters hletter,
    fun _ hletter => convert_convert_of_mem_letters hletter⟩

theorem bijOn_convert (target : LetterCase) :
    Set.BijOn target.convert {ch | ch ∈ target.opposite.letters} {ch | ch ∈ target.letters} := by
  refine target.invOn_convert.bijOn (fun _ hletter => convert_mem_letters hletter) ?_
  intro ch hletter
  have hback : ch ∈ target.opposite.opposite.letters := by rwa [opposite_opposite]
  exact convert_mem_letters hback

/-- On the letters of the other case a conversion sets or clears the case bit, which is to add or to
take away 32, within the range of the code points. It changes no other bit and nothing else. What it
leaves alone is also what it can result in: all but the letters of the other case. These it carries
one to one to the letters of its own, and the other conversion is the inverse. -/
theorem convert_shifts_letters :
    (∀ ch : CodePoint, ch ∈ between 'A' 'Z' → toLower ch = ch ||| 0x20 ∧ toLower ch = ch + 0x20)
      ∧ (∀ ch : CodePoint, ch ∈ between 'a' 'z' →
          toUpper ch = ch &&& ~~~0x20 ∧ toUpper ch = ch &&& 0xDF ∧ toUpper ch = ch - 0x20)
      ∧ (∀ ch : CodePoint,
          (toLower ch).toInt
              = (if 0x41 ≤ ch.toInt ∧ ch.toInt ≤ 0x5A then ch.toInt + 0x20 else ch.toInt)
            ∧ (toUpper ch).toInt
              = (if 0x61 ≤ ch.toInt ∧ ch.toInt ≤ 0x7A then ch.toInt - 0x20 else ch.toInt))
      ∧ (∀ (target : LetterCase) (ch : CodePoint),
          target.convert ch &&& ~~~0x20 = ch &&& ~~~0x20)
      ∧ (∀ (target : LetterCase) (ch : CodePoint),
          (target.convert ch = ch ↔ ¬ch ∈ target.opposite.letters)
            ∧ ((∃ other, target.convert other = ch) ↔ ¬ch ∈ target.opposite.letters))
      ∧ ∀ target : LetterCase,
          Set.BijOn target.convert {ch | ch ∈ target.opposite.letters} {ch | ch ∈ target.letters}
            ∧ Set.InvOn target.opposite.convert target.convert
              {ch | ch ∈ target.opposite.letters} {ch | ch ∈ target.letters} := by
  refine ⟨fun ch hletter => ?_, fun ch hletter => ?_,
    fun ch => ⟨toInt_toLower ch, toInt_toUpper ch⟩, convert_and_not_caseBit,
    fun target ch => ⟨convert_eq_iff_not_mem_letters, exists_convert_eq_iff⟩,
    fun target => ⟨bijOn_convert target, invOn_convert target⟩⟩
  · have hupper : ch.isUpper = true := decide_eq_true hletter
    have hbits : toLower ch = ch ||| CodePoint.caseBit := by rw [toLower, if_pos hupper]
    exact ⟨hbits, hbits.trans (CodePoint.or_caseBit_eq_add hupper)⟩
  · have hlower : ch.isLower = true := decide_eq_true hletter
    have hbits : toUpper ch = ch &&& ~~~CodePoint.caseBit := by rw [toUpper, if_pos hlower]
    exact ⟨hbits, hbits.trans (CodePoint.and_not_caseBit_eq_and_byte hlower),
      hbits.trans (CodePoint.and_not_caseBit_eq_sub hlower)⟩

/-- The third code point is `Z` but for the sign bit, and so is no letter. -/
theorem convert_shifts_letters_Z :
    toLower (CodePoint.ofChar 'Z') = CodePoint.ofChar 'Z' + 0x20
      ∧ toUpper (CodePoint.ofChar 'z') = CodePoint.ofChar 'z' &&& 0xDF
      ∧ toLower (CodePoint.ofChar 'Z' ||| Int32.minValue)
        = CodePoint.ofChar 'Z' ||| Int32.minValue := by
  obtain ⟨hlower, hupper, _, _, hfixed, _⟩ := convert_shifts_letters
  exact ⟨(hlower _ (by decide)).2, (hupper _ (by decide)).2.1, (hfixed .lower _).1.2 (by decide)⟩

end LetterCase

end CharClass
