import CharClass.LetterCase
import CharClass.Proofs.Classes

/-!
# Conversions

Setting the case bit of an upper case letter adds 32 to it, and clearing that of a lower case letter
takes 32 away. On integers instead of bits a conversion is a shift of 26 neighbours by 32; everything
else is where it was.

A code point and its other letter case are converted to the same result, so a conversion undoes
whatever conversions came before it, and of a chain only the last one counts.
-/

namespace CharClass

namespace CodePoint

variable {ch : CodePoint}

theorem isLower_iff : ch.isLower = true ↔ 0x61 ≤ ch.toInt ∧ ch.toInt ≤ 0x7A := by
  rw [isLower, decide_eq_true_iff, mem_between]
  rfl

theorem isUpper_iff : ch.isUpper = true ↔ 0x41 ≤ ch.toInt ∧ ch.toInt ≤ 0x5A := by
  rw [isUpper, decide_eq_true_iff, mem_between]
  rfl

theorem isAscii_of_isLower (hlower : ch.isLower = true) : ch.isAscii = true := by
  have hbounds := isLower_iff.1 hlower
  exact isAscii_iff.2 (by omega)

theorem isAscii_of_isUpper (hupper : ch.isUpper = true) : ch.isAscii = true := by
  have hbounds := isUpper_iff.1 hupper
  exact isAscii_iff.2 (by omega)

/-! ### The case bit -/

theorem toInt_or_caseBit (hupper : ch.isUpper = true) :
    (ch ||| caseBit).toInt = ch.toInt + 0x20 :=
  forall_of_isAscii
    (P := fun ch => isUpper ch = true → (ch ||| caseBit).toInt = ch.toInt + 0x20)
    (by decide +kernel) (isAscii_of_isUpper hupper) hupper

theorem toInt_and_not_caseBit (hlower : ch.isLower = true) :
    (ch &&& ~~~caseBit).toInt = ch.toInt - 0x20 :=
  forall_of_isAscii
    (P := fun ch => isLower ch = true → (ch &&& ~~~caseBit).toInt = ch.toInt - 0x20)
    (by decide +kernel) (isAscii_of_isLower hlower) hlower

theorem toInt_toLower (ch : CodePoint) :
    (toLower ch).toInt
      = if 0x41 ≤ ch.toInt ∧ ch.toInt ≤ 0x5A then ch.toInt + 0x20 else ch.toInt := by
  rw [toLower]
  by_cases hupper : ch.isUpper = true
  · rw [if_pos hupper, if_pos (isUpper_iff.1 hupper), toInt_or_caseBit hupper]
  · rw [if_neg hupper, if_neg (mt isUpper_iff.2 hupper)]

theorem toInt_toUpper (ch : CodePoint) :
    (toUpper ch).toInt
      = if 0x61 ≤ ch.toInt ∧ ch.toInt ≤ 0x7A then ch.toInt - 0x20 else ch.toInt := by
  rw [toUpper]
  by_cases hlower : ch.isLower = true
  · rw [if_pos hlower, if_pos (isLower_iff.1 hlower), toInt_and_not_caseBit hlower]
  · rw [if_neg hlower, if_neg (mt isLower_iff.2 hlower)]

theorem toLower_eq_self_iff : toLower ch = ch ↔ ch.isUpper = false := by
  rw [← Int32.toInt_inj, toInt_toLower, ← Bool.not_eq_true, isUpper_iff]
  omega

theorem toUpper_eq_self_iff : toUpper ch = ch ↔ ch.isLower = false := by
  rw [← Int32.toInt_inj, toInt_toUpper, ← Bool.not_eq_true, isLower_iff]
  omega

end CodePoint

namespace LetterCase

open CodePoint (toLower toUpper toInt_toLower toInt_toUpper between)

/-! ### One conversion after another -/

/-- A conversion absorbs the one before it, of either case. -/
theorem convert_convert (outer inner : LetterCase) (ch : CodePoint) :
    outer.convert (inner.convert ch) = outer.convert ch := by
  rw [← Int32.toInt_inj]
  cases outer with
  | lower | upper =>
      cases inner with
      | lower | upper =>
          simp only [convert, toInt_toLower, toInt_toUpper]
          omega

theorem chain_eq_map (targets : List LetterCase) (ch : CodePoint) :
    chain targets ch = targets.map fun target => target.convert ch := by
  induction targets generalizing ch with
  | nil => rfl
  | cons first rest ih =>
      rw [chain, ih, List.map_cons]
      simp only [convert_convert]

/-- Of a chain of conversions only the last one counts, at every stage of the chain. Going to one
letter case and then to the other ends at the start, except for the letters of the first. -/
theorem chain_absorbs (targets : List LetterCase) (ch : CodePoint) :
    chain targets ch = targets.map (fun target => target.convert ch)
      ∧ (chain targets ch).getLast? = targets.getLast?.map (fun last => last.convert ch)
      ∧ (toLower (toLower ch) = toLower ch ∧ toUpper (toUpper ch) = toUpper ch)
      ∧ (toLower (toUpper ch) = toLower ch ∧ toUpper (toLower ch) = toUpper ch)
      ∧ (toUpper (toLower ch) = ch ↔ ¬ch ∈ between 'a' 'z')
      ∧ (toLower (toUpper ch) = ch ↔ ¬ch ∈ between 'A' 'Z') := by
  have hlowerUpper : toLower (toUpper ch) = toLower ch := convert_convert lower upper ch
  have hupperLower : toUpper (toLower ch) = toUpper ch := convert_convert upper lower ch
  have hlowerLower : toLower (toLower ch) = toLower ch := convert_convert lower lower ch
  have hupperUpper : toUpper (toUpper ch) = toUpper ch := convert_convert upper upper ch
  refine ⟨chain_eq_map targets ch, ?_, ⟨hlowerLower, hupperUpper⟩, ⟨hlowerUpper, hupperLower⟩,
    ?_, ?_⟩
  · rw [chain_eq_map, List.getLast?_map]
  · rw [hupperLower, CodePoint.toUpper_eq_self_iff, CodePoint.isLower, decide_eq_false_iff_not]
  · rw [hlowerUpper, CodePoint.toLower_eq_self_iff, CodePoint.isUpper, decide_eq_false_iff_not]

end LetterCase

end CharClass
