import CharClass.Proofs.Conversion
import Mathlib.Data.List.Forall2

/-!
# Comparing without letter case

Two texts are compared without regard to letter case by converting both and comparing the results. A
conversion absorbs the one before it, so texts that agree after one conversion agree after the other
as well, and the comparison may convert to either case.

What is identified in this way can be said without converting anything: the two forms of a letter,
which differ in the case bit alone, and nothing else. In integers the two forms lie 32 apart, and only
from one range of letters to the other. That the case bit also separates `@` from the grave accent, or
code points far above ASCII, does not count, since these are no letters.
-/

namespace CharClass

namespace CodePoint

variable {first second ch : CodePoint}

/-- Equal, or the two forms of one letter. -/
def EqUpToCase (first second : CodePoint) : Prop :=
  first = second
    ∨ first.isAlpha = true ∧ second.isAlpha = true ∧ first ^^^ second = caseBit

instance (first second : CodePoint) : Decidable (EqUpToCase first second) :=
  inferInstanceAs (Decidable (_ ∨ _))

/-! ### The other form of a letter -/

theorem isAlpha_iff :
    ch.isAlpha = true
      ↔ (0x61 ≤ ch.toInt ∧ ch.toInt ≤ 0x7A) ∨ (0x41 ≤ ch.toInt ∧ ch.toInt ≤ 0x5A) := by
  rw [isAlpha, Bool.or_eq_true, isLower_iff, isUpper_iff]

theorem xor_eq_caseBit_iff : first ^^^ second = caseBit ↔ second = first ^^^ caseBit := by
  have hcancel : first ^^^ (first ^^^ second) = second := by
    rw [← Int32.xor_assoc, Int32.xor_self, Int32.zero_xor]
  rw [← Int32.xor_right_inj first, hcancel]

theorem toInt_xor_caseBit (halpha : ch.isAlpha = true) :
    (ch ^^^ caseBit).toInt = if 0x61 ≤ ch.toInt then ch.toInt - 0x20 else ch.toInt + 0x20 := by
  have hbounds := isAlpha_iff.1 halpha
  have hascii : ch.isAscii = true := isAscii_iff.2 (by omega)
  exact forall_of_isAscii
    (P := fun ch => isAlpha ch = true → (ch ^^^ caseBit).toInt
      = if 0x61 ≤ ch.toInt then ch.toInt - 0x20 else ch.toInt + 0x20)
    (by decide +kernel) hascii halpha

theorem eqUpToCase_iff :
    EqUpToCase first second
      ↔ first.toInt = second.toInt
        ∨ (0x41 ≤ first.toInt ∧ first.toInt ≤ 0x5A ∧ second.toInt = first.toInt + 0x20)
        ∨ (0x61 ≤ first.toInt ∧ first.toInt ≤ 0x7A ∧ second.toInt = first.toInt - 0x20) := by
  rw [EqUpToCase, xor_eq_caseBit_iff, ← Int32.toInt_inj, ← Int32.toInt_inj]
  by_cases halpha : first.isAlpha = true
  · have hother := toInt_xor_caseBit halpha
    rw [isAlpha_iff] at halpha
    rw [isAlpha_iff, isAlpha_iff, hother]
    omega
  · rw [isAlpha_iff] at halpha
    rw [isAlpha_iff]
    omega

/-! ### One code point -/

theorem toLower_eq_toLower_iff : toLower first = toLower second ↔ EqUpToCase first second := by
  rw [eqUpToCase_iff, ← Int32.toInt_inj, toInt_toLower, toInt_toLower]
  omega

theorem convert_eq_of_convert_eq (target other : LetterCase)
    (hsame : target.convert first = target.convert second) :
    other.convert first = other.convert second := by
  rw [← LetterCase.convert_convert other target first, hsame, LetterCase.convert_convert]

/-- Which conversion is applied does not matter for what is identified. -/
theorem convert_eq_convert_iff (target : LetterCase) :
    target.convert first = target.convert second ↔ EqUpToCase first second := by
  rw [← toLower_eq_toLower_iff]
  exact ⟨convert_eq_of_convert_eq target .lower, convert_eq_of_convert_eq .lower target⟩

theorem equivalence_eqUpToCase : Equivalence EqUpToCase := by
  have hfibres : EqUpToCase = InvImage (· = ·) toLower := by
    funext first second
    exact propext toLower_eq_toLower_iff.symm
  rw [hfibres]
  exact InvImage.equivalence _ _ eq_equivalence

theorem EqUpToCase.eq_of_ne (hfirst : EqUpToCase ch first) (hsecond : EqUpToCase ch second)
    (hfirstOther : first ≠ ch) (hsecondOther : second ≠ ch) : first = second := by
  rw [eqUpToCase_iff] at hfirst hsecond
  rw [Ne, ← Int32.toInt_inj] at hfirstOther hsecondOther
  rw [← Int32.toInt_inj]
  omega

theorem EqUpToCase.eq_of_not_isAlpha (hsame : EqUpToCase ch second) (halpha : ch.isAlpha = false) :
    second = ch := by
  rcases hsame with heq | ⟨hletter, _⟩
  · exact heq.symm
  · rw [halpha] at hletter
    cases hletter

/-! ### Texts -/

/-- Texts of one length with the same code points up to case. -/
def TextEqUpToCase (first second : List CodePoint) : Prop :=
  first.length = second.length
    ∧ ∀ (i : Nat) (hfirst : i < first.length) (hsecond : i < second.length),
        EqUpToCase first[i] second[i]

theorem textEqUpToCase_iff_forall₂ {first second : List CodePoint} :
    TextEqUpToCase first second ↔ List.Forall₂ EqUpToCase first second :=
  List.forall₂_iff_get.symm

theorem map_convert_eq_iff (target : LetterCase) {first second : List CodePoint} :
    first.map target.convert = second.map target.convert ↔ TextEqUpToCase first second := by
  rw [textEqUpToCase_iff_forall₂, ← List.forall₂_eq_eq_eq, List.forall₂_map_left_iff,
    List.forall₂_map_right_iff]
  simp only [convert_eq_convert_iff]

theorem equivalence_textEqUpToCase : Equivalence TextEqUpToCase := by
  have hfibres : TextEqUpToCase = InvImage (· = ·) (List.map toLower) := by
    funext first second
    exact propext (map_convert_eq_iff .lower).symm
  rw [hfibres]
  exact InvImage.equivalence _ _ eq_equivalence

/-- Texts agree in lower case exactly if they agree in upper case, which they do if they are equal but
for the forms of letters. So there is one comparison without letter case. It is an equivalence that
leaves each code point at most one partner, and a code point that is no letter has none. -/
theorem caseless_comparison :
    (∀ first second : List CodePoint,
        (first.map toLower = second.map toLower ↔ first.map toUpper = second.map toUpper)
          ∧ (first.map toLower = second.map toLower ↔ TextEqUpToCase first second)
          ∧ (first.map toUpper = second.map toUpper ↔ TextEqUpToCase first second))
      ∧ Equivalence TextEqUpToCase
      ∧ Equivalence EqUpToCase
      ∧ (∀ ch first second : CodePoint, EqUpToCase ch first → EqUpToCase ch second →
          first ≠ ch → second ≠ ch → first = second)
      ∧ ∀ (target : LetterCase) (ch other : CodePoint), ch.isAlpha = false →
          target.convert ch = target.convert other → other = ch := by
  refine ⟨fun first second => ?_, equivalence_textEqUpToCase, equivalence_eqUpToCase,
    fun ch first second hfirst hsecond => hfirst.eq_of_ne hsecond,
    fun target ch other halpha hsame => ?_⟩
  · have hlower : first.map toLower = second.map toLower ↔ TextEqUpToCase first second :=
      map_convert_eq_iff .lower
    have hupper : first.map toUpper = second.map toUpper ↔ TextEqUpToCase first second :=
      map_convert_eq_iff .upper
    exact ⟨hlower.trans hupper.symm, hlower, hupper⟩
  · exact ((convert_eq_convert_iff target).1 hsame).eq_of_not_isAlpha halpha

/-- `@` and the grave accent, `[` and the opening brace differ in the case bit as letters do. -/
theorem caseless_comparison_brackets :
    (ofText "Max[i]").map toLower = (ofText "mAX[I]").map toLower
      ∧ ¬(ofText "Max[i]").map toLower = (ofText "Max\x7bi]").map toLower
      ∧ (∀ other, EqUpToCase (ofChar 'k') other → other ≠ ofChar 'k' → other = ofChar 'K')
      ∧ (ofChar '@').isAlpha = false
      ∧ (∀ other, toLower (ofChar '@') = toLower other → other = ofChar '@')
      ∧ (0xC1 : CodePoint).isAlpha = false
      ∧ ∀ other, toUpper 0xC1 = toUpper other → other = 0xC1 := by
  obtain ⟨htexts, _, _, hpartner, hother⟩ := caseless_comparison
  obtain ⟨hsame, _⟩ := htexts (ofText "Max[i]") (ofText "mAX[I]")
  obtain ⟨_, hlower, _⟩ := htexts (ofText "Max[i]") (ofText "Max\x7bi]")
  have hat : (ofChar '@').isAlpha = false := by decide
  have haccent : (0xC1 : CodePoint).isAlpha = false := by decide
  refine ⟨hsame.2 (by decide), fun hequal => ?_, fun other hletter hne => ?_, hat,
    fun other => hother .lower _ other hat, haccent, fun other => hother .upper _ other haccent⟩
  · have hbrackets : EqUpToCase (ofChar '[') (ofChar '\x7b') :=
      (hlower.1 hequal).2 3 (by decide) (by decide)
    exact absurd hbrackets (by decide)
  · exact hpartner _ _ _ hletter (by decide) hne (by decide)

end CodePoint

end CharClass
