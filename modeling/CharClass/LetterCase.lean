import CharClass.Predicate

/-!
# Letter case

A lower case letter and its upper case form differ in one bit and in nothing else. A conversion sets
or clears that bit in the letters of the other case; every other code point comes back as it was.

Four of the predicates come in three forms: one that takes the letters of both cases, and one for each
case that leaves out the letters of the other.
-/

namespace CharClass

namespace CodePoint

/-- The bit that is set in a lower case letter and clear in its upper case form. -/
def caseBit : CodePoint := 0x20

/-- The lower case form of an upper case letter; any other code point unchanged. -/
def toLower (ch : CodePoint) : CodePoint := if ch.isUpper then ch ||| caseBit else ch

/-- The upper case form of a lower case letter; any other code point unchanged. -/
def toUpper (ch : CodePoint) : CodePoint := if ch.isLower then ch &&& ~~~caseBit else ch

end CodePoint

inductive LetterCase where
  | lower
  | upper
deriving DecidableEq

namespace LetterCase

def opposite : LetterCase → LetterCase
  | lower => upper
  | upper => lower

/-- The category of the letters of a case. -/
def category : LetterCase → Category
  | lower => .lower
  | upper => .upper

def convert : LetterCase → CodePoint → CodePoint
  | lower => CodePoint.toLower
  | upper => CodePoint.toUpper

/-- The values after each of a list of conversions, each applied to the value before it. -/
def chain : List LetterCase → CodePoint → List CodePoint
  | [], _ => []
  | letterCase :: rest, ch => letterCase.convert ch :: chain rest (letterCase.convert ch)

@[simp] theorem opposite_opposite (letterCase : LetterCase) :
    letterCase.opposite.opposite = letterCase := by
  cases letterCase <;> rfl

@[simp] theorem length_chain (targets : List LetterCase) (ch : CodePoint) :
    (chain targets ch).length = targets.length := by
  induction targets generalizing ch with
  | nil => rfl
  | cons letterCase rest ih => rw [chain, List.length_cons, ih, List.length_cons]

end LetterCase

namespace Predicate

/-- The letter case that a predicate keeps to, if it keeps to one. -/
def letterCase? : Predicate → Option LetterCase
  | lower | lowerHexDigit | lowerWord | lowerWordStart => some .lower
  | upper | upperHexDigit | upperWord | upperWordStart => some .upper
  | _ => none

/-- The form of a predicate that leaves out the letters of the other case, if it comes in forms. -/
def inCase? : Predicate → LetterCase → Option Predicate
  | alpha, .lower => some lower
  | alpha, .upper => some upper
  | hexDigit, .lower => some lowerHexDigit
  | hexDigit, .upper => some upperHexDigit
  | word, .lower => some lowerWord
  | word, .upper => some upperWord
  | wordStart, .lower => some lowerWordStart
  | wordStart, .upper => some upperWordStart
  | _, _ => none

end Predicate

end CharClass
