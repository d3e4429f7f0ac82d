import CharClass.Predicate

/-!
# Classes as ranges

The class of each category and of each predicate, written out as closed ranges of code points. Every
class lies inside ASCII and needs at most four ranges. Neither the table nor any mask occurs here, so
that the classes can be compared with what a look-up finds.
-/

namespace CharClass

open CodePoint (between)

/-- The code points that belong to a category. -/
def Category.ranges : Category → List (Std.Rcc CodePoint)
  | alpha => [between 'a' 'z', between 'A' 'Z']
  | lower => [between 'a' 'z']
  | upper => [between 'A' 'Z']
  | digit => [between '0' '9']
  | hexDigit => [between '0' '9', between 'a' 'f', between 'A' 'F']
  | word => [between '_' '_', between '0' '9', between 'a' 'z', between 'A' 'Z']
  | wordStart => [between '_' '_', between 'a' 'z', between 'A' 'Z']
  | punctuation =>
      [between '!' '/', between ':' '@', between '[' '\x60', between '\x7b' '~']
  | whitespace => [between ' ' ' ', between '\t' '\r']
  | blank => [between ' ' ' ', between '\t' '\t']
  | control => [between '\x00' '\x1f', between '\x7f' '\x7f']
  | printable => [between ' ' '~']
  | graphical => [between '!' '~']

/-- The code points that a predicate holds for. -/
def Predicate.ranges : Predicate → List (Std.Rcc CodePoint)
  | ascii => [between '\x00' '\x7f']
  | alpha => Category.alpha.ranges
  | lower => Category.lower.ranges
  | upper => Category.upper.ranges
  | digit => Category.digit.ranges
  | hexDigit => Category.hexDigit.ranges
  | lowerHexDigit => [between '0' '9', between 'a' 'f']
  | upperHexDigit => [between '0' '9', between 'A' 'F']
  | word => Category.word.ranges
  | lowerWord => [between '_' '_', between '0' '9', between 'a' 'z']
  | upperWord => [between '_' '_', between '0' '9', between 'A' 'Z']
  | wordStart => Category.wordStart.ranges
  | lowerWordStart => [between '_' '_', between 'a' 'z']
  | upperWordStart => [between '_' '_', between 'A' 'Z']
  | punctuation => Category.punctuation.ranges
  | whitespace => Category.whitespace.ranges
  | blank => Category.blank.ranges
  | null => [between '\x00' '\x00']
  | control => Category.control.ranges
  | printable => Category.printable.ranges
  | graphical => Category.graphical.ranges

/-- A code point is in a class if one of the ranges of the class has it. -/
def InRanges (ch : CodePoint) (ranges : List (Std.Rcc CodePoint)) : Prop :=
  ∃ range ∈ ranges, ch ∈ range

instance (ch : CodePoint) (ranges : List (Std.Rcc CodePoint)) : Decidable (InRanges ch ranges) :=
  inferInstanceAs (Decidable (∃ range ∈ ranges, ch ∈ range))

end CharClass
