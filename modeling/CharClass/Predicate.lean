import CharClass.CodePoint.Predicate

/-!
# Predicates as values

A predicate names one of the questions of `CharClass.CodePoint.Predicate`, so that a caller can
choose it, ask all of them about one code point, or look for the code points of a range that it holds
for.
-/

namespace CharClass

/-- A yes-or-no question about a code point. -/
inductive Predicate where
  | ascii
  | alpha
  | lower
  | upper
  | digit
  | hexDigit
  | lowerHexDigit
  | upperHexDigit
  | word
  | lowerWord
  | upperWord
  | wordStart
  | lowerWordStart
  | upperWordStart
  | punctuation
  | whitespace
  | blank
  | null
  | control
  | printable
  | graphical
deriving DecidableEq

namespace Predicate

/-- Every predicate, in the order in which they are listed for a code point. -/
def all : List Predicate :=
  [ascii, alpha, lower, upper, digit, hexDigit, lowerHexDigit, upperHexDigit, word, lowerWord,
    upperWord, wordStart, lowerWordStart, upperWordStart, punctuation, whitespace, blank, null,
    control, printable, graphical]

/-- The answer to the question a predicate names. -/
def test : Predicate → CodePoint → Bool
  | ascii => CodePoint.isAscii
  | alpha => CodePoint.isAlpha
  | lower => CodePoint.isLower
  | upper => CodePoint.isUpper
  | digit => CodePoint.isDigit
  | hexDigit => CodePoint.isHexDigit
  | lowerHexDigit => CodePoint.isLowerHexDigit
  | upperHexDigit => CodePoint.isUpperHexDigit
  | word => CodePoint.isWord
  | lowerWord => CodePoint.isLowerWord
  | upperWord => CodePoint.isUpperWord
  | wordStart => CodePoint.isWordStart
  | lowerWordStart => CodePoint.isLowerWordStart
  | upperWordStart => CodePoint.isUpperWordStart
  | punctuation => CodePoint.isPunctuation
  | whitespace => CodePoint.isWhitespace
  | blank => CodePoint.isBlank
  | null => CodePoint.isNull
  | control => CodePoint.isControl
  | printable => CodePoint.isPrintable
  | graphical => CodePoint.isGraphical

/-- The predicates that hold for a code point. -/
def holding (ch : CodePoint) : List Predicate := all.filter fun predicate => predicate.test ch

/-- The code points of a range that a predicate holds for, in ascending order. -/
def scan (predicate : Predicate) (range : Std.Rcc CodePoint) : List CodePoint :=
  range.toList.filter predicate.test

theorem mem_all (predicate : Predicate) : predicate ∈ all := by
  cases predicate <;> decide

theorem mem_holding {predicate : Predicate} {ch : CodePoint} :
    predicate ∈ holding ch ↔ predicate.test ch = true := by
  simp [holding, mem_all]

theorem mem_scan {predicate : Predicate} {range : Std.Rcc CodePoint} {ch : CodePoint} :
    ch ∈ predicate.scan range ↔ ch ∈ range ∧ predicate.test ch = true := by
  rw [scan, List.mem_filter, Std.Rcc.mem_toList_iff_mem]

end Predicate

namespace Category

/-- The predicate that asks for a category. -/
def predicate : Category → Predicate
  | alpha => .alpha
  | lower => .lower
  | upper => .upper
  | digit => .digit
  | hexDigit => .hexDigit
  | word => .word
  | wordStart => .wordStart
  | punctuation => .punctuation
  | whitespace => .whitespace
  | blank => .blank
  | control => .control
  | printable => .printable
  | graphical => .graphical

end Category

end CharClass
