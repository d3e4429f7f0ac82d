import CharClass.Table

/-!
# Yes-or-no questions about a code point

Twenty-one questions, each answered for every code point, and with no outside ASCII. A class that is
one or two ranges is answered by comparing with their ends. A class made of scattered ranges, or one
that leaves out a letter case, is looked up in the table and compared under a mask.
-/

namespace CharClass.CodePoint

def isAscii (ch : CodePoint) : Bool := ch ∈ (0x00 : CodePoint)...=0x7F

def isLower (ch : CodePoint) : Bool := ch ∈ between 'a' 'z'

def isUpper (ch : CodePoint) : Bool := ch ∈ between 'A' 'Z'

def isAlpha (ch : CodePoint) : Bool := ch.isLower || ch.isUpper

def isDigit (ch : CodePoint) : Bool := ch ∈ between '0' '9'

/-- A hexadecimal digit of either case. -/
def isHexDigit (ch : CodePoint) : Bool := ch.hasAny {.hexDigit}

/-- A hexadecimal digit that is not an upper case letter. -/
def isLowerHexDigit (ch : CodePoint) : Bool := ch.hasWithout {.hexDigit} {.upper}

/-- A hexadecimal digit that is not a lower case letter. -/
def isUpperHexDigit (ch : CodePoint) : Bool := ch.hasWithout {.hexDigit} {.lower}

/-- A letter, a decimal digit or the underscore. -/
def isWord (ch : CodePoint) : Bool := ch.hasAny {.word}

/-- A word character that is not an upper case letter. -/
def isLowerWord (ch : CodePoint) : Bool := ch.hasWithout {.word} {.upper}

/-- A word character that is not a lower case letter. -/
def isUpperWord (ch : CodePoint) : Bool := ch.hasWithout {.word} {.lower}

/-- A letter or the underscore. A digit may go on a word but never starts one. -/
def isWordStart (ch : CodePoint) : Bool := ch.hasAny {.wordStart}

/-- A lower case letter or the underscore. -/
def isLowerWordStart (ch : CodePoint) : Bool := ch.hasWithout {.wordStart} {.upper}

/-- An upper case letter or the underscore. -/
def isUpperWordStart (ch : CodePoint) : Bool := ch.hasWithout {.wordStart} {.lower}

/-- A graphical character that is neither a letter nor a digit. -/
def isPunctuation (ch : CodePoint) : Bool := ch.hasAny {.punctuation}

/-- A space or one of the controls from tab to carriage return. -/
def isWhitespace (ch : CodePoint) : Bool := ch.hasAny {.whitespace}

def isBlank (ch : CodePoint) : Bool := ch == 0x20 || ch == 0x09

def isNull (ch : CodePoint) : Bool := ch == 0x00

/-- A character below space, or delete. -/
def isControl (ch : CodePoint) : Bool := (ch ∈ (0x00 : CodePoint)...=0x1F) || ch == 0x7F

/-- A character from space to tilde. -/
def isPrintable (ch : CodePoint) : Bool := ch ∈ (0x20 : CodePoint)...=0x7E

def isGraphical (ch : CodePoint) : Bool := ch ∈ (0x21 : CodePoint)...=0x7E

end CharClass.CodePoint
