import CharClass.CategorySet.Basic
import CharClass.CodePoint.Basic

/-!
# The table of categories

`byteCategories` says which categories a byte belongs to. The table holds its answer for each of the
128 ASCII characters and is filled one entry at a time (`Filling`). Each entry is filled when its turn
comes and not touched again (`Filling.Filled`), so nothing is lost on the way (`getElem_table`). A code
point outside the table has no category.
-/

namespace CharClass

/-- The bytes from one ASCII character to another, both included. -/
def bytesBetween (first last : Char) : Std.Rcc UInt8 := first.toUInt8...=last.toUInt8

structure ByteRule where
  ranges : List (Std.Rcc UInt8)
  categories : CategorySet

def ByteRule.applies (rule : ByteRule) (byte : UInt8) : Bool :=
  rule.ranges.any fun range => byte ∈ range

/-- The rules that give a byte its categories. They overlap: tab and the line ends are among the
controls, and the underscore is among the punctuation, so their rules come first. -/
def byteRules : List ByteRule :=
  [⟨[bytesBetween '\t' '\t'], {.control, .whitespace, .blank}⟩,
    ⟨[bytesBetween '\n' '\r'], {.control, .whitespace}⟩,
    ⟨[bytesBetween '\x00' '\x1f', bytesBetween '\x7f' '\x7f'], {.control}⟩,
    ⟨[bytesBetween ' ' ' '], {.printable, .whitespace, .blank}⟩,
    ⟨[bytesBetween '0' '9'], {.printable, .graphical, .digit, .hexDigit, .word}⟩,
    ⟨[bytesBetween 'A' 'F'], {.printable, .graphical, .alpha, .word, .wordStart, .upper, .hexDigit}⟩,
    ⟨[bytesBetween 'G' 'Z'], {.printable, .graphical, .alpha, .word, .wordStart, .upper}⟩,
    ⟨[bytesBetween 'a' 'f'], {.printable, .graphical, .alpha, .word, .wordStart, .lower, .hexDigit}⟩,
    ⟨[bytesBetween 'g' 'z'], {.printable, .graphical, .alpha, .word, .wordStart, .lower}⟩,
    ⟨[bytesBetween '_' '_'], {.printable, .graphical, .punctuation, .word, .wordStart}⟩,
    ⟨[bytesBetween '!' '/', bytesBetween ':' '@', bytesBetween '[' '\x60', bytesBetween '\x7b' '~'],
      {.printable, .graphical, .punctuation}⟩]

/-- The categories of a byte: those of the first rule that applies, and none where no rule does. -/
def byteCategories (byte : UInt8) : CategorySet :=
  match byteRules.find? fun rule => rule.applies byte with
  | some rule => rule.categories
  | none => ∅

/-- A table whose entries below `next` are filled. -/
structure Filling where
  entries : Vector CategorySet 128
  next : Nat

namespace Filling

def start : Filling := ⟨Vector.replicate 128 ∅, 0⟩

/-- Fills the next entry, which lies inside the table. -/
def advance (filling : Filling) (hnext : filling.next < 128) : Filling :=
  ⟨filling.entries.set filling.next (byteCategories (UInt8.ofNat filling.next)), filling.next + 1⟩

/-- Fills a given number of entries, or fewer where the table ends. -/
def advanceBy : Nat → Filling → Filling
  | 0, filling => filling
  | count + 1, filling =>
      if hnext : filling.next < 128 then advanceBy count (filling.advance hnext) else filling

/-- Fills the entries that are left. -/
def finish (filling : Filling) : Filling :=
  if hnext : filling.next < 128 then (filling.advance hnext).finish else filling
termination_by 128 - filling.next
decreasing_by
  simp only [advance]
  omega

theorem advanceBy_succ {filling : Filling} (hnext : filling.next < 128) (count : Nat) :
    filling.advanceBy (count + 1) = (filling.advance hnext).advanceBy count := by
  rw [advanceBy, dif_pos hnext]

/-- The entries below a count hold the categories of their own byte, and all the others are still
empty. -/
structure Filled (filling : Filling) (count : Nat) : Prop where
  next_eq : filling.next = count
  getElem_entries : ∀ i (hi : i < 128),
    filling.entries[i] = if i < count then byteCategories (UInt8.ofNat i) else ∅

theorem filled_start : start.Filled 0 := by
  refine ⟨rfl, fun i hi => ?_⟩
  rw [if_neg (Nat.not_lt_zero i)]
  exact Vector.getElem_replicate hi

theorem Filled.advance {filling : Filling} {count : Nat} (hfilled : filling.Filled count)
    (hnext : filling.next < 128) : (filling.advance hnext).Filled (count + 1) := by
  obtain ⟨rfl, hentries⟩ := hfilled
  refine ⟨rfl, fun i hi => ?_⟩
  change (filling.entries.set filling.next (byteCategories (UInt8.ofNat filling.next)))[i] = _
  by_cases heq : filling.next = i
  · subst heq
    rw [Vector.getElem_set_self, if_pos (by omega)]
  · have hbelow : i < filling.next ↔ i < filling.next + 1 := by omega
    rw [Vector.getElem_set_ne hnext hi heq, hentries i hi]
    simp only [hbelow]

theorem Filled.advanceBy {filling : Filling} {reached : Nat} (hfilled : filling.Filled reached)
    (hreached : reached ≤ 128) (count : Nat) :
    (filling.advanceBy count).Filled (min (reached + count) 128) := by
  induction count generalizing filling reached with
  | zero =>
      rw [Nat.add_zero, Nat.min_eq_left hreached]
      exact hfilled
  | succ count ih =>
      have hnext := hfilled.next_eq
      rw [Filling.advanceBy]
      split
      next hlt =>
        have hrest := ih (hfilled.advance hlt) (by omega)
        rwa [Nat.add_right_comm] at hrest
      next hge =>
        -- the table has ended before the count has
        rw [Nat.min_eq_right (by omega), show 128 = reached by omega]
        exact hfilled

/-- To finish is to fill as many entries as are left. -/
theorem finish_eq_advanceBy (filling : Filling) :
    filling.finish = filling.advanceBy (128 - filling.next) := by
  induction filling using finish.induct with
  | case1 filling hnext ih =>
      have hleft : 128 - filling.next = 128 - (filling.next + 1) + 1 := by omega
      rw [finish, dif_pos hnext, ih, hleft, advanceBy_succ hnext]
      rfl
  | case2 filling hnext =>
      rw [finish, dif_neg hnext, Nat.sub_eq_zero_of_le (by omega), advanceBy]

theorem filled_finish_start : start.finish.Filled 128 := by
  rw [finish_eq_advanceBy]
  exact filled_start.advanceBy (by omega) 128

end Filling

/-- The categories of the ASCII characters, each at the index that is its code point. -/
def table : Vector CategorySet 128 := Filling.start.finish.entries

theorem getElem_table (i : Nat) (hi : i < 128) : table[i] = byteCategories (UInt8.ofNat i) := by
  have hentry := Filling.filled_finish_start.getElem_entries i hi
  rwa [if_pos hi] at hentry

theorem get_table (index : Fin 128) : table.get index = byteCategories (UInt8.ofNat index.val) :=
  getElem_table index.val index.isLt

namespace CodePoint

/-- The index of a code point in the table, if it is that of an ASCII character. -/
def tableIndex? (ch : CodePoint) : Option (Fin 128) :=
  if hch : ch ∈ (0x00 : CodePoint)...=0x7F then
    some ⟨ch.toInt.toNat, by
      have := mem_range.1 hch
      simp at this
      omega⟩
  else none

/-- The categories of a code point. Outside ASCII there are none. -/
def categories (ch : CodePoint) : CategorySet :=
  match ch.tableIndex? with
  | some index => table.get index
  | none => ∅

/-- Whether a code point has at least one of the wanted categories. -/
def hasAny (ch : CodePoint) (wanted : CategorySet) : Bool := ch.categories.intersects wanted

/-- Whether a code point has every wanted category and, of the barred ones, none but those that are
wanted as well. -/
def hasWithout (ch : CodePoint) (wanted barred : CategorySet) : Bool :=
  ch.categories.matchesOn (wanted ∪ barred) wanted

end CodePoint

end CharClass
