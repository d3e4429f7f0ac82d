import CharClass.Category

/-!
# Sets of categories

A set is a word of sixteen bits with one bit for each category, at the category's position. Three
bits stand for nothing. The type does not forbid them, and `ofBits`, the only way in for a raw word,
drops them; `CharClass.CategorySet.Constructible` says that nothing brings them back.

Membership is a bit test, and every operation is one or two machine operations on the words. What
each of them does to membership is in `CharClass.CategorySet.Lemmas`.
-/

namespace CharClass

@[ext]
structure CategorySet where
  /-- The stored word; the bit at a category's position says whether the category belongs. -/
  bits : BitVec 16
deriving DecidableEq

namespace CategorySet

/-- The bits that stand for a category. -/
def knownBits : BitVec 16 := 0x1FFF#16

/-- The set a raw word stands for. A bit that stands for no category is dropped. -/
def ofBits (word : BitVec 16) : CategorySet := ⟨word &&& knownBits⟩

instance : EmptyCollection CategorySet := ⟨⟨0#16⟩⟩

instance : Inhabited CategorySet := ⟨∅⟩

def full : CategorySet := ⟨knownBits⟩

/-- Every bit of the stored word stands for a category. -/
def IsKnown (set : CategorySet) : Prop := set.bits &&& knownBits = set.bits

instance (set : CategorySet) : Decidable set.IsKnown := inferInstanceAs (Decidable (_ = _))

instance : Membership Category CategorySet :=
  ⟨fun set category => set.bits.getLsbD category.position = true⟩

instance (category : Category) (set : CategorySet) : Decidable (category ∈ set) :=
  inferInstanceAs (Decidable (_ = true))

def singleton (category : Category) : CategorySet := ⟨1#16 <<< category.position⟩

instance : Singleton Category CategorySet := ⟨singleton⟩

def union (set other : CategorySet) : CategorySet := ⟨set.bits ||| other.bits⟩

instance : Union CategorySet := ⟨union⟩

def inter (set other : CategorySet) : CategorySet := ⟨set.bits &&& other.bits⟩

instance : Inter CategorySet := ⟨inter⟩

instance : Insert Category CategorySet := ⟨fun category set => {category} ∪ set⟩

def isEmpty (set : CategorySet) : Bool := set.bits == 0#16

/-- Whether every category of the other set belongs to this one. -/
def includes (set other : CategorySet) : Bool := set.bits &&& other.bits == other.bits

/-- Whether some category of the other set belongs to this one. -/
def intersects (set other : CategorySet) : Bool := set.bits &&& other.bits != 0#16

/-- Whether the part of the set inside a mask is exactly the expected set. With the mask
`{hexDigit, upper}` and `{hexDigit}` expected it asks for a hexadecimal digit that is not an upper
case letter. -/
def matchesOn (set mask expected : CategorySet) : Bool := set.bits &&& mask.bits == expected.bits

/-- The members of a set, in the order of their positions. -/
def toList (set : CategorySet) : List Category := Category.all.filter (· ∈ set)

def ofList (categories : List Category) : CategorySet := categories.foldr insert ∅

/-- The join of a list of sets, from the empty set on. -/
def joinAll (sets : List CategorySet) : CategorySet := sets.foldl (· ∪ ·) ∅

/-- The meet of a list of sets, from its first set on. The meet of no sets is the full set. -/
def meetAll : List CategorySet → CategorySet
  | [] => full
  | first :: rest => rest.foldl (· ∩ ·) first

end CategorySet

end CharClass
