import CharClass.CategorySet.Basic

/-!
# Membership in sets of categories

What each operation does to the bits of a word, and so to membership. A set is determined by its
members once every bit of its word stands for a category (`IsKnown.ext`), and on such sets inclusion,
intersection and masked comparison are the statements about members that their names suggest.
-/

namespace CharClass.CategorySet

theorem mem_def {category : Category} {set : CategorySet} :
    category ∈ set ↔ set.bits.getLsbD category.position = true := Iff.rfl

/-! ### Words bit by bit -/

/-- Sets with the same bits are the same, whether or not the bits stand for a category. -/
theorem eq_of_getLsbD_iff {set other : CategorySet}
    (hbits : ∀ i, set.bits.getLsbD i = true ↔ other.bits.getLsbD i = true) : set = other :=
  CategorySet.ext (BitVec.eq_of_getLsbD_eq fun i _ => Bool.eq_iff_iff.2 (hbits i))

theorem getLsbD_union {set other : CategorySet} {i : Nat} :
    (set ∪ other).bits.getLsbD i = true
      ↔ set.bits.getLsbD i = true ∨ other.bits.getLsbD i = true := by
  change (set.bits ||| other.bits).getLsbD i = true ↔ _
  rw [BitVec.getLsbD_or, Bool.or_eq_true]

theorem getLsbD_inter {set other : CategorySet} {i : Nat} :
    (set ∩ other).bits.getLsbD i = true
      ↔ set.bits.getLsbD i = true ∧ other.bits.getLsbD i = true := by
  change (set.bits &&& other.bits).getLsbD i = true ↔ _
  rw [BitVec.getLsbD_and, Bool.and_eq_true]

theorem not_getLsbD_empty (i : Nat) : ¬(∅ : CategorySet).bits.getLsbD i = true := by
  change ¬(0#16).getLsbD i = true
  simp

theorem getLsbD_joinAll {sets : List CategorySet} {i : Nat} :
    (joinAll sets).bits.getLsbD i = true ↔ ∃ set ∈ sets, set.bits.getLsbD i = true := by
  have hfold : ∀ start : CategorySet, (sets.foldl (· ∪ ·) start).bits.getLsbD i = true
      ↔ start.bits.getLsbD i = true ∨ ∃ set ∈ sets, set.bits.getLsbD i = true := by
    induction sets with
    | nil => simp
    | cons head tail ih =>
        intro start
        rw [List.foldl_cons, ih, getLsbD_union]
        simp [or_assoc]
  rw [joinAll, hfold, or_iff_right (not_getLsbD_empty i)]

theorem getLsbD_knownBits (i : Nat) : knownBits.getLsbD i = decide (i < 13) := by
  by_cases hi : i < 16
  · have hbits : ∀ j : Fin 16, knownBits.getLsbD j = decide (j.val < 13) := by decide
    exact hbits ⟨i, hi⟩
  · rw [BitVec.getLsbD_of_ge _ _ (by omega)]
    simp
    omega

/-- A position below thirteen is that of a category. -/
theorem exists_position_eq {i : Nat} (hi : i < 13) : ∃ category : Category, category.position = i := by
  have hpositions : ∀ j : Fin 13, ∃ category ∈ Category.all, category.position = j.val := by decide
  obtain ⟨category, _, hposition⟩ := hpositions ⟨i, hi⟩
  exact ⟨category, hposition⟩

/-! ### Members -/

@[simp] theorem not_mem_empty (category : Category) : ¬category ∈ (∅ : CategorySet) :=
  not_getLsbD_empty category.position

@[simp] theorem mem_full (category : Category) : category ∈ full := by
  have := category.position_lt
  simp [mem_def, full, getLsbD_knownBits, this]

@[simp] theorem mem_ofBits {category : Category} {word : BitVec 16} :
    category ∈ ofBits word ↔ word.getLsbD category.position = true := by
  have := category.position_lt
  simp [mem_def, ofBits, getLsbD_knownBits, this]

@[simp] theorem mem_union {category : Category} {set other : CategorySet} :
    category ∈ set ∪ other ↔ category ∈ set ∨ category ∈ other :=
  getLsbD_union

@[simp] theorem mem_inter {category : Category} {set other : CategorySet} :
    category ∈ set ∩ other ↔ category ∈ set ∧ category ∈ other :=
  getLsbD_inter

@[simp] theorem mem_singleton {category other : Category} :
    category ∈ ({other} : CategorySet) ↔ category = other := by
  change (1#16 <<< other.position).getLsbD category.position = true ↔ _
  have hcategory := category.position_lt
  rw [← Category.position_inj, BitVec.getLsbD_shiftLeft, BitVec.getLsbD_one]
  simp
  omega

@[simp] theorem mem_insert {category other : Category} {set : CategorySet} :
    category ∈ insert other set ↔ category = other ∨ category ∈ set := by
  rw [show insert other set = ({other} : CategorySet) ∪ set from rfl, mem_union, mem_singleton]

@[simp] theorem mem_toList {category : Category} {set : CategorySet} :
    category ∈ set.toList ↔ category ∈ set := by
  simp [toList, Category.mem_all]

@[simp] theorem mem_ofList {category : Category} {categories : List Category} :
    category ∈ ofList categories ↔ category ∈ categories := by
  induction categories with
  | nil => simp [ofList]
  | cons head tail ih =>
      change category ∈ insert head (ofList tail) ↔ _
      rw [mem_insert, ih, List.mem_cons]

@[simp] theorem mem_joinAll {category : Category} {sets : List CategorySet} :
    category ∈ joinAll sets ↔ ∃ set ∈ sets, category ∈ set :=
  getLsbD_joinAll

@[simp] theorem mem_meetAll {category : Category} {sets : List CategorySet} :
    category ∈ meetAll sets ↔ ∀ set ∈ sets, category ∈ set := by
  have hfold : ∀ (rest : List CategorySet) (start : CategorySet),
      category ∈ rest.foldl (· ∩ ·) start ↔ category ∈ start ∧ ∀ set ∈ rest, category ∈ set := by
    intro rest
    induction rest with
    | nil => simp
    | cons head tail ih =>
        intro start
        rw [List.foldl_cons, ih, mem_inter, List.forall_mem_cons, and_assoc]
  cases sets with
  | nil => simp [meetAll]
  | cons first rest => rw [meetAll, hfold, List.forall_mem_cons]

/-! ### Laws that hold bit by bit -/

theorem inter_comm (first second : CategorySet) : first ∩ second = second ∩ first :=
  CategorySet.ext (BitVec.and_comm _ _)

theorem inter_assoc (first second third : CategorySet) :
    (first ∩ second) ∩ third = first ∩ (second ∩ third) :=
  CategorySet.ext (BitVec.and_assoc _ _ _)

theorem union_inter_distrib_right (first second mask : CategorySet) :
    (first ∪ second) ∩ mask = (first ∩ mask) ∪ (second ∩ mask) :=
  CategorySet.ext BitVec.and_or_distrib_right

theorem inter_inter_distrib_right (first second mask : CategorySet) :
    (first ∩ second) ∩ mask = (first ∩ mask) ∩ (second ∩ mask) := by
  apply CategorySet.ext
  change first.bits &&& second.bits &&& mask.bits
    = first.bits &&& mask.bits &&& (second.bits &&& mask.bits)
  ac_rfl

/-! ### Known words -/

theorem isKnown_iff {set : CategorySet} :
    set.IsKnown ↔ ∀ i, set.bits.getLsbD i = true → i < 13 := by
  constructor
  · intro hknown i hbit
    rw [← show set.bits &&& knownBits = set.bits from hknown, BitVec.getLsbD_and,
      getLsbD_knownBits] at hbit
    simp at hbit
    exact hbit.2
  · intro hbits
    refine BitVec.eq_of_getLsbD_eq fun i _ => ?_
    rw [BitVec.getLsbD_and, getLsbD_knownBits]
    cases hbit : set.bits.getLsbD i with
    | false => simp
    | true => simp [hbits i hbit]

@[simp] theorem isKnown_empty : (∅ : CategorySet).IsKnown := by decide

@[simp] theorem isKnown_full : full.IsKnown := by decide

@[simp] theorem isKnown_ofBits (word : BitVec 16) : (ofBits word).IsKnown := by
  simp [IsKnown, ofBits, BitVec.and_assoc]

theorem IsKnown.ofBits_bits {set : CategorySet} (hset : set.IsKnown) : ofBits set.bits = set :=
  CategorySet.ext hset

@[simp] theorem isKnown_singleton (category : Category) : ({category} : CategorySet).IsKnown := by
  cases category <;> decide

theorem IsKnown.union {set other : CategorySet} (hset : set.IsKnown) (hother : other.IsKnown) :
    (set ∪ other).IsKnown := by
  rw [isKnown_iff] at hset hother ⊢
  intro i hbit
  exact (getLsbD_union.1 hbit).elim (hset i) (hother i)

theorem IsKnown.inter {set other : CategorySet} (hset : set.IsKnown) : (set ∩ other).IsKnown := by
  rw [isKnown_iff] at hset ⊢
  intro i hbit
  exact hset i (getLsbD_inter.1 hbit).1

theorem isKnown_joinAll {sets : List CategorySet} (hsets : ∀ set ∈ sets, set.IsKnown) :
    (joinAll sets).IsKnown :=
  List.foldlRecOn sets (· ∪ ·) isKnown_empty fun _ hjoin set hset => hjoin.union (hsets set hset)

theorem isKnown_meetAll {sets : List CategorySet} (hsets : ∀ set ∈ sets, set.IsKnown) :
    (meetAll sets).IsKnown := by
  cases sets with
  | nil => exact isKnown_full
  | cons first rest =>
      have hfirst : first.IsKnown := hsets first List.mem_cons_self
      exact List.foldlRecOn rest (· ∩ ·) hfirst fun _ hmeet _ _ => hmeet.inter

/-- Two sets of known bits with the same members are the same set. -/
theorem IsKnown.ext {set other : CategorySet} (hset : set.IsKnown) (hother : other.IsKnown)
    (hmem : ∀ category, category ∈ set ↔ category ∈ other) : set = other := by
  rw [isKnown_iff] at hset hother
  refine eq_of_getLsbD_iff fun i => ⟨fun hbit => ?_, fun hbit => ?_⟩
  · obtain ⟨category, rfl⟩ := exists_position_eq (hset i hbit)
    exact (hmem category).1 hbit
  · obtain ⟨category, rfl⟩ := exists_position_eq (hother i hbit)
    exact (hmem category).2 hbit

theorem IsKnown.eq_empty_iff {set : CategorySet} (hset : set.IsKnown) :
    set = ∅ ↔ ∀ category, ¬category ∈ set := by
  refine ⟨fun hempty category => hempty ▸ not_mem_empty category, fun hnone => ?_⟩
  exact hset.ext isKnown_empty fun category =>
    iff_of_false (hnone category) (not_mem_empty category)

/-- A join of sets depends neither on their order nor on their repetition. -/
theorem joinAll_eq_of_mem_iff {sets others : List CategorySet}
    (hsame : ∀ set, set ∈ sets ↔ set ∈ others) : joinAll sets = joinAll others := by
  refine eq_of_getLsbD_iff fun i => ?_
  rw [getLsbD_joinAll, getLsbD_joinAll]
  exact exists_congr fun set => and_congr_left' (hsame set)

theorem meetAll_eq_of_mem_iff {sets others : List CategorySet}
    (hsets : ∀ set ∈ sets, set.IsKnown) (hsame : ∀ set, set ∈ sets ↔ set ∈ others) :
    meetAll sets = meetAll others := by
  have hothers : ∀ set ∈ others, set.IsKnown := fun set hset => hsets set ((hsame set).2 hset)
  refine (isKnown_meetAll hsets).ext (isKnown_meetAll hothers) fun category => ?_
  rw [mem_meetAll, mem_meetAll]
  exact forall_congr' fun set => imp_congr_left (hsame set)

/-! ### Tests -/

theorem isEmpty_iff {set : CategorySet} : set.isEmpty = true ↔ set = ∅ := by
  rw [isEmpty, beq_iff_eq]
  exact ⟨fun hbits => CategorySet.ext hbits, fun hset => by rw [hset]; rfl⟩

theorem includes_iff_inter {set other : CategorySet} :
    set.includes other = true ↔ set ∩ other = other := by
  rw [includes, beq_iff_eq]
  exact ⟨fun hbits => CategorySet.ext hbits, fun hset => congrArg bits hset⟩

theorem includes_iff_getLsbD {set other : CategorySet} :
    set.includes other = true
      ↔ ∀ i, other.bits.getLsbD i = true → set.bits.getLsbD i = true := by
  rw [includes_iff_inter]
  refine ⟨fun heq i hbit => ?_, fun himp => eq_of_getLsbD_iff fun i => ?_⟩
  · rw [← heq] at hbit
    exact (getLsbD_inter.1 hbit).1
  · rw [getLsbD_inter]
    exact and_iff_right_of_imp (himp i)

theorem intersects_iff_inter {set other : CategorySet} :
    set.intersects other = true ↔ set ∩ other ≠ ∅ := by
  rw [intersects, bne_iff_ne]
  exact not_congr ⟨fun hbits => CategorySet.ext hbits, fun hset => congrArg bits hset⟩

theorem intersects_iff_getLsbD {set other : CategorySet} :
    set.intersects other = true
      ↔ ∃ i, set.bits.getLsbD i = true ∧ other.bits.getLsbD i = true := by
  rw [intersects_iff_inter]
  refine ⟨fun hne => Classical.byContradiction fun hnone => hne ?_, fun hexists heq => ?_⟩
  · refine eq_of_getLsbD_iff fun i => iff_of_false (fun hbit => ?_) (not_getLsbD_empty i)
    exact hnone ⟨i, getLsbD_inter.1 hbit⟩
  · obtain ⟨i, hbits⟩ := hexists
    rw [← getLsbD_inter, heq] at hbits
    exact not_getLsbD_empty i hbits

theorem matchesOn_iff_inter {set mask expected : CategorySet} :
    set.matchesOn mask expected = true ↔ set ∩ mask = expected := by
  rw [matchesOn, beq_iff_eq]
  exact ⟨fun hbits => CategorySet.ext hbits, fun hset => congrArg bits hset⟩

theorem IsKnown.matchesOn_iff {set mask expected : CategorySet} (hset : set.IsKnown)
    (hexpected : expected.IsKnown) :
    set.matchesOn mask expected = true
      ↔ ∀ category, (category ∈ set ∧ category ∈ mask) ↔ category ∈ expected := by
  rw [matchesOn_iff_inter]
  refine ⟨fun heq category => by rw [← mem_inter, heq], fun hmem => ?_⟩
  refine hset.inter.ext hexpected fun category => ?_
  rw [mem_inter]
  exact hmem category

theorem IsKnown.includes_iff {set other : CategorySet} (hother : other.IsKnown) :
    set.includes other = true ↔ ∀ category, category ∈ other → category ∈ set := by
  rw [includes_iff_getLsbD]
  refine ⟨fun himp category hmem => himp category.position hmem, fun hsubset i hbit => ?_⟩
  obtain ⟨category, rfl⟩ := exists_position_eq (isKnown_iff.1 hother i hbit)
  exact hsubset category hbit

theorem includes_singleton {category : Category} {set : CategorySet} :
    set.includes {category} = true ↔ category ∈ set := by
  rw [(isKnown_singleton category).includes_iff]
  refine ⟨fun hall => hall category (mem_singleton.2 rfl), fun hmem other hother => ?_⟩
  rwa [mem_singleton.1 hother]

theorem IsKnown.intersects_iff {set other : CategorySet} (hset : set.IsKnown) :
    set.intersects other = true ↔ ∃ category, category ∈ set ∧ category ∈ other := by
  rw [intersects_iff_getLsbD]
  refine ⟨fun hexists => ?_, fun hexists => ?_⟩
  · obtain ⟨i, hbit, hother⟩ := hexists
    obtain ⟨category, rfl⟩ := exists_position_eq (isKnown_iff.1 hset i hbit)
    exact ⟨category, hbit, hother⟩
  · obtain ⟨category, hmem⟩ := hexists
    exact ⟨category.position, hmem⟩

theorem IsKnown.intersects_singleton {set : CategorySet} (hset : set.IsKnown)
    {category : Category} : set.intersects {category} = true ↔ category ∈ set := by
  rw [hset.intersects_iff]
  refine ⟨fun hexists => ?_, fun hmem => ⟨category, hmem, mem_singleton.2 rfl⟩⟩
  obtain ⟨other, hmem, hother⟩ := hexists
  rwa [← mem_singleton.1 hother]

end CharClass.CategorySet
