import CharClass.Proofs.Constructible
import Mathlib.Data.List.Infix

/-!
# Runs of updates

An update does one of three things to a category: it lets it in, keeps it out, or leaves it as it was.
A run of updates does one of the same three, however long it is. So two runs say what every other one
does: the run from the empty set ends with the categories that were let in, and the run from the full
set ends without those that were kept out.

`mem_updateAll` says this of one category. What a run does to joins, meets and inclusions of sets
follows from it alone.
-/

namespace CharClass.CategorySet

theorem updateAll_cons (update : Update) (rest : List Update) (set : CategorySet) :
    updateAll (update :: rest) set = updateAll rest (update.apply set) := rfl

/-! ### What a run does to a category -/

/-- A category is in the updated set if it was in the set and is not kept out, or if it is let in. -/
theorem Update.mem_apply {category : Category} (update : Update) (set : CategorySet) :
    category ∈ update.apply set
      ↔ (category ∈ set ∧ category ∈ update.apply full) ∨ category ∈ update.apply ∅ := by
  cases update with
  | join spelling operand => simp [apply_join]
  | meet spelling operand => simp [apply_meet]
  | assign operand =>
      show category ∈ operand ↔ (category ∈ set ∧ category ∈ operand) ∨ category ∈ operand
      exact (or_iff_right_of_imp And.right).symm

theorem mem_updateAll {category : Category} (updates : List Update) (set : CategorySet) :
    category ∈ updateAll updates set
      ↔ (category ∈ set ∧ category ∈ updateAll updates full) ∨ category ∈ updateAll updates ∅ := by
  induction updates generalizing set with
  | nil => simp [updateAll]
  | cons update rest ih =>
      -- what the rest does is the same from all three starts, so only the first update is compared
      rw [updateAll_cons, updateAll_cons, updateAll_cons, ih (update.apply set),
        ih (update.apply full), ih (update.apply ∅), update.mem_apply set]
      grind

theorem Constructible.updateAll {set : CategorySet} {updates : List Update}
    (hset : Constructible set)
    (hoperands : ∀ update ∈ updates, Constructible update.operand) :
    Constructible (updateAll updates set) := by
  induction updates generalizing set with
  | nil => exact hset
  | cons update rest ih =>
      have hfirst : Constructible (update.apply set) :=
        hset.apply (hoperands update List.mem_cons_self)
      exact ih hfirst fun later hlater => hoperands later (List.mem_cons_of_mem update hlater)

section Laws

variable {updates : List Update} {first second : CategorySet}

theorem updateAll_eq_inter_union
    (hoperands : ∀ update ∈ updates, Constructible update.operand)
    (hfirst : Constructible first) :
    updateAll updates first = (first ∩ updateAll updates full) ∪ updateAll updates ∅ := by
  have hfull : Constructible (updateAll updates full) :=
    isKnown_full.constructible.updateAll hoperands
  have hempty : Constructible (updateAll updates ∅) := Constructible.empty.updateAll hoperands
  apply (hfirst.updateAll hoperands).ext ((hfirst.inter hfull).union hempty)
  intro category
  show _ ↔ category ∈ (first ∩ updateAll updates full) ∪ updateAll updates ∅
  rw [mem_union, mem_inter]
  exact mem_updateAll updates first

theorem updateAll_union (hoperands : ∀ update ∈ updates, Constructible update.operand)
    (hfirst : Constructible first) (hsecond : Constructible second) :
    updateAll updates (first ∪ second) = updateAll updates first ∪ updateAll updates second := by
  apply ((hfirst.union hsecond).updateAll hoperands).ext
    ((hfirst.updateAll hoperands).union (hsecond.updateAll hoperands))
  intro category
  show category ∈ updateAll updates (first ∪ second)
    ↔ category ∈ updateAll updates first ∪ updateAll updates second
  rw [mem_union, mem_updateAll updates (first ∪ second), mem_updateAll updates first,
    mem_updateAll updates second, mem_union]
  grind

theorem updateAll_inter (hoperands : ∀ update ∈ updates, Constructible update.operand)
    (hfirst : Constructible first) (hsecond : Constructible second) :
    updateAll updates (first ∩ second) = updateAll updates first ∩ updateAll updates second := by
  apply ((hfirst.inter hsecond).updateAll hoperands).ext
    ((hfirst.updateAll hoperands).inter (hsecond.updateAll hoperands))
  intro category
  show category ∈ updateAll updates (first ∩ second)
    ↔ category ∈ updateAll updates first ∩ updateAll updates second
  rw [mem_inter, mem_updateAll updates (first ∩ second), mem_updateAll updates first,
    mem_updateAll updates second, mem_inter]
  grind

theorem includes_updateAll (hoperands : ∀ update ∈ updates, Constructible update.operand)
    (hsecond : Constructible second) (hincludes : first.includes second = true) :
    (updateAll updates first).includes (updateAll updates second) = true := by
  rw [hsecond.isKnown.includes_iff] at hincludes
  rw [(hsecond.updateAll hoperands).isKnown.includes_iff]
  intro category hmem
  rw [mem_updateAll] at hmem ⊢
  rcases hmem with ⟨hstart, hkept⟩ | hlet
  · exact Or.inl ⟨hincludes category hstart, hkept⟩
  · exact Or.inr hlet

end Laws

/-! ### Spellings -/

/-- The same operation with the same operand, perhaps spelled in another way. -/
inductive Update.Respelled : Update → Update → Prop
  | join (spelling other : Spelling) (operand : CategorySet) :
      Respelled (.join spelling operand) (.join other operand)
  | meet (spelling other : Spelling) (operand : CategorySet) :
      Respelled (.meet spelling operand) (.meet other operand)
  | assign (operand : CategorySet) : Respelled (.assign operand) (.assign operand)

theorem Update.Respelled.apply_eq {update other : Update} (hspelling : Respelled update other)
    (set : CategorySet) : update.apply set = other.apply set := by
  cases hspelling with
  | join => rw [apply_join, apply_join]
  | meet => rw [apply_meet, apply_meet]
  | assign => rfl

theorem Session.entries_eq_of_respelled {updates others : List Update}
    (hspelling : List.Forall₂ Update.Respelled updates others) (set : CategorySet) :
    entries set (updates.map .update) = entries set (others.map .update) := by
  induction hspelling generalizing set with
  | nil => rfl
  | cons hfirst _ ih =>
      rw [List.map_cons, List.map_cons, entries, entries, Step.entry, Step.entry,
        hfirst.apply_eq set, ih]

/-- The record of a session of updates holds what each of the runs that lead there comes to. -/
theorem Session.values_run (updates : List Update) (set : CategorySet) :
    (run set (updates.map .update)).map Entry.value
      = updates.inits.map fun passed => updateAll passed set := by
  induction updates generalizing set with
  | nil => rfl
  | cons update rest ih =>
      calc
        (run set ((update :: rest).map .update)).map Entry.value
            = set :: (run (update.apply set) (rest.map .update)).map Entry.value := rfl
        _ = set :: rest.inits.map fun passed => updateAll passed (update.apply set) := by rw [ih]
        _ = (update :: rest).inits.map fun passed => updateAll passed set := by
          rw [List.inits_cons, List.map_cons, List.map_map]
          rfl

/-! ### Runs between the empty and the full set -/

/-- A run of updates is determined by what it makes of the full and of the empty set. It commutes with
joins and meets and keeps inclusions, and neither its end nor any value on the way there depends on
how its updates are spelled. -/
theorem updateAll_determined_by_full_and_empty :
    (∀ updates : List Update, (∀ update ∈ updates, Constructible update.operand) →
        (∀ set, Constructible set →
          updateAll updates set = (set ∩ updateAll updates full) ∪ updateAll updates ∅)
        ∧ ∀ first second, Constructible first → Constructible second →
            updateAll updates (first ∪ second)
                = updateAll updates first ∪ updateAll updates second
              ∧ updateAll updates (first ∩ second)
                = updateAll updates first ∩ updateAll updates second
              ∧ (first.includes second = true →
                  (updateAll updates first).includes (updateAll updates second) = true))
      ∧ (∀ (updates : List Update) (set : CategorySet),
          (Session.run set (updates.map .update)).map Session.Entry.value
            = updates.inits.map fun passed => updateAll passed set)
      ∧ ∀ updates others : List Update, List.Forall₂ Update.Respelled updates others →
          ∀ set, Session.run set (updates.map .update) = Session.run set (others.map .update) := by
  refine ⟨fun updates hoperands => ⟨fun set hset => updateAll_eq_inter_union hoperands hset, ?_⟩,
    Session.values_run, fun updates others hspelling set => ?_⟩
  · intro first second hfirst hsecond
    exact ⟨updateAll_union hoperands hfirst hsecond, updateAll_inter hoperands hfirst hsecond,
      includes_updateAll hoperands hsecond⟩
  · rw [Session.run, Session.run, Session.entries_eq_of_respelled hspelling]

/-- The run lets in `lower`, keeps out all but `alpha` and `word`, and leaves those two as they were. -/
theorem updateAll_determined_by_full_and_empty_alpha_word :
    (∀ set, Constructible set →
        updateAll [.meet .operator {.alpha, .word}, .join .inPlace {.lower}] set
          = (set ∩ {.alpha, .word, .lower}) ∪ {.lower})
      ∧ Constructible {.word, .blank}
      ∧ updateAll [.meet .operator {.alpha, .word}, .join .inPlace {.lower}] {.word, .blank}
          = {.word, .lower}
      ∧ (updateAll [.meet .operator {.alpha, .word}, .join .inPlace {.lower}]
          {.word, .blank}).includes
            (updateAll [.meet .operator {.alpha, .word}, .join .inPlace {.lower}] {.blank}) = true
      ∧ Session.run {.word, .blank} [.update (.join .inPlace {.lower})]
          = Session.run {.word, .blank} [.update (.join .operator {.lower})] := by
  have hoperands : ∀ update ∈ [Update.meet .operator {.alpha, .word}, .join .inPlace {.lower}],
      Constructible update.operand := by
    have hknown : ∀ update ∈ [Update.meet .operator {.alpha, .word}, .join .inPlace {.lower}],
        update.operand.IsKnown := by decide
    exact fun update hupdate => (hknown update hupdate).constructible
  have hfull : updateAll [.meet .operator {.alpha, .word}, .join .inPlace {.lower}] full
      = {.alpha, .word, .lower} := by decide
  have hempty : updateAll [.meet .operator {.alpha, .word}, .join .inPlace {.lower}] ∅
      = {.lower} := by decide
  have hset : Constructible {.word, .blank} := IsKnown.constructible (by decide)
  have hrespelled : List.Forall₂ Update.Respelled [.join .inPlace {.lower}]
      [.join .operator {.lower}] := .cons (.join .inPlace .operator {.lower}) .nil
  obtain ⟨hlaws, _, hspelling⟩ := updateAll_determined_by_full_and_empty
  obtain ⟨hdetermined, hpairs⟩ := hlaws _ hoperands
  obtain ⟨_, _, hincludes⟩ := hpairs _ _ hset (.singleton .blank)
  rw [hfull, hempty] at hdetermined
  exact ⟨hdetermined, hset, (hdetermined _ hset).trans (by decide), hincludes (by decide),
    hspelling _ _ hrespelled _⟩

end CharClass.CategorySet
