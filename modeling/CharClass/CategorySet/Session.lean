import CharClass.CategorySet.Basic

/-!
# Sessions on a variable

A session is a variable that holds a set of categories and a list of steps on it. An update changes
the variable, a query asks it something and leaves it alone. The record of a session has the value
of the variable before the first step and after every step, with the answer where the step asked.

A join or a meet can be written in three ways: as an update in place, with an operator, or as a call
of the function. `Update.apply` gives each its own definition, and `apply_join` and `apply_meet` say
that they mean the same.
-/

namespace CharClass.CategorySet

/-- The ways to write the combination of a variable with an operand. -/
inductive Spelling where
  /-- The variable is modified in place. -/
  | inPlace
  /-- The operator is applied and its value assigned. -/
  | operator
  /-- The function is called and its value assigned. -/
  | function
deriving DecidableEq

def joinInPlace (operand : CategorySet) : StateM CategorySet Unit := modify fun set => set.union operand

def meetInPlace (operand : CategorySet) : StateM CategorySet Unit := modify fun set => set.inter operand

inductive Update where
  | join (spelling : Spelling) (operand : CategorySet)
  | meet (spelling : Spelling) (operand : CategorySet)
  | assign (operand : CategorySet)
deriving DecidableEq

/-- The set that an update combines the variable with or puts in its place. -/
def Update.operand : Update → CategorySet
  | join _ operand => operand
  | meet _ operand => operand
  | assign operand => operand

def Update.apply : Update → CategorySet → CategorySet
  | join .inPlace operand, set => ((joinInPlace operand).run set).2
  | join .operator operand, set => set ∪ operand
  | join .function operand, set => set.union operand
  | meet .inPlace operand, set => ((meetInPlace operand).run set).2
  | meet .operator operand, set => set ∩ operand
  | meet .function operand, set => set.inter operand
  | assign operand, _ => operand

def updateAll (updates : List Update) (set : CategorySet) : CategorySet :=
  updates.foldl (fun current update => update.apply current) set

inductive Query where
  | includes (operand : CategorySet)
  | intersects (operand : CategorySet)
  | equals (operand : CategorySet)
  | matchesOn (mask expected : CategorySet)
  | isEmpty
deriving DecidableEq

def Query.ask : Query → CategorySet → Bool
  | includes operand, set => set.includes operand
  | intersects operand, set => set.intersects operand
  | equals operand, set => set == operand
  | matchesOn mask expected, set => set.matchesOn mask expected
  | isEmpty, set => set.isEmpty

namespace Session

inductive Step where
  | update (change : Update)
  | query (question : Query)
deriving DecidableEq

/-- What a session records: the value of the variable and, after a query, the answer. -/
structure Entry where
  value : CategorySet
  answer : Option Bool := none
deriving DecidableEq

def Step.entry (set : CategorySet) : Step → Entry
  | .update change => { value := change.apply set }
  | .query question => { value := set, answer := some (question.ask set) }

def entries (set : CategorySet) : List Step → List Entry
  | [] => []
  | step :: rest => step.entry set :: entries (step.entry set).value rest

/-- The record of a session, from the value before the first step on. -/
def run (initial : CategorySet) (steps : List Step) : List Entry :=
  { value := initial } :: entries initial steps

end Session

/-- The three spellings of a combination have the same effect. -/
theorem Update.apply_join (spelling : Spelling) (operand set : CategorySet) :
    (join spelling operand).apply set = set ∪ operand := by
  cases spelling <;> rfl

theorem Update.apply_meet (spelling : Spelling) (operand set : CategorySet) :
    (meet spelling operand).apply set = set ∩ operand := by
  cases spelling <;> rfl

end CharClass.CategorySet
