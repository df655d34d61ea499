import BlockEditor.Machine.Value

/-!
# Global variables

The variables of a program with their values, in the order in which they were first set.
-/

namespace BlockEditor

/-- Variables with their values. -/
structure Globals where
  entries : List (String × Value)

namespace Globals

/-- No variables. -/
def empty : Globals := ⟨[]⟩

/-- The value under a name in a list of entries. -/
def lookup (name : String) : List (String × Value) → Option Value
  | [] => none
  | (key, v) :: entries => if key = name then some v else lookup name entries

/-- Puts a value under a name: in place if the name is there, and else behind all others. -/
def put (name : String) (v : Value) : List (String × Value) → List (String × Value)
  | [] => [(name, v)]
  | (key, old) :: entries =>
    if key = name then (key, v) :: entries else (key, old) :: put name v entries

/-- The value of a variable. -/
def get? (g : Globals) (name : String) : Option Value := lookup name g.entries

/-- Gives a value to a variable. -/
def set (g : Globals) (name : String) (v : Value) : Globals := ⟨put name v g.entries⟩

/-- Removes a variable. -/
def erase (g : Globals) (name : String) : Globals :=
  ⟨g.entries.filter fun entry => entry.1 != name⟩

@[simp] theorem get?_empty (name : String) : empty.get? name = none := rfl

/-- A variable has the value that was given to it, and the others keep theirs. -/
theorem get?_set (g : Globals) (name other : String) (v : Value) :
    (g.set name v).get? other = if other = name then some v else g.get? other := by
  obtain ⟨entries⟩ := g
  simp only [get?, set]
  induction entries with
  | nil =>
    by_cases h : other = name
    · simp [put, lookup, h]
    · simp [put, lookup, h, Ne.symm h]
  | cons entry entries ih =>
    obtain ⟨key, old⟩ := entry
    by_cases h : key = name
    · subst h
      by_cases h' : other = key
      · simp [put, lookup, h']
      · simp [put, lookup, h', Ne.symm h']
    · by_cases h' : key = other
      · subst h'
        simp [put, lookup, h]
      · simp [put, lookup, h, h', ih]

/-- A removed variable is gone, and the others keep their values. -/
theorem get?_erase (g : Globals) (name other : String) :
    (g.erase name).get? other = if other = name then none else g.get? other := by
  obtain ⟨entries⟩ := g
  simp only [get?, erase]
  induction entries with
  | nil => simp [lookup]
  | cons entry entries ih =>
    obtain ⟨key, old⟩ := entry
    by_cases h : key = name
    · subst h
      by_cases h' : other = key
      · simpa [lookup, h'] using ih
      · simp [lookup, h', Ne.symm h', ih]
    · by_cases h' : key = other
      · subst h'
        simp [lookup, h]
      · simp [lookup, h, h', ih]

end Globals

end BlockEditor
