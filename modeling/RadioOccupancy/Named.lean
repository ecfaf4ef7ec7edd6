/-!
Values under names. A name that is set again keeps its place and takes the new value, and a new name
goes to the end.
-/

namespace RadioOccupancy

/-- Values under names, in the order in which the names were first set. -/
abbrev Named (α : Type) := List (String × α)

namespace Named

variable {α : Type}

/-- The value under a name. -/
def get? (entries : Named α) (name : String) : Option α :=
  entries.lookup name

/-- Sets the value under a name. -/
def set : Named α → String → α → Named α
  | [], name, value => [(name, value)]
  | (n, v) :: rest, name, value =>
    if n = name then (n, value) :: rest else (n, v) :: set rest name value

theorem get?_cons (n name : String) (v : α) (rest : Named α) :
    get? ((n, v) :: rest) name = if name = n then some v else get? rest name := by
  by_cases h : name = n
  · simp [get?, h]
  · simp [get?, List.lookup_cons, beq_eq_false_iff_ne.2 h, h]

theorem get?_set (entries : Named α) (name other : String) (value : α) :
    (entries.set name value).get? other = if other = name then some value else entries.get? other := by
  induction entries with
  | nil => simp only [set, get?_cons]
  | cons e rest ih =>
    obtain ⟨n, v⟩ := e
    rw [set]
    split
    · next h => simp only [get?_cons, h]; split <;> rfl
    · next h =>
      simp only [get?_cons, ih]
      by_cases ho : other = n
      · simp [ho, h]
      · simp [ho]

end Named

end RadioOccupancy
