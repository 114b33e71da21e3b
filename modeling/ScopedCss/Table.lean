/-
# Tables

A table gives texts values and remembers the order in which the texts were first put in.  Putting a
key again replaces its value where it stands, so no key stands twice in a table that was built by
`put` and `putNew`.
-/

namespace ScopedCss

/-- Keys with their values, in the order of first insertion. -/
abbrev Table (α : Type) := List (String × α)

namespace Table

variable {α : Type}

/-- The keys, in order. -/
def keys (table : Table α) : List String :=
  table.map Prod.fst

/-- The values, in the order of their keys. -/
def values (table : Table α) : List α :=
  table.map Prod.snd

/-- The value of a key. -/
def get? (table : Table α) (key : String) : Option α :=
  List.lookup key table

/-- Give a key a value: in place if the table has the key, else at the end. -/
def put (table : Table α) (key : String) (value : α) : Table α :=
  match table with
  | [] => [(key, value)]
  | (k, v) :: rest => if k = key then (key, value) :: rest else (k, v) :: put rest key value

/-- Give a key a value unless it has one. -/
def putNew (table : Table α) (key : String) (value : α) : Table α :=
  match get? table key with
  | some _ => table
  | none => put table key value

@[simp] theorem get?_nil (key : String) : get? ([] : Table α) key = none := rfl

@[simp] theorem keys_nil : keys ([] : Table α) = [] := rfl

@[simp] theorem values_nil : values ([] : Table α) = [] := rfl

theorem get?_cons (k key : String) (v : α) (rest : Table α) :
    get? ((k, v) :: rest) key = if key = k then some v else get? rest key := by
  simp only [get?, List.lookup_cons]
  by_cases h : key = k
  · simp [h]
  · rw [beq_eq_false_iff_ne.2 h]
    simp [h]

theorem get?_put (table : Table α) (key other : String) (value : α) :
    get? (put table key value) other = if other = key then some value else get? table other := by
  induction table with
  | nil => simp [put, get?_cons]
  | cons head rest ih =>
    obtain ⟨k, v⟩ := head
    by_cases hk : k = key
    · subst hk
      simp only [put, if_true, get?_cons]
      split <;> rfl
    · simp only [put, if_neg hk, get?_cons, ih]
      by_cases ho : other = k
      · simp [ho, hk]
      · simp [ho]

theorem keys_put (table : Table α) (key : String) (value : α) :
    keys (put table key value) = if key ∈ keys table then keys table else keys table ++ [key] := by
  induction table with
  | nil => simp [put, keys]
  | cons head rest ih =>
    obtain ⟨k, v⟩ := head
    simp only [keys] at ih
    by_cases hk : k = key
    · simp [put, keys, hk]
    · have hne : key ≠ k := fun h => hk h.symm
      simp only [put, if_neg hk, keys, List.map_cons, ih, List.mem_cons, hne, false_or]
      by_cases hmem : key ∈ List.map Prod.fst rest <;> simp [hmem]

end Table

end ScopedCss
