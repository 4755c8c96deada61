/-!
Tables that keep the order in which their keys were first put in. A table is a list of pairs, each
key once. Putting a key in or taking it out changes what is found for this key and for no other.
-/

namespace XQuerySyntax

/-- Keys with their values, in the order of their first insertion. -/
abbrev Table (κ ν : Type) := List (κ × ν)

namespace Table

variable {κ ν : Type} [DecidableEq κ]

/-- The value of a key. -/
def get? (t : Table κ ν) (k : κ) : Option ν := t.lookup k

/-- Whether the key has a value. -/
def has (t : Table κ ν) (k : κ) : Bool := (t.get? k).isSome

/-- Gives a key a value. A key that is there keeps its place. -/
def put : Table κ ν → κ → ν → Table κ ν
  | [], k, v => [(k, v)]
  | (k', v') :: t, k, v => if k' = k then (k, v) :: t else (k', v') :: put t k v

/-- Takes a key out. -/
def erase (t : Table κ ν) (k : κ) : Table κ ν := t.filter fun p => p.1 ≠ k

/-- Gives a key a value, or takes it out. -/
def set (t : Table κ ν) (k : κ) : Option ν → Table κ ν
  | some v => t.put k v
  | none => t.erase k

/-! ### What is found -/

@[simp]
theorem get?_nil (k : κ) : get? ([] : Table κ ν) k = none := rfl

theorem get?_cons (k' : κ) (v : ν) (t : Table κ ν) (k : κ) :
    get? ((k', v) :: t) k = if k' = k then some v else t.get? k := by
  by_cases h : k' = k
  · rw [if_pos h, h, get?, List.lookup_cons_self]
  · rw [if_neg h, get?, List.lookup_cons, beq_eq_false_iff_ne.2 fun e => h e.symm, get?]

/-- A key is found with the value that it was given last. -/
theorem get?_put (t : Table κ ν) (k : κ) (v : ν) (k' : κ) :
    (t.put k v).get? k' = if k = k' then some v else t.get? k' := by
  induction t with
  | nil => rw [put, get?_cons]
  | cons p t ih =>
    by_cases h : p.1 = k
    · rw [put, if_pos h, get?_cons, get?_cons, h]
      by_cases hk : k = k' <;> simp [hk]
    · rw [put, if_neg h, get?_cons, get?_cons, ih]
      by_cases hp : p.1 = k'
      · rw [if_pos hp, if_neg fun hk => h (hp.trans hk.symm), if_pos hp]
      · rw [if_neg hp, if_neg hp]

/-- A key that was taken out is not found. -/
theorem get?_erase (t : Table κ ν) (k k' : κ) :
    (t.erase k).get? k' = if k = k' then none else t.get? k' := by
  induction t with
  | nil => simp [erase]
  | cons p t ih =>
    rw [erase] at ih ⊢
    by_cases h : p.1 = k
    · rw [List.filter_cons_of_neg (by simpa using h), ih, get?_cons, h]
      by_cases hk : k = k' <;> simp [hk]
    · rw [List.filter_cons_of_pos (by simpa using h), get?_cons, get?_cons, ih]
      by_cases hp : p.1 = k'
      · rw [if_pos hp, if_neg fun hk => h (hp.trans hk.symm), if_pos hp]
      · rw [if_neg hp, if_neg hp]

theorem get?_set (t : Table κ ν) (k : κ) (o : Option ν) (k' : κ) :
    (t.set k o).get? k' = if k = k' then o else t.get? k' := by
  cases o with
  | none => exact get?_erase t k k'
  | some v => exact get?_put t k v k'

end Table

end XQuerySyntax
