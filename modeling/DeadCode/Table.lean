/-!
Tables in order of first insertion. `get?_insert` and `get?_erase` say what a change does to a
look-up; `insert` on a present key keeps the key's place.
-/

namespace DeadCode

structure Table (α β : Type) where
  entries : List (α × β) := []
  deriving DecidableEq, Inhabited

namespace Table

variable {α β : Type} [DecidableEq α]

def find (k : α) : List (α × β) → Option β
  | [] => none
  | (a, b) :: rest => if a = k then some b else find k rest

def put (k : α) (v : β) : List (α × β) → List (α × β)
  | [] => [(k, v)]
  | (a, b) :: rest => if a = k then (a, v) :: rest else (a, b) :: put k v rest

def get? (t : Table α β) (k : α) : Option β := find k t.entries

def insert (t : Table α β) (k : α) (v : β) : Table α β := ⟨put k v t.entries⟩

def erase (t : Table α β) (k : α) : Table α β := ⟨t.entries.filter fun e => e.1 ≠ k⟩

def contains (t : Table α β) (k : α) : Bool := (t.get? k).isSome

def keys (t : Table α β) : List α := t.entries.map Prod.fst

def values (t : Table α β) : List β := t.entries.map Prod.snd

theorem find_put (k k' : α) (v : β) (l : List (α × β)) :
    find k' (put k v l) = if k = k' then some v else find k' l := by
  induction l with
  | nil => simp [put, find]
  | cons e rest ih =>
    obtain ⟨a, b⟩ := e
    by_cases h : a = k
    · subst h
      by_cases h' : a = k' <;> simp [put, find, h']
    · by_cases h' : a = k'
      · subst h'
        simp [put, find, h, Ne.symm h]
      · simp [put, find, h, h', ih]

theorem find_filter_ne (k k' : α) (l : List (α × β)) :
    find k' (l.filter fun e => e.1 ≠ k) = if k = k' then none else find k' l := by
  induction l with
  | nil => simp [find]
  | cons e rest ih =>
    obtain ⟨a, b⟩ := e
    by_cases h : a = k
    · subst h
      by_cases h' : a = k' <;> simp_all [find]
    · by_cases h' : a = k'
      · subst h'
        simp [find, h, Ne.symm h]
      · simp_all [find]

@[simp] theorem get?_insert (t : Table α β) (k k' : α) (v : β) :
    (t.insert k v).get? k' = if k = k' then some v else t.get? k' :=
  find_put k k' v t.entries

@[simp] theorem get?_erase (t : Table α β) (k k' : α) :
    (t.erase k).get? k' = if k = k' then none else t.get? k' :=
  find_filter_ne k k' t.entries

end Table
end DeadCode
