/-!
# Tables

A table pairs texts with values and lists them by key, in the order of their code points. It is a
plain list, so that it can stand inside a recursive type; `Sorted` says that its keys ascend.
-/

namespace ChatGateway

/-- The entries of a table, by ascending key. -/
abbrev Table (α : Type) := List (String × α)

namespace Table

variable {α β : Type}

def insert (key : String) (a : α) : Table α → Table α
  | [] => [(key, a)]
  | (k, b) :: t =>
    if key < k then (key, a) :: (k, b) :: t
    else if key = k then (key, a) :: t
    else (k, b) :: insert key a t

def get? : Table α → String → Option α
  | [], _ => none
  | (k, a) :: t, key => if k = key then some a else get? t key

def keys (t : Table α) : List String := t.map (·.1)

/-- The table of a list of entries; the last entry of a key counts. -/
def ofEntries (entries : List (String × α)) : Table α :=
  entries.foldl (fun t (k, a) => t.insert k a) []

def override (t u : Table α) : Table α := u.foldl (fun t (k, a) => t.insert k a) t

/-- The keys ascend, so that each has one entry. -/
def Sorted (t : Table α) : Prop := t.Pairwise fun a b => a.1 < b.1

theorem get?_insert (t : Table α) (key k : String) (a : α) :
    (t.insert key a).get? k = if key = k then some a else t.get? k := by
  induction t with
  | nil => rfl
  | cons e t ih =>
    obtain ⟨k', b⟩ := e
    rw [insert]
    split
    · rfl
    · split
      · next h => subst h; by_cases hk : key = k <;> simp [get?, hk]
      · next h =>
        rw [get?, get?, ih]
        by_cases hk : k' = k
        · subst hk; simp [h]
        · simp [hk]

end Table

end ChatGateway
