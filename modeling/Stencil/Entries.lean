/-!
# Entries in key order

Association lists kept in increasing order of their keys, each key once. They are the common
representation of map values and of namespaced variables, so two maps with the same associations
are the same list.
-/

namespace Stencil.Entries

variable {κ α : Type} [Ord κ]

/-- Associate a key with a value, replacing an earlier association of that key. -/
def insert (key : κ) (value : α) : List (κ × α) → List (κ × α)
  | [] => [(key, value)]
  | (k, v) :: rest =>
    match compare key k with
    | .lt => (key, value) :: (k, v) :: rest
    | .eq => (key, value) :: rest
    | .gt => (k, v) :: insert key value rest

/-- The value associated with a key. -/
def get? (key : κ) : List (κ × α) → Option α
  | [] => none
  | (k, v) :: rest => if compare key k = .eq then some v else get? key rest

/-- The value that has been put in for a key is found under it. -/
theorem get?_insert_self [Std.ReflOrd κ] (key : κ) (value : α) (entries : List (κ × α)) :
    get? key (insert key value entries) = some value := by
  induction entries with
  | nil => simp [insert, get?]
  | cons e rest ih =>
    obtain ⟨k, v⟩ := e
    cases h : compare key k <;> simp [insert, get?, h, ih]

/-- Insert associations one after the other, so a later one of a key wins. -/
def insertMany (entries : List (κ × α)) (more : List (κ × α)) : List (κ × α) :=
  more.foldl (fun acc e => insert e.1 e.2 acc) entries

/-- The entries that result from inserting associations into an empty map. -/
def ofList (entries : List (κ × α)) : List (κ × α) := insertMany [] entries

/-- The keys, in order. -/
def keys (entries : List (κ × α)) : List κ := entries.map (·.1)

end Stencil.Entries
