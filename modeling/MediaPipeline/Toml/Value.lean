import MediaPipeline.Number.Decimal

/-!
# Values and tables

A table of a document grows while the document is read, by headers and by dotted keys. Which of the
two may still add to a table depends on what made it.
-/

namespace MediaPipeline.Toml

inductive Origin where
  /-- Braces in a value; the table is complete. -/
  | braces
  | header
  /-- A header of a table inside it. -/
  | parent
  | dotted
  deriving DecidableEq, Repr

inductive Value where
  | text (s : String)
  | integer (n : Int)
  | float (x : Float)
  | boolean (b : Bool)
  /-- A date, a time or both; which one is not kept. -/
  | moment
  /-- An array written between brackets; it is complete. -/
  | array (values : List Value)
  /-- Tables of one header in double brackets, the last one first. -/
  | tables (entries : List (List (String × Value)))
  | table (origin : Origin) (entries : List (String × Value))
  deriving Repr

abbrev Table := List (String × Value)

namespace Table

def put (key : String) (value : Value) : Table → Table
  | [] => [(key, value)]
  | (k, v) :: entries =>
    if k = key then (key, value) :: entries else (k, v) :: put key value entries

theorem lookup_put (key k : String) (value : Value) (t : Table) :
    List.lookup k (put key value t) = if k = key then some value else List.lookup k t := by
  have lookup_cons (k' : String) (v : Value) (t : Table) :
      List.lookup k ((k', v) :: t) = if k = k' then some v else List.lookup k t := by
    rw [List.lookup_cons]
    by_cases h : k = k'
    · simp [h]
    · simp [beq_false_of_ne h, h]
  induction t with
  | nil => exact lookup_cons key value []
  | cons entry t ih =>
    obtain ⟨k', v⟩ := entry
    by_cases h : k' = key
    · subst h
      rw [put, if_pos rfl, lookup_cons, lookup_cons]
      by_cases hk : k = k' <;> simp [hk]
    · rw [put, if_neg h, lookup_cons, ih, lookup_cons]
      by_cases hk : k = key
      · subst hk
        simp [Ne.symm h]
      · simp [hk]

/-- A new entry under a dotted key. The tables on the way are made by dotted keys, here or before;
only through them may the entry be added. -/
def assign (value : Value) : List String → Table → Option Table
  | [], _ => none
  | [key], t => if (t.lookup key).isSome then none else some (put key value t)
  | key :: path, t =>
    match t.lookup key with
    | none => (assign value path []).map fun inner => put key (.table .dotted inner) t
    | some (.table .dotted inner) =>
      (assign value path inner).map fun inner => put key (.table .dotted inner) t
    | some (.table .parent inner) =>
      if path.length < 2 then none
      else (assign value path inner).map fun inner => put key (.table .parent inner) t
    | some (.tables (last :: earlier)) =>
      if path.length < 2 then none
      else (assign value path last).map fun last => put key (.tables (last :: earlier)) t
    | some _ => none

/-- Changes the table that a header leads to, making the tables on the way that are missing. The
last of several tables stands for them. -/
def update (f : Table → Option Table) : List String → Table → Option Table
  | [], t => f t
  | key :: path, t =>
    match t.lookup key with
    | none => (update f path []).map fun inner => put key (.table .parent inner) t
    | some (.table .braces _) => none
    | some (.table origin inner) =>
      (update f path inner).map fun inner => put key (.table origin inner) t
    | some (.tables (last :: earlier)) =>
      (update f path last).map fun last => put key (.tables (last :: earlier)) t
    | some _ => none

/-- Opens the table of a header. It may be there already as the parent of other headers. -/
def openTable (key : String) (t : Table) : Option Table :=
  match t.lookup key with
  | none => some (put key (.table .header []) t)
  | some (.table .parent inner) => some (put key (.table .header inner) t)
  | some _ => none

/-- Opens one more table of a header in double brackets. -/
def openNext (key : String) (t : Table) : Option Table :=
  match t.lookup key with
  | none => some (put key (.tables [[]]) t)
  | some (.tables entries) => some (put key (.tables ([] :: entries)) t)
  | some _ => none

end Table

end MediaPipeline.Toml
