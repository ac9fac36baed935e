/-!
# Tables and sets in key order

A table is a list of pairs in increasing order of their keys; inserting under a
key that is present replaces its value. A set is an increasing list.
-/
namespace PluginGuard

structure Table (α : Type) where
  entries : List (String × α)
  deriving DecidableEq, Repr

namespace Table

variable {α β : Type}

def empty : Table α := ⟨[]⟩

def isEmpty (t : Table α) : Bool := t.entries.isEmpty

def keys (t : Table α) : List String := t.entries.map (·.1)

def values (t : Table α) : List α := t.entries.map (·.2)

def find? (t : Table α) (key : String) : Option α :=
  (t.entries.find? (·.1 == key)).map (·.2)

def put (key : String) (value : α) : List (String × α) → List (String × α)
  | [] => [(key, value)]
  | e :: es =>
    if key = e.1 then (key, value) :: es
    else if key < e.1 then (key, value) :: e :: es
    else e :: put key value es

def erase (t : Table α) (key : String) : Table α := ⟨t.entries.filter (·.1 != key)⟩

def insert (t : Table α) (key : String) (value : α) : Table α := ⟨put key value t.entries⟩

def ofList (es : List (String × α)) : Table α :=
  es.foldl (fun t e => t.insert e.1 e.2) empty

def map (f : α → β) (t : Table α) : Table β := ⟨t.entries.map fun e => (e.1, f e.2)⟩

theorem find?_put_self (key : String) (value : α) (es : List (String × α)) :
    ((put key value es).find? (·.1 == key)).map (·.2) = some value := by
  induction es with
  | nil => simp [put]
  | cons e es ih =>
    unfold put
    split
    · simp
    · split
      · simp
      · rename_i h _
        have : (e.1 == key) = false := by simpa using fun h' => h h'.symm
        simpa [List.find?_cons, this] using ih

theorem find?_insert_self (t : Table α) (key : String) (value : α) :
    (t.insert key value).find? key = some value := find?_put_self key value t.entries

theorem find?_put_of_ne {key other : String} (h : key ≠ other) (value : α)
    (es : List (String × α)) :
    (put key value es).find? (·.1 == other) = es.find? (·.1 == other) := by
  have hb : (key == other) = false := by simpa using h
  induction es with
  | nil => simp [put, hb]
  | cons e es ih =>
    unfold put
    split
    · rename_i he
      have : (e.1 == other) = false := by rw [← he]; exact hb
      simp [hb, this]
    · split
      · simp [hb]
      · simp [List.find?_cons, ih]

theorem find?_insert_of_ne {key other : String} (h : key ≠ other) (t : Table α) (value : α) :
    (t.insert key value).find? other = t.find? other := by
  simp [Table.find?, insert, find?_put_of_ne h]

end Table

namespace NameSet

def insert (name : String) : List String → List String
  | [] => [name]
  | n :: ns =>
    if name = n then n :: ns else if name < n then name :: n :: ns else n :: insert name ns

def ofList (names : List String) : List String :=
  names.foldl (fun s n => insert n s) []

theorem mem_insert {x name : String} {ns : List String} :
    x ∈ insert name ns ↔ x = name ∨ x ∈ ns := by
  induction ns with
  | nil => simp [insert]
  | cons n ns ih =>
    unfold insert
    split
    · rename_i h; simp [h]
    · split
      · simp
      · simp only [List.mem_cons, ih]
        constructor
        · rintro (h | h | h) <;> simp [h]
        · rintro (h | h | h) <;> simp [h]

theorem mem_ofList {x : String} {names : List String} : x ∈ ofList names ↔ x ∈ names := by
  have : ∀ acc : List String,
      x ∈ names.foldl (fun s n => insert n s) acc ↔ x ∈ acc ∨ x ∈ names := by
    induction names with
    | nil => simp
    | cons n ns ih =>
      intro acc
      simp only [List.foldl_cons, ih, mem_insert, List.mem_cons]
      constructor
      · rintro ((h | h) | h) <;> simp [h]
      · rintro (h | h | h) <;> simp [h]
  simpa [ofList] using this []

end NameSet

end PluginGuard
