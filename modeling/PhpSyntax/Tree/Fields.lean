namespace PhpSyntax

structure Fields (α : Type) where
  entries : List (String × α)
  deriving Inhabited

namespace Fields

variable {α : Type}

def empty : Fields α := ⟨[]⟩

def get? (fs : Fields α) (key : String) : Option α :=
  fs.entries.lookup key

def contains (fs : Fields α) (key : String) : Bool :=
  (fs.get? key).isSome

def keys (fs : Fields α) : List String :=
  fs.entries.map (·.1)

def size (fs : Fields α) : Nat :=
  fs.entries.length

def isEmpty (fs : Fields α) : Bool :=
  fs.entries.isEmpty

def assign (key : String) (value : α) : List (String × α) → List (String × α)
  | [] => []
  | (k, v) :: es => if key == k then (k, value) :: es else (k, v) :: assign key value es

/-- Gives a present key a new value and leaves its place alone. -/
def update (fs : Fields α) (key : String) (value : α) : Fields α :=
  ⟨assign key value fs.entries⟩

/-- Gives a key a value, at its old place if it is present and last otherwise. -/
def insert (fs : Fields α) (key : String) (value : α) : Fields α :=
  if fs.contains key then fs.update key value else ⟨fs.entries ++ [(key, value)]⟩

def remove (key : String) : List (String × α) → List (String × α)
  | [] => []
  | (k, v) :: es => if key == k then es else (k, v) :: remove key es

def erase (fs : Fields α) (key : String) : Fields α :=
  ⟨remove key fs.entries⟩

def insertAll (fs : Fields α) (es : List (String × α)) : Fields α :=
  es.foldl (fun fs (k, v) => fs.insert k v) fs

def extend (fs other : Fields α) : Fields α :=
  fs.insertAll other.entries

def ofEntries (es : List (String × α)) : Fields α :=
  empty.insertAll es

end Fields

end PhpSyntax
