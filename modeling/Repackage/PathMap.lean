/-!
Values by path, in the order of the paths. Paths compare by code points.
-/

namespace Repackage

structure PathMap (α : Type) where
  entries : List (String × α) := []

namespace PathMap

variable {α : Type}

def find? (map : PathMap α) (path : String) : Option α :=
  map.entries.lookup path

def contains (map : PathMap α) (path : String) : Bool :=
  (map.find? path).isSome

/-- The entries with one for `path`, in place of its old one or where it belongs. -/
def insertInto (path : String) (value : α) : List (String × α) → List (String × α)
  | [] => [(path, value)]
  | (p, v) :: rest =>
      if p = path then (path, value) :: rest
      else if path < p then (path, value) :: (p, v) :: rest
      else (p, v) :: insertInto path value rest

def insert (map : PathMap α) (path : String) (value : α) : PathMap α :=
  ⟨insertInto path value map.entries⟩

def ofList (entries : List (String × α)) : PathMap α :=
  entries.foldl (fun map entry => map.insert entry.1 entry.2) {}

def keys (map : PathMap α) : List String :=
  map.entries.map (·.1)

end PathMap
end Repackage
