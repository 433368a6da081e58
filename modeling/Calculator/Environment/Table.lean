/-!
# Calculator.Environment.Table

Tables of what an environment itself says about names: a value, or that the name has been removed.
A table is a list of entries with distinct names.
-/

namespace Calculator

/-- What a table says about a name. -/
inductive Entry (α : Type) where
  | value (a : α)
  | removed
  deriving DecidableEq, Repr

/-- The value that an entry leaves visible. -/
def Entry.visible? {α : Type} : Entry α → Option α
  | value a => some a
  | removed => none

abbrev Table (α : Type) := List (String × Entry α)

namespace Table

variable {α : Type}

/-- What the table says about a name, if it says anything. -/
def find? (key : String) : Table α → Option (Entry α)
  | [] => none
  | (other, entry) :: rest => if other = key then some entry else find? key rest

/-- The table with a new entry for a name. -/
def set (key : String) (entry : Entry α) : Table α → Table α
  | [] => [(key, entry)]
  | (other, old) :: rest =>
    if other = key then (key, entry) :: rest else (other, old) :: set key entry rest

/-- The table that says nothing about a name. -/
def erase (key : String) : Table α → Table α
  | [] => []
  | (other, entry) :: rest =>
    if other = key then erase key rest else (other, entry) :: erase key rest

/-- The names visible below, changed by what the table says. -/
def override (below : List String) : Table α → List String
  | [] => below
  | (key, .value _) :: rest =>
    override (if below.contains key then below else below ++ [key]) rest
  | (key, .removed) :: rest => override (below.filter (· != key)) rest

end Table
end Calculator
