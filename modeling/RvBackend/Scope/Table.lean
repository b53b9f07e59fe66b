import RvBackend.Scope.Entry

/-! # Scopes

A `Table` holds the entries of one scope in the order of their declarations. A name that is declared
again hides the earlier declaration from look-ups, and both keep their places. `Scopes` are the
tables that are visible at one place of a program, the innermost first. -/

namespace RvBackend

/-- The entries of one scope in declaration order. -/
structure Table where
  entries : List Entry := []
deriving DecidableEq, Repr

namespace Table

/-- One more declaration. -/
def add (t : Table) (e : Entry) : Table := ⟨t.entries ++ [e]⟩

/-- The last entry of that name. -/
def find? (t : Table) (name : String) : Option Entry := t.entries.reverse.find? (·.name == name)

/-- The entries of a scope that may have no table. -/
def entriesOf (t : Option Table) : List Entry := (t.map Table.entries).getD []

end Table

/-- The tables visible at one place, the innermost first. -/
abbrev Scopes := List Table

/-- The entry that a name stands for: the last one of the innermost table that declares it. -/
def Scopes.find? (s : Scopes) (name : String) : Option Entry := s.findSome? (·.find? name)

/-- The tables visible inside a scope that may have no table. -/
def Scopes.enter (s : Scopes) (t : Option Table) : Scopes := t.toList ++ s

end RvBackend
