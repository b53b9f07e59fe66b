import RvBackend.Scope.Table
import Std.Data.HashMap

/-! # Chains of open scopes

Scopes are entered and left one inside the other, and a scope is left only through the table it was
entered with. Tables are told apart by identity, not by their entries: a table that is emptied by
`renew` is a new table, while places without a table are all alike. Entries can be added to a table
while it is open, also if it is open more than once.

* `Indexed` is a table that can grow: its entries in order, and the entry that each name stands for.
* `Chain.enter` and `Chain.exit` open and close a scope.
* `Chain.lookup` finds the entry a name stands for, from the innermost scope outward. -/

namespace RvBackend

/-- The entry that each name stands for. -/
abbrev NameMap := Std.HashMap String Entry

/-- A table that can grow. Look-ups go through the names; the entries keep the order of the
declarations, also of those that are hidden. -/
structure Indexed where
  entries : List Entry := []
  /-- The last entry of each name; there is no map before the first declaration, unless the table
  was made with one. -/
  names : Option NameMap := none

namespace Indexed

/-- One more declaration. -/
def add (t : Indexed) (e : Entry) : Indexed where
  entries := t.entries ++ [e]
  names := some ((t.names.getD {}).insert e.name e)

/-- The entry that a name stands for. -/
def find? (t : Indexed) (name : String) : Option Entry := t.names.bind (·[name]?)

/-- The declarations of a scope, added one by one. -/
def ofTable (t : Table) : Indexed := t.entries.foldl add { names := some {} }

end Indexed

/-- The tables at hand, by index, and the chain of the open ones. -/
structure Chain where
  /-- The table at each index, by its number in `store`; `none` where there is no table. -/
  tables : List (Option Nat) := []
  /-- The contents of every table there has been. -/
  store : List Indexed := []
  /-- The open scopes, the innermost first. -/
  frames : List (Option Nat) := []

/-- Why a step on a chain is refused. -/
inductive ChainError where
  | nothingOpen
  | unbalanced (depth : Nat)
  /-- The index has no table to work on. -/
  | noTable
deriving DecidableEq, Repr

/-- The wording of a refusal; a missing table has none. -/
def ChainError.message? : ChainError → Option String
  | .nothingOpen => some "symbols: Exit called on an empty scope chain"
  | .unbalanced depth =>
    some ("symbols: unbalanced scope exit (depth " ++ Text.decimal depth ++ ")")
  | .noTable => none

namespace Chain

/-- One more table at hand, with a number of its own. -/
def place (c : Chain) : Option Table → Chain
  | none => { c with tables := c.tables ++ [none] }
  | some t =>
    { c with tables := c.tables ++ [some c.store.length], store := c.store ++ [.ofTable t] }

/-- No scope is open, and the tables are at hand in this order. -/
def ofTables (ts : List (Option Table)) : Chain := ts.foldl place {}

/-- How many scopes are open. -/
def depth (c : Chain) : Nat := c.frames.length

/-- The number of the table at an index; the index must be one of the chain's. -/
def table (c : Chain) (i : Int) : Except ChainError (Option Nat) :=
  match i with
  | .ofNat n => c.tables[n]?.elim (.error .noTable) .ok
  | .negSucc _ => .error .noTable

/-- Opens the table at an index. -/
def enter (c : Chain) (i : Int) : Except ChainError Chain := do
  return { c with frames := (← c.table i) :: c.frames }

/-- Closes the innermost scope, which must be the table at that index. -/
def exit (c : Chain) (i : Int) : Except ChainError Chain := do
  let t ← c.table i
  match c.frames with
  | [] => throw .nothingOpen
  | innermost :: outer =>
    if innermost = t then return { c with frames := outer } else throw (.unbalanced c.depth)

/-- The entries of the table with a number; none where there is no table. -/
def entriesOf (c : Chain) (t : Option Nat) : List Entry :=
  ((t.bind (c.store[·]?)).map Indexed.entries).getD []

/-- The entries of the table at an index. -/
def entries (c : Chain) (i : Int) : Except ChainError (List Entry) := do
  return c.entriesOf (← c.table i)

/-- One more declaration in the table at an index, open or not. -/
def add (c : Chain) (i : Int) (e : Entry) : Except ChainError Chain := do
  match ← c.table i with
  | none => throw .noTable
  | some n => return { c with store := c.store.modify n (·.add e) }

/-- Puts a new, empty table at an index. -/
def renew (c : Chain) (i : Int) : Except ChainError Chain := do
  let _ ← c.table i
  return { c with tables := c.tables.set i.toNat (some c.store.length), store := c.store ++ [{}] }

/-- The entry of a name in the table with a number; none where there is no table. -/
def findIn (c : Chain) (name : String) (t : Option Nat) : Option Entry :=
  (t.bind (c.store[·]?)).bind (·.find? name)

/-- The innermost visible entry of a name. -/
def lookup (c : Chain) (name : String) : Option Entry := c.frames.findSome? (c.findIn name)

end Chain

end RvBackend
