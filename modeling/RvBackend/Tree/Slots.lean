import RvBackend.Tree.Basic

/-! # Slots in a tree

`Program.withSlots` writes the slots that a generation has given out into the tables of a tree. They
come in the order in which code is made: function by function, then the body of the program, each
table before the statements that see it. A generation that stopped early has given out fewer slots;
the remaining entries keep theirs, and so do the global ones. -/

namespace RvBackend

/-- The slots that are still to be written. -/
abbrev Slotting := StateM (List Int64)

/-- The entry with the next slot. -/
def Entry.takeSlot (e : Entry) : Slotting Entry :=
  modifyGet fun
    | [] => (e, [])
    | slot :: rest => ({ e with slot }, rest)

/-- The table with the next slots. -/
def takeSlots (scope : Option Table) : Slotting (Option Table) :=
  scope.mapM fun t => return ⟨← t.entries.mapM Entry.takeSlot⟩

mutual

/-- The statement with the next slots in its tables. -/
def Stmt.takeSlots : Stmt → Slotting Stmt
  | .block b => return .block (← b.takeSlots)
  | .branch loc condition yes no => do
    let yes ← blockTakeSlots yes
    let no ← blockTakeSlots no
    return .branch loc condition yes no
  | .loop loc condition body => return .loop loc condition (← blockTakeSlots body)
  | .count loc scope var lower upper body => do
    let scope ← RvBackend.takeSlots scope
    let body ← blockTakeSlots body
    return .count loc scope var lower upper body
  | .print loc target => return .print loc target
  | .read loc target => return .read loc target
  | .assign loc target value => return .assign loc target value
  | .ret loc value => return .ret loc value
  | .call loc callee args => return .call loc callee args

/-- The block with the next slots in its tables. -/
def Block.takeSlots : Block → Slotting Block
  | .mk loc scope decls statements => do
    let scope ← RvBackend.takeSlots scope
    let statements ← statementsTakeSlots statements
    return .mk loc scope decls statements

/-- A block that may be missing, with the next slots in its tables. -/
def blockTakeSlots : Option Block → Slotting (Option Block)
  | none => return none
  | some b => return some (← b.takeSlots)

/-- Statements with the next slots in their tables. -/
def statementsTakeSlots : List Stmt → Slotting (List Stmt)
  | [] => return []
  | s :: ss => do
    let s ← s.takeSlots
    let ss ← statementsTakeSlots ss
    return s :: ss

end

/-- The function with the next slots in its tables. -/
def Function.takeSlots (f : Function) : Slotting Function := do
  let scope ← RvBackend.takeSlots f.scope
  let body ← blockTakeSlots f.body
  return { f with scope, body }

/-- The program with the slots of a generation in its tables. -/
def Program.withSlots (p : Program) (slots : List Int64) : Program :=
  let steps : Slotting Program := do
    let functions ← p.functions.mapM Function.takeSlots
    let body ← blockTakeSlots p.body
    return { p with functions, body }
  (steps.run slots).1

end RvBackend
