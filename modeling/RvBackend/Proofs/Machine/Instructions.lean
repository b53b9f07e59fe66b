import RvBackend.Lower.Stack
import RvBackend.Proofs.Asm.Listing
import RvBackend.Proofs.Machine.State

/-! # Instructions of a listing

Where lines of code stand in a listing, and what the machine does at each instruction that is
generated.

* `CodeAt code i lines`: the instructions of the lines stand from number `i` on, and their labels
  lead there.
* `advances_addi`, `advances_lw` and so on: one step of the machine. -/

namespace RvBackend.Machine

open Asm (Register Line opsOf placesOf Reads)

/-! ### Lines in a listing -/

/-- The instruction with a number is the one of a mnemonic with operands. -/
def Fetched (code : Listing) (i : ℕ) (m : String) (os : List Asm.Operand) : Prop :=
  ∃ ins, code.instructions[i]? = some ins ∧ Reads ins (m, os)

/-- The number of instructions of lines. -/
def opCount (lines : List Line) : ℕ := (opsOf lines).length

/-- Lines stand in a listing from an instruction on. -/
def CodeAt (code : Listing) (i : ℕ) : List Line → Prop
  | [] => True
  | l :: ls =>
    match l.content with
    | .blank => CodeAt code i ls
    | .label name => code.codeLabels.lookup name = some i ∧ CodeAt code i ls
    | .op m os => Fetched code i m os ∧ CodeAt code (i + 1) ls

variable {code : Listing} {i : ℕ}

theorem opCount_append (ls ls' : List Line) : opCount (ls ++ ls') = opCount ls + opCount ls' := by
  rw [opCount, Asm.opsOf_append, List.length_append]
  rfl

@[simp] theorem opCount_nil : opCount [] = 0 := rfl

@[simp] theorem opCount_remark (text : String) (ls : List Line) :
    opCount (.remark text :: ls) = opCount ls := rfl

@[simp] theorem opCount_label (name : String) (ls : List Line) :
    opCount (.label name :: ls) = opCount ls := rfl

@[simp] theorem opCount_op (m : String) (os : List Asm.Operand) (ls : List Line) :
    opCount (.op m os :: ls) = opCount ls + 1 := rfl

@[simp] theorem opCount_push (r : Asm.Operand) : opCount (Lower.push r) = 2 := rfl

@[simp] theorem opCount_pop (r : Asm.Operand) : opCount (Lower.pop r) = 2 := rfl

@[simp] theorem opCount_discard : opCount Lower.discard = 1 := rfl

theorem codeAt_append (ls' : List Line) : ∀ (ls : List Line) (i : ℕ),
    CodeAt code i (ls ++ ls') ↔ CodeAt code i ls ∧ CodeAt code (i + opCount ls) ls'
  | [], i => by simp [CodeAt]
  | ⟨.blank, _⟩ :: ls, i => codeAt_append ls' ls i
  | ⟨.label name, _⟩ :: ls, i => by
    show code.codeLabels.lookup name = some i ∧ CodeAt code i (ls ++ ls') ↔
      (code.codeLabels.lookup name = some i ∧ CodeAt code i ls) ∧ _
    rw [codeAt_append ls' ls i, and_assoc]
    rfl
  | ⟨.op m os, _⟩ :: ls, i => by
    show Fetched code i m os ∧ CodeAt code (i + 1) (ls ++ ls') ↔
      (Fetched code i m os ∧ CodeAt code (i + 1) ls) ∧ CodeAt code (i + (opCount ls + 1)) ls'
    rw [codeAt_append ls' ls (i + 1), and_assoc, Nat.add_assoc i 1, Nat.add_comm 1]

theorem CodeAt.at {j : ℕ} {ls : List Line} (h : CodeAt code i ls) (hj : j = i) : CodeAt code j ls :=
  hj ▸ h

theorem Fetched.at {j : ℕ} {m : String} {os : List Asm.Operand} (h : Fetched code i m os)
    (hj : j = i) :
    Fetched code j m os := hj ▸ h

/-! ### Steps -/

section

variable {names : Names} {s s' : State} {m : String} {os : List Asm.Operand} {os' : List Operand}
  {op : Operation}

theorem Fetched.advances (h : Fetched code s.pc m os)
    (hos : os.mapM Asm.Operand.translate? = some os') (hop : Operation.decode m os' = .ok op)
    (hstep : step names code s op = (s', .running)) :
    Advances names code s s' := by
  obtain ⟨ins, hins, hreads⟩ := h
  refine ⟨ins, op, hins, ?_, hstep⟩
  have hoperands := hreads.operands
  rw [hos, Option.some.injEq] at hoperands
  rw [hreads.operation, hreads.mnemonic, ← hoperands]
  exact hop

theorem Fetched.traps {t : Trap} (h : Fetched code s.pc m os)
    (hos : os.mapM Asm.Operand.translate? = some os') (hop : Operation.decode m os' = .ok op)
    (hstep : step names code s op = (s', .trapped t)) : Traps names code s m os' t s' := by
  obtain ⟨ins, hins, hreads⟩ := h
  have hoperands := hreads.operands
  rw [hos, Option.some.injEq] at hoperands
  refine ⟨ins, op, hins, hreads.mnemonic, hoperands.symm, ?_, hstep⟩
  rw [hreads.operation, hreads.mnemonic, ← hoperands]
  exact hop

theorem Fetched.halts (h : Fetched code s.pc m os) (hos : os.mapM Asm.Operand.translate? = some os')
    (hop : Operation.decode m os' = .ok op) (hstep : step names code s op = (s', .halted)) :
    Halts names code s s' := by
  obtain ⟨ins, hins, hreads⟩ := h
  refine ⟨ins, op, hins, ?_, hstep⟩
  have hoperands := hreads.operands
  rw [hos, Option.some.injEq] at hoperands
  rw [hreads.operation, hreads.mnemonic, ← hoperands]
  exact hop

end

/-! ### Operands -/

theorem translate_reg {r : String} {ρ : Register} (h : Register.ofName? r = some ρ) :
    (Asm.Operand.reg r).translate? = some (.reg ρ) := by
  rw [Asm.Operand.translate?, h]
  rfl

theorem translate_mem {offset : Int64} {r : String} {ρ : Register}
    (h : Register.ofName? r = some ρ) :
    (Asm.Operand.mem offset r).translate? = some (.mem (Int32.ofInt offset.toInt) ρ) := by
  rw [Asm.Operand.translate?, h]
  rfl

section

variable {o o' o'' : Asm.Operand} {t t' t'' : Operand} (h : o.translate? = some t)
  (h' : o'.translate? = some t') (h'' : o''.translate? = some t'')

include h h'

theorem translate_two : [o, o'].mapM Asm.Operand.translate? = some [t, t'] := by
  simp [List.mapM_cons, h, h']

include h''

theorem translate_three : [o, o', o''].mapM Asm.Operand.translate? = some [t, t', t''] := by
  simp [List.mapM_cons, h, h', h'']

end

/-! ### Instructions -/

section

variable {names : Names} {s : State} {r r' r'' : String} {ρ ρ' ρ'' : Register}
  (hr : Register.ofName? r = some ρ) (hr' : Register.ofName? r' = some ρ')
  (hr'' : Register.ofName? r'' = some ρ'')

include hr

theorem advances_li {n : Int64} (h : Fetched code s.pc "li" [.reg r, .imm n]) :
    Advances names code s (s.setReg ρ (Int32.ofInt n.toInt)).next :=
  h.advances (translate_two (translate_reg hr) rfl) rfl rfl

theorem advances_la {label : String} {a : UInt32}
    (h : Fetched code s.pc "la" [.reg r, .label label])
    (ha : code.dataLabels.lookup label = some a) :
    Advances names code s (s.setReg ρ a.toInt32).next := by
  refine h.advances (translate_two (translate_reg hr) rfl) rfl ?_
  show s.loadAddress code ρ label = _
  rw [State.loadAddress, ha]
  rfl

include hr'

theorem advances_addi {n : Int64} (h : Fetched code s.pc "addi" [.reg r, .reg r', .imm n]) :
    Advances names code s (s.setReg ρ (s.reg ρ' + Int32.ofInt n.toInt)).next :=
  h.advances (translate_three (translate_reg hr) (translate_reg hr') rfl) rfl rfl

theorem advances_xori {n : Int64} (h : Fetched code s.pc "xori" [.reg r, .reg r', .imm n]) :
    Advances names code s (s.setReg ρ (s.reg ρ' ^^^ Int32.ofInt n.toInt)).next :=
  h.advances (translate_three (translate_reg hr) (translate_reg hr') rfl) rfl rfl

theorem advances_unary {m : String} {op : UnaryOp}
    (hm : ∀ os, Operation.decode m os = Operation.ofUnary op os)
    (h : Fetched code s.pc m [.reg r, .reg r']) :
    Advances names code s (s.setReg ρ (op.apply (s.reg ρ'))).next :=
  h.advances (translate_two (translate_reg hr) (translate_reg hr')) (hm _) rfl

theorem advances_lw {offset : Int64} {a : Int32}
    (h : Fetched code s.pc "lw" [.reg r, .mem offset r'])
    (ha : s.reg ρ' + Int32.ofInt offset.toInt = a) (haligned : 4 ∣ a.toInt) :
    Advances names code s (s.setReg ρ (s.cell a)).next := by
  refine h.advances (translate_two (translate_reg hr) (translate_mem hr')) rfl ?_
  show s.load ρ (s.reg ρ' + Int32.ofInt offset.toInt).toUInt32 = _
  rw [ha, State.load, if_pos (aligned_of_dvd haligned)]
  rfl

theorem advances_sw {offset : Int64} {a : Int32}
    (h : Fetched code s.pc "sw" [.reg r, .mem offset r'])
    (ha : s.reg ρ' + Int32.ofInt offset.toInt = a) (haligned : 4 ∣ a.toInt) :
    Advances names code s (s.poke a (s.reg ρ)).next := by
  refine h.advances (translate_two (translate_reg hr) (translate_mem hr')) rfl ?_
  show s.store ρ (s.reg ρ' + Int32.ofInt offset.toInt).toUInt32 = _
  rw [ha, State.store, if_pos (aligned_of_dvd haligned)]
  rfl

include hr''

theorem advances_binary {m : String} {op : BinaryOp}
    (hm : ∀ os, Operation.decode m os = Operation.ofBinary op os)
    (h : Fetched code s.pc m [.reg r, .reg r', .reg r'']) :
    Advances names code s (s.setReg ρ (op.apply (s.reg ρ') (s.reg ρ''))).next :=
  h.advances (translate_three (translate_reg hr) (translate_reg hr') (translate_reg hr'')) (hm _)
    rfl

end

/-! ### Jumps -/

section

variable {names : Names} {s : State} {label : String} {target : ℕ}

theorem advances_j (h : Fetched code s.pc "j" [.label label])
    (ht : code.codeLabels.lookup label = some target) :
    Advances names code s { s with pc := target } := by
  have hos : [Asm.Operand.label label].mapM Asm.Operand.translate? = some [.label label] := rfl
  refine h.advances hos rfl ?_
  show s.goTo code label = _
  rw [State.goTo, ht]

/-- A branch on a register that is zero. -/
theorem advances_beqz {r : String} {ρ : Register} (hr : Register.ofName? r = some ρ)
    (h : Fetched code s.pc "beqz" [.reg r, .label label])
    (ht : code.codeLabels.lookup label = some target) :
    Advances names code s (if s.reg ρ = 0 then { s with pc := target } else s.next) := by
  refine h.advances (translate_two (translate_reg hr) rfl) rfl ?_
  show (if Condition.holds (s.reg ρ) 0 .eq = true then s.goTo code label else (s.next, .running)) =
    _
  simp only [Condition.holds, beq_iff_eq]
  split
  · rw [State.goTo, ht]
  · rfl

theorem advances_beq {r r' : String} {ρ ρ' : Register} (hr : Register.ofName? r = some ρ)
    (hr' : Register.ofName? r' = some ρ')
    (h : Fetched code s.pc "beq" [.reg r, .reg r', .label label])
    (ht : code.codeLabels.lookup label = some target) :
    Advances names code s (if s.reg ρ = s.reg ρ' then { s with pc := target } else s.next) := by
  refine h.advances (translate_three (translate_reg hr) (translate_reg hr') rfl) rfl ?_
  show (if Condition.holds (s.reg ρ) (s.reg ρ') .eq = true then s.goTo code label
    else (s.next, .running)) = _
  simp only [Condition.holds, beq_iff_eq]
  split
  · rw [State.goTo, ht]
  · rfl

end

/-! ### Calls -/

section

variable {names : Names} {s : State} {label : String} {r : String} {ρ : Register}
  (hr : Register.ofName? r = some ρ)

include hr

/-- The helper that prints goes on behind the call if the output has room. -/
theorem advances_print (h : Fetched code s.pc "jal" [.reg r, .label names.printHelper])
    {output : Sink}
    (hwrite : s.output.write (Text.decimal (s.reg Register.a0).toInt ++ "\n") = (output, true)) :
    Advances names code s (({ s with output }.setReg ρ (codeAddress (s.pc + 1))).next) := by
  refine h.advances (translate_two (translate_reg hr) rfl) rfl ?_
  show s.callLabel names code ρ names.printHelper = _
  rw [State.callLabel, if_pos rfl, State.printInteger, hwrite]
  rfl

theorem traps_print (h : Fetched code s.pc "jal" [.reg r, .label names.printHelper]) {output : Sink}
    (hwrite : s.output.write (Text.decimal (s.reg Register.a0).toInt ++ "\n") = (output, false)) :
    Traps names code s "jal" [.reg ρ, .label names.printHelper] .outputFull { s with output } := by
  refine h.traps (translate_two (translate_reg hr) rfl) rfl ?_
  show s.callLabel names code ρ names.printHelper = _
  rw [State.callLabel, if_pos rfl, State.printInteger, hwrite]
  rfl

/-- The helper that reads goes on behind the call if there is an integer. -/
theorem advances_read (h : Fetched code s.pc "jal" [.reg r, .label names.readHelper])
    (hne : names.readHelper ≠ names.printHelper) {v : Int32} {input : Input}
    (hread : s.input.nextInteger = (.ok v, input)) :
    Advances names code s
      ((({ s with input }.setReg Register.a0 v).setReg ρ (codeAddress (s.pc + 1))).next) := by
  refine h.advances (translate_two (translate_reg hr) rfl) rfl ?_
  show s.callLabel names code ρ names.readHelper = _
  rw [State.callLabel, if_neg hne, if_pos rfl, State.readInteger, hread]
  rfl

theorem traps_read (h : Fetched code s.pc "jal" [.reg r, .label names.readHelper])
    (hne : names.readHelper ≠ names.printHelper) {fault : InputFault} {input : Input}
    (hread : s.input.nextInteger = (.error fault, input)) :
    Traps names code s "jal" [.reg ρ, .label names.readHelper] (.input fault) { s with input } := by
  refine h.traps (translate_two (translate_reg hr) rfl) rfl ?_
  show s.callLabel names code ρ names.readHelper = _
  rw [State.callLabel, if_neg hne, if_pos rfl, State.readInteger, hread]
  rfl

section

variable (h : Fetched code s.pc "jal" [.reg r, .label label]) (hprint : label ≠ names.printHelper)
  (hread : label ≠ names.readHelper)

include h hprint hread

theorem advances_jal {target : ℕ} (ht : code.codeLabels.lookup label = some target) :
    Advances names code s { s.setReg ρ (codeAddress (s.pc + 1)) with pc := target } := by
  refine h.advances (translate_two (translate_reg hr) rfl) rfl ?_
  show s.callLabel names code ρ label = _
  rw [State.callLabel, if_neg hprint, if_neg hread, ht]

theorem traps_jal (ht : code.codeLabels.lookup label = none) :
    Traps names code s "jal" [.reg ρ, .label label] (.unknownSymbol label) s := by
  refine h.traps (translate_two (translate_reg hr) rfl) rfl ?_
  show s.callLabel names code ρ label = _
  rw [State.callLabel, if_neg hprint, if_neg hread, ht]
  rfl

end

theorem advances_jr (h : Fetched code s.pc "jr" [.reg r]) {target : ℕ}
    (hhalt : s.reg ρ ≠ haltAddress) (ht : codeIndex? (s.reg ρ) = some target) :
    Advances names code s { s with pc := target } := by
  have hos : [Asm.Operand.reg r].mapM Asm.Operand.translate? = some [.reg ρ] := by
    simp [List.mapM_cons, translate_reg hr]
  refine h.advances hos rfl ?_
  show s.jumpTo ρ = _
  rw [State.jumpTo, if_neg hhalt, ht]

theorem halts_jr (h : Fetched code s.pc "jr" [.reg r]) (hhalt : s.reg ρ = haltAddress) :
    Halts names code s s := by
  have hos : [Asm.Operand.reg r].mapM Asm.Operand.translate? = some [.reg ρ] := by
    simp [List.mapM_cons, translate_reg hr]
  refine h.halts hos rfl ?_
  show s.jumpTo ρ = _
  rw [State.jumpTo, if_pos hhalt]

end

end RvBackend.Machine
