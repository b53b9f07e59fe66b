import Mathlib.Tactic
import RvBackend.Machine.Run

/-! # Instructions by their texts

The operation of an instruction is found once, when it is read. Here is the machine that does
without: it looks at the mnemonic each time, takes the operands by their positions and their kinds,
finds registers by number, and cuts mnemonics to find the operation in them. It has places where it
cannot go on, and is undefined there: an operand or a register that is not there, a text that names
no operation, a quotient that is no word.

* `perform?` carries out an instruction by its text, and `run?` runs a listing that way.
* `run?_eq`: if the operations of a listing are those of its texts, the two machines do the same. So
  none of those places is ever reached. -/

namespace RvBackend.Machine.Dispatch

open Asm (Register)

/-! ### Operands without a shape -/

/-- The kinds of operands. -/
inductive OperandKind where
  | reg
  | imm
  | mem
  | label
deriving DecidableEq

/-- An operand as its kind, with the number of a register, a constant and a name that only some
kinds have. -/
structure PlainOperand where
  kind : OperandKind
  reg : ℕ := 0
  imm : Int32 := 0
  label : String := ""

/-- The operand without its shape. -/
def plain : Operand → PlainOperand
  | .reg r => { kind := .reg, reg := r.val }
  | .imm n => { kind := .imm, imm := n }
  | .mem offset base => { kind := .mem, reg := base.val, imm := offset }
  | .label name => { kind := .label, label := name }

/-- The first operand of another kind than it should be, from a number on. -/
def wrongKind? (number : ℕ) : List PlainOperand → List OperandKind → Option Malformed
  | o :: os, k :: ks => if o.kind = k then wrongKind? (number + 1) os ks else some (.kind number)
  | _, _ => none

/-- What is wrong with operands that should be of those kinds. -/
def fault? (os : List PlainOperand) (kinds : List OperandKind) : Option Malformed :=
  if os.length ≠ kinds.length then some (.count kinds.length os.length) else wrongKind? 1 os kinds

/-- Goes on if the operands are of those kinds. -/
def checked (s : State) (os : List PlainOperand) (kinds : List OperandKind)
    (rest : Option (State × Outcome)) :
    Option (State × Outcome) :=
  match fault? os kinds with
  | some m => some (s.trap (.malformed m))
  | none => rest

/-! ### What may not be there -/

/-- The word of the register with a number, of which there are 32. -/
def word? (s : State) (number : ℕ) : Option Int32 :=
  if h : number < 32 then some (s.reg ⟨number, h⟩) else none

/-- Puts a word into the register with a number. -/
def put? (s : State) (number : ℕ) (v : Int32) : Option (State × Outcome) :=
  if h : number < 32 then some (s.put ⟨number, h⟩ v) else none

/-- A division of words, if its result is one. -/
def divided? (divide : Int32 → Int32 → Int32) (a b : Int32) : Option Int32 :=
  if b = 0 ∨ a = Int32.minValue ∧ b = -1 then none else some (divide a b)

/-- The operation on one word that a text names. -/
def unary? (m : String) (a : Int32) : Option Int32 :=
  match m with
  | "mv" => some a
  | "neg" => some (-a)
  | "not" => some (~~~a)
  | "seqz" => some (boolWord (a == 0))
  | "snez" => some (boolWord (a != 0))
  | "sltz" => some (boolWord (a < 0))
  | "sgtz" => some (boolWord (0 < a))
  | _ => none

/-- The operation on two words that a text names. -/
def binary? (m : String) (a b : Int32) : Option Int32 :=
  match m with
  | "add" => some (a + b)
  | "sub" => some (a - b)
  | "mul" => some (a * b)
  | "div" =>
    if b = 0 then some (-1)
    else if a = Int32.minValue ∧ b = -1 then some a
    else divided? (· / ·) a b
  | "rem" =>
    if b = 0 then some a
    else if a = Int32.minValue ∧ b = -1 then some 0
    else divided? (· % ·) a b
  | "and" => some (a &&& b)
  | "or" => some (a ||| b)
  | "xor" => some (a ^^^ b)
  | "slt" => some (boolWord (a < b))
  | "sll" => some (a <<< (b &&& 31))
  | "sra" => some (a >>> (b &&& 31))
  | _ => none

/-- Whether the condition that a text names holds of two words. -/
def condition? (m : String) (a b : Int32) : Option Bool :=
  match m with
  | "beq" => some (a == b)
  | "bne" => some (a != b)
  | "blt" => some (a < b)
  | "bge" => some (b ≤ a)
  | _ => none

/-! ### One instruction -/

/-- The mnemonics of the operations on one word. -/
def unaryNames : List String := ["mv", "neg", "not", "seqz", "snez", "sltz", "sgtz"]

/-- The mnemonics of the operations on two registers. -/
def binaryNames : List String :=
  ["add", "sub", "mul", "div", "rem", "and", "or", "xor", "slt", "sll", "sra"]

/-- The mnemonics of the operations on a register and a constant. -/
def immediateNames : List String := ["addi", "andi", "ori", "xori", "slti"]

/-- The mnemonics of the branches on one register. -/
def branchZeroNames : List String := ["beqz", "bnez", "bltz", "bgez"]

/-- The mnemonics of the branches on two registers. -/
def branchNames : List String := ["beq", "bne", "blt", "bge"]

/-- The link register and the label of a call. -/
def callee? (os : List PlainOperand) : Option (Option (ℕ × String)) :=
  if os.length = 1 ∧ os.head?.map PlainOperand.kind = some .label then do
    let label ← os[0]?
    return some (1, label.label)
  else if fault? os [.reg, .label] = none then do
    let link ← os[0]?
    let label ← os[1]?
    return some (link.reg, label.label)
  else some none

section

variable (names : Names) (code : Listing) (s : State) (m : String) (os : List PlainOperand)

def putNumber? : Option (State × Outcome) :=
  checked s os [.reg, .imm] do put? s (← os[0]?).reg (← os[1]?).imm

def putAddress? : Option (State × Outcome) :=
  checked s os [.reg, .label] do
    let rd ← os[0]?
    let label ← os[1]?
    match code.dataLabels.lookup label.label with
    | some addr => put? s rd.reg addr.toInt32
    | none => some (s.trap (.unknownSymbol label.label))

def onRegister? : Option (State × Outcome) :=
  checked s os [.reg, .reg] do put? s (← os[0]?).reg (← unary? m (← word? s (← os[1]?).reg))

def onRegisters? : Option (State × Outcome) :=
  checked s os [.reg, .reg, .reg] do
    put? s (← os[0]?).reg (← binary? m (← word? s (← os[1]?).reg) (← word? s (← os[2]?).reg))

/-- The operation is the mnemonic without its last letter. -/
def onConstant? : Option (State × Outcome) :=
  checked s os [.reg, .reg, .imm] do
    put? s (← os[0]?).reg
      (← binary? (String.ofList m.toList.dropLast) (← word? s (← os[1]?).reg) (← os[2]?).imm)

def load? : Option (State × Outcome) :=
  checked s os [.reg, .mem] do
    let rd ← os[0]?
    let place ← os[1]?
    let addr := ((← word? s place.reg) + place.imm).toUInt32
    if addr % 4 = 0 then put? s rd.reg (s.word addr) else some (s.trap (.badLoad addr))

def store? : Option (State × Outcome) :=
  checked s os [.reg, .mem] do
    let rs ← os[0]?
    let place ← os[1]?
    let addr := ((← word? s place.reg) + place.imm).toUInt32
    let v ← word? s rs.reg
    if addr % 4 = 0 then some ({ s with memory := s.memory.insert addr v }.next, .running)
    else some (s.trap (.badStore addr))

def jump? : Option (State × Outcome) :=
  checked s os [.label] do return s.goTo code (← os[0]?).label

def call? : Option (State × Outcome) := do
  match ← callee? os with
  | none => some (s.trap (.malformed .call))
  | some (link, label) =>
    if h : link < 32 then some (s.callLabel names code ⟨link, h⟩ label) else none

def jumpRegister? : Option (State × Outcome) :=
  checked s os [.reg] do
    let r ← os[0]?
    if h : r.reg < 32 then some (s.jumpTo ⟨r.reg, h⟩) else none

/-- Goes to a label if the condition holds. -/
def goIf (label : String) (holds : Bool) : State × Outcome :=
  if holds then s.goTo code label else (s.next, .running)

/-- The condition is what the first three letters name. -/
def branchZero? : Option (State × Outcome) :=
  checked s os [.reg, .label] do
    let label ← os[1]?
    return goIf code s label.label
      (← condition? (String.ofList (m.toList.take 3)) (← word? s (← os[0]?).reg) 0)

def branch? : Option (State × Outcome) :=
  checked s os [.reg, .reg, .label] do
    let label ← os[2]?
    return goIf code s label.label
      (← condition? m (← word? s (← os[0]?).reg) (← word? s (← os[1]?).reg))

/-- Carries out an instruction by its mnemonic and its operands. -/
def perform? : Option (State × Outcome) :=
  if m = "nop" then some (s.next, .running)
  else if m = "li" then putNumber? s os
  else if m = "la" then putAddress? code s os
  else if m ∈ unaryNames then onRegister? s m os
  else if m ∈ binaryNames then onRegisters? s m os
  else if m ∈ immediateNames then onConstant? s m os
  else if m = "lw" then load? s os
  else if m = "sw" then store? s os
  else if m = "j" then jump? code s os
  else if m = "jal" ∨ m = "call" then call? names code s os
  else if m = "jr" then jumpRegister? s os
  else if m = "ret" then some (s.jumpTo Register.ra)
  else if m ∈ branchZeroNames then branchZero? code s m os
  else if m ∈ branchNames then branch? code s m os
  else some (s.trap (.malformed .unsupported))

end

/-- At most that many more steps. -/
def runSteps? (options : Options) (code : Listing) (s : State) (steps : ℕ) : ℕ → Option Run
  | 0 => some ⟨.error (.stepLimit options.maxSteps), steps, s⟩
  | left + 1 =>
    if code.instructions.size ≤ s.pc then some ⟨.error (.outside s.pc), steps, s⟩
    else do
      let i ← code.instructions[s.pc]?
      match ← perform? options.names code s i.mnemonic (i.operands.map plain) with
      | (s, .running) => runSteps? options code s (steps + 1) left
      | (s, .halted) => some ⟨.ok s.exit, steps + 1, s⟩
      | (s, .trapped t) => some ⟨.error (.trap i.line i.mnemonic t), steps + 1, s⟩

/-- A run of a listing from its entry. -/
def run? (options : Options) (code : Listing) (s : State) : Option Run :=
  match code.codeLabels.lookup options.names.entry with
  | none => some ⟨.error (.unknownEntry options.names.entry), 0, s⟩
  | some pc => runSteps? options code (s.start pc) 0 options.maxSteps

/-! ### Names of operations -/

/-- The mnemonic of an operation on one word. -/
def unaryName : UnaryOp → String
  | .mv => "mv"
  | .neg => "neg"
  | .not => "not"
  | .seqz => "seqz"
  | .snez => "snez"
  | .sltz => "sltz"
  | .sgtz => "sgtz"

/-- The mnemonic of an operation on two words. -/
def binaryName : BinaryOp → String
  | .add => "add"
  | .sub => "sub"
  | .mul => "mul"
  | .div => "div"
  | .rem => "rem"
  | .and => "and"
  | .or => "or"
  | .xor => "xor"
  | .slt => "slt"
  | .sll => "sll"
  | .sra => "sra"

/-- The mnemonic of a branch. -/
def branchName : Condition → String
  | .eq => "beq"
  | .ne => "bne"
  | .lt => "blt"
  | .ge => "bge"

theorem unary?_name (op : UnaryOp) (a : Int32) : unary? (unaryName op) a = some (op.apply a) := by
  cases op <;> rfl

theorem binary?_name (op : BinaryOp) (a b : Int32) :
    binary? (binaryName op) a b = some (op.apply a b) := by
  cases op with
  | div => simp only [binaryName, binary?, BinaryOp.apply, quotient, divided?]; grind
  | rem => simp only [binaryName, binary?, BinaryOp.apply, remainder, divided?]; grind
  | _ => rfl

theorem condition?_name (c : Condition) (a b : Int32) :
    condition? (branchName c) a b = some (c.holds a b) := by
  cases c <;> rfl

/-! ### Operands by kind -/

/-- The operands of a kind are those that a constructor makes, and all others are refused. -/
structure Sorts {α : Type} (k : OperandKind) (f : ℕ → Operand → Except Malformed α)
    (c : α → Operand) : Prop where
  kind (x : α) : (plain (c x)).kind = k
  ok (number : ℕ) (x : α) : f number (c x) = .ok x
  other (number : ℕ) (o : Operand) : (∃ x, o = c x) ∨ (plain o).kind ≠ k ∧
    f number o = .error (.kind number)

theorem sorts_reg : Sorts .reg Operand.asReg .reg where
  kind _ := rfl
  ok _ _ := rfl
  other number o := by cases o <;> simp [plain, Operand.asReg]

theorem sorts_imm : Sorts .imm Operand.asImm .imm where
  kind _ := rfl
  ok _ _ := rfl
  other number o := by cases o <;> simp [plain, Operand.asImm]

theorem sorts_mem : Sorts .mem Operand.asMem fun place => .mem place.1 place.2 where
  kind _ := rfl
  ok _ _ := rfl
  other number o := by cases o <;> simp [plain, Operand.asMem]

theorem sorts_label : Sorts .label Operand.asLabel .label where
  kind _ := rfl
  ok _ _ := rfl
  other number o := by cases o <;> simp [plain, Operand.asLabel]

/-- What the machine does with an instruction that stands for an operation, or for none. -/
def carry (names : Names) (code : Listing) (s : State) :
    Except Malformed Operation → State × Outcome
  | .ok op => step names code s op
  | .error m => s.trap (.malformed m)

section

variable {α β γ : Type} {k k' k'' : OperandKind} {f : ℕ → Operand → Except Malformed α}
  {g : ℕ → Operand → Except Malformed β} {h : ℕ → Operand → Except Malformed γ} {c : α → Operand}
  {c' : β → Operand} {c'' : γ → Operand} {names : Names} {code : Listing} {s : State}
  {os : List Operand} {rest : Option (State × Outcome)}

theorem checked_one (hf : Sorts k f c) {F : α → Operation}
    (hrest : ∀ x, os = [c x] → rest = some (step names code s (F x))) :
    checked s (os.map plain) [k] rest = some (carry names code s do return F (← one f os)) := by
  rcases os with _ | ⟨a, _ | ⟨b, os⟩⟩
  · rfl
  · obtain ⟨x, rfl⟩ | ⟨ha, hfa⟩ := hf.other 1 a
    · have hfault : fault? ([c x].map plain) [k] = none := by simp [fault?, wrongKind?, hf.kind]
      rw [checked, hfault, one, hf.ok]
      exact hrest x rfl
    · have hfault : fault? ([a].map plain) [k] = some (.kind 1) := by simp [fault?, wrongKind?, ha]
      rw [checked, hfault, one, hfa]
      rfl
  · have hfault : fault? ((a :: b :: os).map plain) [k] = some (.count 1 (os.length + 2)) := by
      simp [fault?]
    rw [checked, hfault]
    rfl

theorem checked_two (hf : Sorts k f c) (hg : Sorts k' g c') {F : α → β → Operation}
    (hrest : ∀ x y, os = [c x, c' y] → rest = some (step names code s (F x y))) :
    checked s (os.map plain) [k, k'] rest = some (carry names code s do
      let p ← two f g os
      return F p.1 p.2) := by
  rcases os with _ | ⟨a, _ | ⟨b, _ | ⟨d, os⟩⟩⟩
  · rfl
  · rfl
  · obtain ⟨x, rfl⟩ | ⟨ha, hfa⟩ := hf.other 1 a
    · obtain ⟨y, rfl⟩ | ⟨hb, hgb⟩ := hg.other 2 b
      · have hfault : fault? ([c x, c' y].map plain) [k, k'] = none := by
          simp [fault?, wrongKind?, hf.kind, hg.kind]
        rw [checked, hfault, two, hf.ok, hg.ok]
        exact hrest x y rfl
      · have hfault : fault? ([c x, b].map plain) [k, k'] = some (.kind 2) := by
          simp [fault?, wrongKind?, hf.kind, hb]
        rw [checked, hfault, two, hf.ok, hgb]
        rfl
    · have hfault : fault? ([a, b].map plain) [k, k'] = some (.kind 1) := by
        simp [fault?, wrongKind?, ha]
      rw [checked, hfault, two, hfa]
      rfl
  · have hfault : fault? ((a :: b :: d :: os).map plain) [k, k'] =
      some (.count 2 (os.length + 3)) := by simp [fault?]
    rw [checked, hfault]
    rfl

theorem checked_three (hf : Sorts k f c) (hg : Sorts k' g c') (hh : Sorts k'' h c'')
    {F : α → β → γ → Operation}
    (hrest : ∀ x y z, os = [c x, c' y, c'' z] → rest = some (step names code s (F x y z))) :
    checked s (os.map plain) [k, k', k''] rest = some (carry names code s do
      let p ← three f g h os
      return F p.1 p.2.1 p.2.2) := by
  rcases os with _ | ⟨a, _ | ⟨b, _ | ⟨d, _ | ⟨e, os⟩⟩⟩⟩
  · rfl
  · rfl
  · rfl
  · obtain ⟨x, rfl⟩ | ⟨ha, hfa⟩ := hf.other 1 a
    · obtain ⟨y, rfl⟩ | ⟨hb, hgb⟩ := hg.other 2 b
      · obtain ⟨z, rfl⟩ | ⟨hd, hhd⟩ := hh.other 3 d
        · have hfault : fault? ([c x, c' y, c'' z].map plain) [k, k', k''] = none := by
            simp [fault?, wrongKind?, hf.kind, hg.kind, hh.kind]
          rw [checked, hfault, three, hf.ok, hg.ok, hh.ok]
          exact hrest x y z rfl
        · have hfault : fault? ([c x, c' y, d].map plain) [k, k', k''] = some (.kind 3) := by
            simp [fault?, wrongKind?, hf.kind, hg.kind, hd]
          rw [checked, hfault, three, hf.ok, hg.ok, hhd]
          rfl
      · have hfault : fault? ([c x, b, d].map plain) [k, k', k''] = some (.kind 2) := by
          simp [fault?, wrongKind?, hf.kind, hb]
        rw [checked, hfault, three, hf.ok, hgb]
        rfl
    · have hfault : fault? ([a, b, d].map plain) [k, k', k''] = some (.kind 1) := by
        simp [fault?, wrongKind?, ha]
      rw [checked, hfault, three, hfa]
      rfl
  · have hfault : fault? ((a :: b :: d :: e :: os).map plain) [k, k', k''] =
        some (.count 3 (os.length + 4)) := by
      simp [fault?]
    rw [checked, hfault]
    rfl

end

/-! ### Mnemonics -/

section

variable {m : String}

theorem exists_of_mem_unaryNames (h : m ∈ unaryNames) :
    ∃ op, m = unaryName op ∧ ∀ os, Operation.decode m os = Operation.ofUnary op os := by
  simp only [unaryNames, List.mem_cons, List.not_mem_nil, or_false] at h
  obtain rfl | rfl | rfl | rfl | rfl | rfl | rfl := h
  exacts [⟨.mv, rfl, fun _ => rfl⟩, ⟨.neg, rfl, fun _ => rfl⟩, ⟨.not, rfl, fun _ => rfl⟩,
    ⟨.seqz, rfl, fun _ => rfl⟩, ⟨.snez, rfl, fun _ => rfl⟩, ⟨.sltz, rfl, fun _ => rfl⟩,
    ⟨.sgtz, rfl, fun _ => rfl⟩]

theorem exists_of_mem_binaryNames (h : m ∈ binaryNames) :
    ∃ op, m = binaryName op ∧ ∀ os, Operation.decode m os = Operation.ofBinary op os := by
  simp only [binaryNames, List.mem_cons, List.not_mem_nil, or_false] at h
  obtain rfl | rfl | rfl | rfl | rfl | rfl | rfl | rfl | rfl | rfl | rfl := h
  exacts [⟨.add, rfl, fun _ => rfl⟩, ⟨.sub, rfl, fun _ => rfl⟩, ⟨.mul, rfl, fun _ => rfl⟩,
    ⟨.div, rfl, fun _ => rfl⟩, ⟨.rem, rfl, fun _ => rfl⟩, ⟨.and, rfl, fun _ => rfl⟩,
    ⟨.or, rfl, fun _ => rfl⟩, ⟨.xor, rfl, fun _ => rfl⟩, ⟨.slt, rfl, fun _ => rfl⟩,
    ⟨.sll, rfl, fun _ => rfl⟩, ⟨.sra, rfl, fun _ => rfl⟩]

theorem exists_of_mem_immediateNames (h : m ∈ immediateNames) :
    ∃ op, String.ofList m.toList.dropLast = binaryName op ∧ ∀ os,
      Operation.decode m os = Operation.ofImmediate op os := by
  simp only [immediateNames, List.mem_cons, List.not_mem_nil, or_false] at h
  obtain rfl | rfl | rfl | rfl | rfl := h
  exacts [⟨.add, by decide, fun _ => rfl⟩, ⟨.and, by decide, fun _ => rfl⟩,
    ⟨.or, by decide, fun _ => rfl⟩, ⟨.xor, by decide, fun _ => rfl⟩,
    ⟨.slt, by decide, fun _ => rfl⟩]

theorem exists_of_mem_branchZeroNames (h : m ∈ branchZeroNames) :
    ∃ c, String.ofList (m.toList.take 3) = branchName c ∧ ∀ os,
      Operation.decode m os = Operation.ofBranchZero c os := by
  simp only [branchZeroNames, List.mem_cons, List.not_mem_nil, or_false] at h
  obtain rfl | rfl | rfl | rfl := h
  exacts [⟨.eq, by decide, fun _ => rfl⟩, ⟨.ne, by decide, fun _ => rfl⟩,
    ⟨.lt, by decide, fun _ => rfl⟩, ⟨.ge, by decide, fun _ => rfl⟩]

theorem exists_of_mem_branchNames (h : m ∈ branchNames) :
    ∃ c, m = branchName c ∧ ∀ os, Operation.decode m os = Operation.ofBranch c os := by
  simp only [branchNames, List.mem_cons, List.not_mem_nil, or_false] at h
  obtain rfl | rfl | rfl | rfl := h
  exacts [⟨.eq, rfl, fun _ => rfl⟩, ⟨.ne, rfl, fun _ => rfl⟩, ⟨.lt, rfl, fun _ => rfl⟩,
    ⟨.ge, rfl, fun _ => rfl⟩]

end

/-! ### The two machines -/

section

variable (names : Names) (code : Listing) (s : State) (os : List Operand) {m : String}

@[simp] theorem word?_val (r : Register) : word? s r.val = some (s.reg r) := dif_pos r.isLt

@[simp] theorem put?_val (r : Register) (v : Int32) : put? s r.val v = some (s.put r v) :=
  dif_pos r.isLt

theorem putNumber?_eq :
    putNumber? s (os.map plain) = some (carry names code s (Operation.decode "li" os)) := by
  refine checked_two sorts_reg sorts_imm (F := .loadNumber) fun rd n h => ?_
  subst h
  simp [plain, step]

theorem putAddress?_eq :
    putAddress? code s (os.map plain) = some (carry names code s (Operation.decode "la" os)) := by
  refine checked_two sorts_reg sorts_label (F := .loadAddress) fun rd label h => ?_
  subst h
  cases hlookup : code.dataLabels.lookup label with
  | none => simp [plain, step, State.loadAddress, hlookup]
  | some addr => simp [plain, step, State.loadAddress, hlookup]

theorem onRegister?_eq (h : m ∈ unaryNames) :
    onRegister? s m (os.map plain) = some (carry names code s (Operation.decode m os)) := by
  obtain ⟨op, rfl, hdecode⟩ := exists_of_mem_unaryNames h
  rw [hdecode]
  refine checked_two sorts_reg sorts_reg (F := .unary op) fun rd rs h => ?_
  subst h
  simp [plain, step, unary?_name]

theorem onRegisters?_eq (h : m ∈ binaryNames) :
    onRegisters? s m (os.map plain) = some (carry names code s (Operation.decode m os)) := by
  obtain ⟨op, rfl, hdecode⟩ := exists_of_mem_binaryNames h
  rw [hdecode]
  refine checked_three sorts_reg sorts_reg sorts_reg (F := .binary op) fun rd rs rs' h => ?_
  subst h
  simp [plain, step, binary?_name]

theorem onConstant?_eq (h : m ∈ immediateNames) :
    onConstant? s m (os.map plain) = some (carry names code s (Operation.decode m os)) := by
  obtain ⟨op, hop, hdecode⟩ := exists_of_mem_immediateNames h
  rw [hdecode]
  refine checked_three sorts_reg sorts_reg sorts_imm (F := .immediate op) fun rd rs n h => ?_
  subst h
  simp [plain, step, hop, binary?_name]

theorem load?_eq :
    load? s (os.map plain) = some (carry names code s (Operation.decode "lw" os)) := by
  refine checked_two sorts_reg sorts_mem (F := fun rd place => .load rd place.1 place.2)
    fun rd place h => ?_
  subst h
  simp only [plain, step, State.load, State.address, List.map_cons, List.map_nil,
    List.getElem?_cons_zero, List.getElem?_cons_succ, Option.bind_eq_bind, Option.bind_some,
    word?_val, put?_val]
  exact (apply_ite some _ _ _).symm

theorem store?_eq :
    store? s (os.map plain) = some (carry names code s (Operation.decode "sw" os)) := by
  refine checked_two sorts_reg sorts_mem (F := fun rs place => .store rs place.1 place.2)
    fun rs place h => ?_
  subst h
  simp only [plain, step, State.store, State.address, List.map_cons, List.map_nil,
    List.getElem?_cons_zero, List.getElem?_cons_succ, Option.bind_eq_bind, Option.bind_some,
    word?_val]
  exact (apply_ite some _ _ _).symm

theorem jump?_eq :
    jump? code s (os.map plain) = some (carry names code s (Operation.decode "j" os)) := by
  refine checked_one sorts_label (F := .jump) fun label h => ?_
  subst h
  simp [plain, step]

theorem call?_eq :
    call? names code s (os.map plain) = some (carry names code s (Operation.ofCall os)) := by
  rcases os with _ | ⟨a, _ | ⟨b, _ | ⟨d, os⟩⟩⟩
  · rfl
  · cases a <;> rfl
  · cases a with
    | reg link =>
      cases b with
      | label name =>
        have hcallee : callee? ([.reg link, .label name].map plain) =
          some (some (link.val, name)) := rfl
        rw [call?, hcallee]
        exact dif_pos link.isLt
      | _ => rfl
    | _ => rfl
  · simp [call?, callee?, fault?, carry, Operation.ofCall]

theorem jumpRegister?_eq :
    jumpRegister? s (os.map plain) = some (carry names code s (Operation.decode "jr" os)) := by
  refine checked_one sorts_reg (F := .jumpTo) fun r h => ?_
  subst h
  simp [plain, step, r.isLt]

theorem branchZero?_eq (h : m ∈ branchZeroNames) :
    branchZero? code s m (os.map plain) = some (carry names code s (Operation.decode m os)) := by
  obtain ⟨c, hc, hdecode⟩ := exists_of_mem_branchZeroNames h
  rw [hdecode]
  refine checked_two sorts_reg sorts_label (F := .branchZero c) fun r label h => ?_
  subst h
  simp [plain, step, hc, condition?_name, goIf]

theorem branch?_eq (h : m ∈ branchNames) :
    branch? code s m (os.map plain) = some (carry names code s (Operation.decode m os)) := by
  obtain ⟨c, rfl, hdecode⟩ := exists_of_mem_branchNames h
  rw [hdecode]
  refine checked_three sorts_reg sorts_reg sorts_label (F := .branch c) fun r r' label h => ?_
  subst h
  simp [plain, step, condition?_name, goIf]

theorem perform?_eq (m : String) :
    perform? names code s m (os.map plain) = some (carry names code s (Operation.decode m os)) := by
  rw [perform?]
  by_cases hnop : m = "nop"
  · rw [if_pos hnop, hnop]
    rfl
  rw [if_neg hnop]
  by_cases hli : m = "li"
  · rw [if_pos hli, hli]
    exact putNumber?_eq names code s os
  rw [if_neg hli]
  by_cases hla : m = "la"
  · rw [if_pos hla, hla]
    exact putAddress?_eq names code s os
  rw [if_neg hla]
  by_cases hunary : m ∈ unaryNames
  · rw [if_pos hunary]
    exact onRegister?_eq names code s os hunary
  rw [if_neg hunary]
  by_cases hbinary : m ∈ binaryNames
  · rw [if_pos hbinary]
    exact onRegisters?_eq names code s os hbinary
  rw [if_neg hbinary]
  by_cases hconstant : m ∈ immediateNames
  · rw [if_pos hconstant]
    exact onConstant?_eq names code s os hconstant
  rw [if_neg hconstant]
  by_cases hlw : m = "lw"
  · rw [if_pos hlw, hlw]
    exact load?_eq names code s os
  rw [if_neg hlw]
  by_cases hsw : m = "sw"
  · rw [if_pos hsw, hsw]
    exact store?_eq names code s os
  rw [if_neg hsw]
  by_cases hj : m = "j"
  · rw [if_pos hj, hj]
    exact jump?_eq names code s os
  rw [if_neg hj]
  by_cases hcall : m = "jal" ∨ m = "call"
  · rw [if_pos hcall, call?_eq]
    obtain rfl | rfl := hcall <;> rfl
  rw [if_neg hcall]
  by_cases hjr : m = "jr"
  · rw [if_pos hjr, hjr]
    exact jumpRegister?_eq names code s os
  rw [if_neg hjr]
  by_cases hret : m = "ret"
  · rw [if_pos hret, hret]
    rfl
  rw [if_neg hret]
  by_cases hzero : m ∈ branchZeroNames
  · rw [if_pos hzero]
    exact branchZero?_eq names code s os hzero
  rw [if_neg hzero]
  by_cases hbranch : m ∈ branchNames
  · rw [if_pos hbranch]
    exact branch?_eq names code s os hbranch
  rw [if_neg hbranch]
  simp only [unaryNames, binaryNames, immediateNames, branchZeroNames, branchNames, List.mem_cons,
    List.not_mem_nil, or_false, not_or] at hunary hbinary hconstant hcall hzero hbranch
  simp [Operation.decode, carry, *]

end

/-- The operations of a listing are those of its texts. -/
def Decoded (code : Listing) : Prop :=
  ∀ i ∈ code.instructions, i.operation = Operation.decode i.mnemonic i.operands

variable {options : Options} {code : Listing}

theorem runSteps?_eq (hcode : Decoded code) (s : State) (steps left : ℕ) :
    runSteps? options code s steps left = some (runSteps options code s steps left) := by
  induction left generalizing s steps with
  | zero => rfl
  | succ left ih =>
    rw [runSteps?, runSteps]
    by_cases hpc : code.instructions.size ≤ s.pc
    · rw [if_pos hpc, Array.getElem?_eq_none hpc]
    · obtain ⟨i, hi⟩ : ∃ i, code.instructions[s.pc]? = some i := by
        rw [← Option.isSome_iff_exists]
        simpa using hpc
      rw [if_neg hpc, hi, Option.bind_eq_bind, Option.bind_some, perform?_eq, Option.bind_eq_bind,
        Option.bind_some, ← hcode i (Array.mem_of_getElem? hi)]
      dsimp only
      cases hop : i.operation with
      | error m => rfl
      | ok op =>
        dsimp only [carry]
        cases hstep : step options.names code s op with
        | mk s' outcome =>
          cases outcome with
          | running => exact ih s' (steps + 1)
          | halted => rfl
          | trapped t => rfl

/-- The machine that looks at the texts does what the machine does that has the operations. -/
theorem run?_eq (hcode : Decoded code) (s : State) :
    run? options code s = some (run options code s) := by
  unfold run? run
  cases code.codeLabels.lookup options.names.entry with
  | none => rfl
  | some pc => exact runSteps?_eq hcode (s.start pc) 0 options.maxSteps

end RvBackend.Machine.Dispatch
