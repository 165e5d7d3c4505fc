/-
  FiveStageArm.Isa.Instruction — a decoded instruction: its word and address, its
  condition, and one of six kinds of operation with exactly the fields that kind has.
  `passed` says whether its condition let it act; the control signals are what the
  operation asks for when it passed and nothing at all otherwise, so a skipped
  instruction keeps its place in the machine and does nothing.

  An operation names up to four registers by role (`rn`, `rm`, `rs`, `rd`). A role it
  does not have reads as R0, and `usesRn` to `usesRd` say which roles are sources.

  A `Reg` is one of R0 to R15; a number that comes from outside may be any integer, and
  `Reg.ofInt` is the one place where it is refused.
-/

import FiveStageArm.Isa.Alu

namespace FiveStageArm

/-! ## Registers -/

abbrev Reg := Fin 16

namespace Reg

abbrev r0 : Reg := ⟨0, by decide⟩
abbrev sp : Reg := ⟨13, by decide⟩
abbrev lr : Reg := ⟨14, by decide⟩
abbrev pc : Reg := ⟨15, by decide⟩

end Reg

structure RegisterError where
  index : Int
  deriving DecidableEq

def RegisterError.message (e : RegisterError) : String := "Invalid register: " ++ Text.integer e.index

def Reg.ofInt (i : Int) : Except RegisterError Reg :=
  if h : 0 ≤ i ∧ i < 16 then .ok ⟨i.toNat, by omega⟩ else .error ⟨i⟩

/-- The last three registers go by SP, LR and PC. -/
def registerName (i : Int) : String :=
  if i = 13 then "SP" else if i = 14 then "LR" else if i = 15 then "PC" else "R" ++ Text.integer i

def Reg.name (r : Reg) : String := registerName r.val

/-! ## Flags -/

structure Flags where
  n : Bool
  z : Bool
  c : Bool
  v : Bool
  deriving DecidableEq

namespace Flags

def clear : Flags := ⟨false, false, false, false⟩

/-- Packed as NZCV in bits 3 to 0. -/
def toBits (f : Flags) : Nat := f.n.toNat * 8 + f.z.toNat * 4 + f.c.toNat * 2 + f.v.toNat

/-- Bits above the fourth are ignored. -/
def ofBits (w : Word) : Flags := ⟨bit w 3, bit w 2, bit w 1, bit w 0⟩

/-- One letter a flag, `-` when it is clear. -/
def text (f : Flags) : String :=
  let letter (set : Bool) (c : Char) : Char := if set then c else '-'
  String.ofList [letter f.n 'N', letter f.z 'Z', letter f.c 'C', letter f.v 'V']

/-- N and Z as a result sets them. -/
def withResult (f : Flags) (result : Word) : Flags := { f with n := bit result 31, z := result = 0 }

end Flags

/-! ## Conditions -/

/-- In the order of their codes, 0 to 15. -/
inductive Condition where
  | eq | ne | cs | cc | mi | pl | vs | vc | hi | ls | ge | lt | gt | le | al | nv
  deriving DecidableEq, Repr

namespace Condition

def all : Vector Condition 16 := #v[eq, ne, cs, cc, mi, pl, vs, vc, hi, ls, ge, lt, gt, le, al, nv]

def ofCode (code : Fin 16) : Condition := all.get code

def holds : Condition → Flags → Bool
  | eq, f => f.z
  | ne, f => !f.z
  | cs, f => f.c
  | cc, f => !f.c
  | mi, f => f.n
  | pl, f => !f.n
  | vs, f => f.v
  | vc, f => !f.v
  | hi, f => f.c && !f.z
  | ls, f => !f.c || f.z
  | ge, f => f.n == f.v
  | lt, f => f.n != f.v
  | gt, f => !f.z && f.n == f.v
  | le, f => f.z || f.n != f.v
  | al, _ => true
  | nv, _ => false

def name : Condition → String
  | eq => "EQ" | ne => "NE" | cs => "CS" | cc => "CC" | mi => "MI" | pl => "PL" | vs => "VS" | vc => "VC"
  | hi => "HI" | ls => "LS" | ge => "GE" | lt => "LT" | gt => "GT" | le => "LE" | al => "AL" | nv => "NV"

/-- What a mnemonic carries: nothing when the condition is AL. -/
def suffixText (c : Condition) : String := if c = al then "" else c.name

end Condition

/-- MOV R0, R0: what an empty slot of the machine is said to hold. -/
def nopWord : Word := 0xE1A00000

/-! ## Operations -/

/-- A register shifted by a fixed amount, 0 to 31. -/
structure ShiftedRegister where
  rm : Reg
  kind : ShiftKind
  amount : Word
  deriving DecidableEq

/-- The second operand of a data-processing operation. -/
inductive Operand2 where
  /-- A byte rotated right by an even amount. -/
  | immediate (imm rotate : Word)
  | shifted (r : ShiftedRegister)
  | shiftedBy (rm : Reg) (kind : ShiftKind) (rs : Reg)
  deriving DecidableEq

inductive Offset where
  | immediate (imm : Word)
  | shifted (r : ShiftedRegister)
  deriving DecidableEq

/-- A load or a store of a word or a byte at a base register plus or minus an offset. With
    `pre` false the base alone is the address. -/
structure Transfer where
  load : Bool
  byte : Bool
  pre : Bool
  up : Bool
  rn : Reg
  rd : Reg
  offset : Offset
  deriving DecidableEq

inductive Operation where
  | dataProcessing (op : Opcode) (setFlags : Bool) (rn rd : Reg) (operand : Operand2)
  | multiply (accumulate setFlags : Bool) (rd rn rs rm : Reg)
  | transfer (t : Transfer)
  /-- The offset is in bytes, from the instruction's address plus 8. -/
  | branch (link : Bool) (offset : Word)
  /-- Coprocessor and supervisor-call words, which do nothing here. -/
  | coprocessor
  | undefined
  deriving DecidableEq

inductive OperationClass where
  | dataProcessing | multiply | loadStore | branch | coprocessor | undefined
  deriving DecidableEq

namespace Operation

def kind : Operation → OperationClass
  | dataProcessing .. => .dataProcessing
  | multiply .. => .multiply
  | transfer _ => .loadStore
  | branch .. => .branch
  | coprocessor => .coprocessor
  | undefined => .undefined

/-! ## Registers by role -/

def rn : Operation → Reg
  | dataProcessing _ _ rn _ _ => rn
  | multiply _ _ _ rn _ _ => rn
  | transfer t => t.rn
  | _ => .r0

/-- The destination, or the register a store takes its data from. -/
def rd : Operation → Reg
  | dataProcessing _ _ _ rd _ => rd
  | multiply _ _ rd _ _ _ => rd
  | transfer t => t.rd
  | branch true _ => .lr
  | _ => .r0

def rm : Operation → Reg
  | dataProcessing _ _ _ _ (.shifted r) => r.rm
  | dataProcessing _ _ _ _ (.shiftedBy rm _ _) => rm
  | multiply _ _ _ _ _ rm => rm
  | transfer { offset := .shifted r, .. } => r.rm
  | _ => .r0

def rs : Operation → Reg
  | dataProcessing _ _ _ _ (.shiftedBy _ _ rs) => rs
  | multiply _ _ _ _ rs _ => rs
  | _ => .r0

def usesRn : Operation → Bool
  | dataProcessing op _ _ _ _ => !op.isMove
  | multiply accumulate _ _ _ _ _ => accumulate
  | transfer _ => true
  | _ => false

def usesRm : Operation → Bool
  | dataProcessing _ _ _ _ (.immediate _ _) => false
  | dataProcessing .. | multiply .. => true
  | transfer { offset := .shifted _, .. } => true
  | _ => false

def usesRs : Operation → Bool
  | dataProcessing _ _ _ _ (.shiftedBy ..) => true
  | multiply .. => true
  | _ => false

def usesRd : Operation → Bool
  | transfer t => !t.load
  | _ => false

/-- Whether the operation takes a value from `r`. R15 is never waited for: it is read off
    the fetch address. -/
def reads (o : Operation) (r : Reg) : Bool :=
  r != .pc && ((o.usesRn && o.rn == r) || (o.usesRm && o.rm == r) || (o.usesRs && o.rs == r) || (o.usesRd && o.rd == r))

/-! ## What the operation asks for -/

def setsFlags : Operation → Bool
  | dataProcessing _ s _ _ _ => s
  | multiply _ s _ _ _ _ => s
  | _ => false

def writesRegister : Operation → Bool
  | dataProcessing op _ _ _ _ => !op.isTest
  | multiply .. => true
  | transfer t => t.load
  | branch link _ => link
  | _ => false

def loads : Operation → Bool
  | transfer t => t.load
  | _ => false

def stores : Operation → Bool
  | transfer t => !t.load
  | _ => false

def branches : Operation → Bool
  | branch .. => true
  | _ => false

def links : Operation → Bool
  | branch link _ => link
  | _ => false

/-- A load or store of one byte. -/
def isByte : Operation → Bool
  | transfer t => t.byte
  | _ => false

end Operation

/-! ## Instructions -/

structure Instruction where
  raw : Word
  pc : Address
  cond : Condition
  operation : Operation
  passed : Bool
  deriving DecidableEq

namespace Instruction

def setFlags (i : Instruction) : Bool := i.passed && i.operation.setsFlags
def regWrite (i : Instruction) : Bool := i.passed && i.operation.writesRegister
def memRead (i : Instruction) : Bool := i.passed && i.operation.loads
def memWrite (i : Instruction) : Bool := i.passed && i.operation.stores
def branch (i : Instruction) : Bool := i.passed && i.operation.branches
def link (i : Instruction) : Bool := i.passed && i.operation.links
def rd (i : Instruction) : Reg := i.operation.rd

/-- Resolves the condition against the flags. -/
def gate (i : Instruction) (f : Flags) : Instruction := { i with passed := i.cond.holds f }

def isNop (i : Instruction) : Bool := i.raw == nopWord

/-- The branch to itself with which firmware says it is done. -/
def isSelfBranch (i : Instruction) : Bool :=
  match i.operation with
  | .branch _ offset => i.passed && offset == 0xFFFFFFF8
  | _ => false

/-- Where a branch with this byte offset goes. -/
def target (i : Instruction) (offset : Word) : Address := i.pc + 8 + offset

end Instruction

end FiveStageArm
