import SpendScript.Bytes.Basic

/-!
# The instruction set

The assigned opcodes, grouped by what they do, and the byte of each.  The bytes from `0x01` to
`0x4b` are pushes of that many bytes and have no opcode; the bytes above `0xb9` are unassigned.

An opcode is either one of the four that introduce a push or an `Operation`, which is a single
byte of code.

* `Opcode.ofByte?_eq_some_iff` : the opcode of a byte is the one whose byte it is.
* `Opcode.mem_all` : `Opcode.all` misses none.
-/

namespace SpendScript

/-- The width of a length that precedes the bytes of a push. -/
inductive PushWidth
  | one | two | four
  deriving Repr, DecidableEq

/-- The number of bytes of the length. -/
def PushWidth.size : PushWidth → Nat
  | .one => 1
  | .two => 2
  | .four => 4

/-- The numbers that have an opcode of their own. -/
inductive Constant
  /-- Minus one. -/
  | minusOne
  /-- The number `n + 1`, from one to sixteen. -/
  | small (n : Fin 16)
  deriving Repr, DecidableEq

/-- The number that a constant pushes. -/
def Constant.value : Constant → Int
  | .minusOne => -1
  | .small n => n.val + 1

/-- The constant for a number, if it has one. -/
def Constant.ofInt? (n : Int) : Option Constant :=
  if n = -1 then some .minusOne
  else if h : 1 ≤ n ∧ n ≤ 16 then some (.small ⟨n.toNat - 1, by omega⟩)
  else none

/-- The words that do nothing. -/
inductive Nop
  | plain | nop1 | nop4 | nop5 | nop6 | nop7 | nop8 | nop9 | nop10
  deriving Repr, DecidableEq

/-- The words that open, turn and close a conditional. -/
inductive Branch
  | ifTrue | ifFalse | otherwise | endIf
  deriving Repr, DecidableEq

/-- The words that move an item between the two stacks. -/
inductive Transfer
  | toAlt | fromAlt
  deriving Repr, DecidableEq

/-- The words that move, copy, drop or measure items of the main stack. -/
inductive Shuffle
  | drop2 | dup2 | dup3 | over2 | rot2 | swap2 | ifDup | depth | drop | dup | nip | over | pick
  | roll | rot | swap | tuck | size
  deriving Repr, DecidableEq

/-- Arithmetic on one number. -/
inductive Unary
  | add1 | sub1 | negate | abs | not | notZero
  deriving Repr, DecidableEq

/-- Arithmetic on two numbers. -/
inductive Binary
  | add | sub | boolAnd | boolOr | numEqual | numNotEqual | lessThan | greaterThan
  | lessThanOrEqual | greaterThanOrEqual | min | max
  deriving Repr, DecidableEq

/-- The hash words. -/
inductive HashWord
  | ripemd160 | sha1 | sha256 | hash160 | hash256
  deriving Repr, DecidableEq

/-- The questions that also come as a word which fails the script on the answer no. -/
inductive Check
  | equal | numEqual | checkSig | checkMultisig
  deriving Repr, DecidableEq

/-- The lock times that a script can look at. -/
inductive LockTime
  | absolute | sequence
  deriving Repr, DecidableEq

/-- Words without a meaning, which fail the script when they are executed. -/
inductive Reserved
  | plain | version | reserved1 | reserved2
  deriving Repr, DecidableEq

/-- Words that fail the script wherever they are met. -/
inductive Forbidden
  | verIf | verNotIf
  deriving Repr, DecidableEq

/-- Words that were switched off, which also fail the script wherever they are met. -/
inductive Disabled
  | cat | substr | left | right | invert | and | or | xor | mul2 | div2 | mul | div | mod
  | lshift | rshift
  deriving Repr, DecidableEq

/-- What a single byte of code asks for. -/
inductive Operation
  /-- Push a number. -/
  | constant (c : Constant)
  /-- Do nothing. -/
  | nop (n : Nop)
  /-- Open, turn or close a conditional. -/
  | branch (b : Branch)
  /-- Pop a truth value and fail unless it is true. -/
  | verify
  /-- Fail. -/
  | giveUp
  /-- Move an item to the other stack. -/
  | transfer (t : Transfer)
  /-- Rearrange the main stack. -/
  | shuffle (s : Shuffle)
  /-- Ask whether two items are the same bytes. -/
  | equal
  /-- Replace one number. -/
  | unary (u : Unary)
  /-- Replace two numbers. -/
  | binary (b : Binary)
  /-- Ask whether a number lies in a range. -/
  | within
  /-- Replace an item by its hash. -/
  | hash (h : HashWord)
  /-- Note the position behind this word. -/
  | codeSeparator
  /-- Ask whether a signature belongs to a key. -/
  | checkSig
  /-- Ask whether signatures belong to some of several keys, in order. -/
  | checkMultisig
  /-- Ask a question and fail unless the answer is yes. -/
  | verified (c : Check)
  /-- Look at a lock time. -/
  | lockTime (l : LockTime)
  /-- Fail when executed. -/
  | reserved (r : Reserved)
  /-- Fail when met. -/
  | forbidden (f : Forbidden)
  /-- Fail when met, as switched off. -/
  | disabled (d : Disabled)
  deriving Repr, DecidableEq

/-- The assigned opcodes. -/
inductive Opcode
  /-- Push the empty byte string. -/
  | empty
  /-- Push bytes whose number follows. -/
  | pushData (w : PushWidth)
  /-- Everything that is one byte of code. -/
  | operation (op : Operation)
  deriving Repr, DecidableEq

/-! ### Bytes of opcodes -/

/-- The byte of an operation. -/
def Operation.toByte : Operation → UInt8
  | .constant .minusOne => 0x4f
  | .constant (.small n) => UInt8.ofNat (0x51 + n.val)
  | .reserved .plain => 0x50
  | .nop .plain => 0x61
  | .reserved .version => 0x62
  | .branch .ifTrue => 0x63
  | .branch .ifFalse => 0x64
  | .forbidden .verIf => 0x65
  | .forbidden .verNotIf => 0x66
  | .branch .otherwise => 0x67
  | .branch .endIf => 0x68
  | .verify => 0x69
  | .giveUp => 0x6a
  | .transfer .toAlt => 0x6b
  | .transfer .fromAlt => 0x6c
  | .shuffle .drop2 => 0x6d
  | .shuffle .dup2 => 0x6e
  | .shuffle .dup3 => 0x6f
  | .shuffle .over2 => 0x70
  | .shuffle .rot2 => 0x71
  | .shuffle .swap2 => 0x72
  | .shuffle .ifDup => 0x73
  | .shuffle .depth => 0x74
  | .shuffle .drop => 0x75
  | .shuffle .dup => 0x76
  | .shuffle .nip => 0x77
  | .shuffle .over => 0x78
  | .shuffle .pick => 0x79
  | .shuffle .roll => 0x7a
  | .shuffle .rot => 0x7b
  | .shuffle .swap => 0x7c
  | .shuffle .tuck => 0x7d
  | .disabled .cat => 0x7e
  | .disabled .substr => 0x7f
  | .disabled .left => 0x80
  | .disabled .right => 0x81
  | .shuffle .size => 0x82
  | .disabled .invert => 0x83
  | .disabled .and => 0x84
  | .disabled .or => 0x85
  | .disabled .xor => 0x86
  | .equal => 0x87
  | .verified .equal => 0x88
  | .reserved .reserved1 => 0x89
  | .reserved .reserved2 => 0x8a
  | .unary .add1 => 0x8b
  | .unary .sub1 => 0x8c
  | .disabled .mul2 => 0x8d
  | .disabled .div2 => 0x8e
  | .unary .negate => 0x8f
  | .unary .abs => 0x90
  | .unary .not => 0x91
  | .unary .notZero => 0x92
  | .binary .add => 0x93
  | .binary .sub => 0x94
  | .disabled .mul => 0x95
  | .disabled .div => 0x96
  | .disabled .mod => 0x97
  | .disabled .lshift => 0x98
  | .disabled .rshift => 0x99
  | .binary .boolAnd => 0x9a
  | .binary .boolOr => 0x9b
  | .binary .numEqual => 0x9c
  | .verified .numEqual => 0x9d
  | .binary .numNotEqual => 0x9e
  | .binary .lessThan => 0x9f
  | .binary .greaterThan => 0xa0
  | .binary .lessThanOrEqual => 0xa1
  | .binary .greaterThanOrEqual => 0xa2
  | .binary .min => 0xa3
  | .binary .max => 0xa4
  | .within => 0xa5
  | .hash .ripemd160 => 0xa6
  | .hash .sha1 => 0xa7
  | .hash .sha256 => 0xa8
  | .hash .hash160 => 0xa9
  | .hash .hash256 => 0xaa
  | .codeSeparator => 0xab
  | .checkSig => 0xac
  | .verified .checkSig => 0xad
  | .checkMultisig => 0xae
  | .verified .checkMultisig => 0xaf
  | .nop .nop1 => 0xb0
  | .lockTime .absolute => 0xb1
  | .lockTime .sequence => 0xb2
  | .nop .nop4 => 0xb3
  | .nop .nop5 => 0xb4
  | .nop .nop6 => 0xb5
  | .nop .nop7 => 0xb6
  | .nop .nop8 => 0xb7
  | .nop .nop9 => 0xb8
  | .nop .nop10 => 0xb9

/-- The byte of a push with a length of this width. -/
def PushWidth.toByte : PushWidth → UInt8
  | .one => 0x4c
  | .two => 0x4d
  | .four => 0x4e

/-- The operations from minus one to sixteen, in the order of their bytes. -/
def Operation.constants : List Operation :=
  .constant .minusOne :: .reserved .plain ::
    (List.finRange 16).map fun n => .constant (.small n)

/-- The operations above those, in the order of their bytes. -/
def Operation.counted : List Operation :=
  [.nop .plain, .reserved .version, .branch .ifTrue, .branch .ifFalse,
    .forbidden .verIf, .forbidden .verNotIf, .branch .otherwise, .branch .endIf, .verify, .giveUp,
    .transfer .toAlt, .transfer .fromAlt, .shuffle .drop2, .shuffle .dup2, .shuffle .dup3,
    .shuffle .over2, .shuffle .rot2, .shuffle .swap2, .shuffle .ifDup, .shuffle .depth,
    .shuffle .drop, .shuffle .dup, .shuffle .nip, .shuffle .over, .shuffle .pick, .shuffle .roll,
    .shuffle .rot, .shuffle .swap, .shuffle .tuck,
    .disabled .cat, .disabled .substr, .disabled .left, .disabled .right, .shuffle .size,
    .disabled .invert, .disabled .and, .disabled .or, .disabled .xor, .equal, .verified .equal,
    .reserved .reserved1, .reserved .reserved2,
    .unary .add1, .unary .sub1, .disabled .mul2, .disabled .div2, .unary .negate, .unary .abs,
    .unary .not, .unary .notZero, .binary .add, .binary .sub,
    .disabled .mul, .disabled .div, .disabled .mod, .disabled .lshift, .disabled .rshift,
    .binary .boolAnd, .binary .boolOr, .binary .numEqual, .verified .numEqual,
    .binary .numNotEqual, .binary .lessThan, .binary .greaterThan, .binary .lessThanOrEqual,
    .binary .greaterThanOrEqual, .binary .min, .binary .max, .within,
    .hash .ripemd160, .hash .sha1, .hash .sha256, .hash .hash160, .hash .hash256,
    .codeSeparator, .checkSig, .verified .checkSig, .checkMultisig, .verified .checkMultisig,
    .nop .nop1, .lockTime .absolute, .lockTime .sequence,
    .nop .nop4, .nop .nop5, .nop .nop6, .nop .nop7, .nop .nop8, .nop .nop9, .nop .nop10]

/-- Every operation, in the order of their bytes. -/
def Operation.all : List Operation := Operation.constants ++ Operation.counted

namespace Opcode

/-- The byte of an opcode. -/
def toByte : Opcode → UInt8
  | .empty => 0x00
  | .pushData w => w.toByte
  | .operation op => op.toByte

/-- Every opcode, in the order of their bytes. -/
def all : List Opcode :=
  .empty :: .pushData .one :: .pushData .two :: .pushData .four :: Operation.all.map .operation

/-- The opcode of a byte, if it is assigned. -/
def ofByte? (b : UInt8) : Option Opcode :=
  all.find? fun op => op.toByte == b

/-- The opcode that pushes a small number by itself. -/
def ofInt? (n : Int) : Option Opcode :=
  (Constant.ofInt? n).map fun c => .operation (.constant c)

/-! ### Classes of opcodes -/

/-- The number that an opcode pushes by itself. -/
def constant? : Opcode → Option Int
  | .operation (.constant c) => some c.value
  | _ => none

/-- The opcode introduces a push, pushes a number, or is the reserved word among those; none of
these count as operations. -/
def isPush (op : Opcode) : Bool :=
  op.toByte ≤ 0x60

/-- The opcode is obeyed also where the code is not executed. -/
def isConditional : Opcode → Bool
  | .operation (.branch _) => true
  | _ => false

/-- The opcode was switched off. -/
def isDisabled : Opcode → Bool
  | .operation (.disabled _) => true
  | _ => false

/-! ### All of them -/

theorem mem_allOperations (op : Operation) : op ∈ Operation.all := by
  rcases op with c | n | b | _ | _ | t | s | _ | u | b | _ | h | _ | _ | _ | c | l | r | f | d
  · rcases c with _ | n
    · decide
    · exact List.mem_append_left _ (by simp [Operation.constants])
  · cases n <;> decide
  · cases b <;> decide
  · decide
  · decide
  · cases t <;> decide
  · cases s <;> decide
  · decide
  · cases u <;> decide
  · cases b <;> decide
  · decide
  · cases h <;> decide
  · decide
  · decide
  · decide
  · cases c <;> decide
  · cases l <;> decide
  · cases r <;> decide
  · cases f <;> decide
  · cases d <;> decide

theorem mem_all (op : Opcode) : op ∈ all := by
  rcases op with _ | w | op
  · decide
  · cases w <;> decide
  · simp [all, mem_allOperations op]

theorem pairwise_toByte_all : all.Pairwise fun a b => a.toByte < b.toByte := by
  decide +kernel

theorem toByte_injective {a b : Opcode} (h : a.toByte = b.toByte) : a = b := by
  have general : ∀ l : List Opcode, l.Pairwise (fun a b => a.toByte < b.toByte) →
      a ∈ l → b ∈ l → a = b := by
    intro l
    induction l with
    | nil => simp
    | cons op rest ih =>
      rw [List.pairwise_cons]
      intro ⟨hop, hrest⟩ ha hb
      rcases List.mem_cons.1 ha with ha' | ha' <;> rcases List.mem_cons.1 hb with hb' | hb'
      · rw [ha', hb']
      · exact absurd (h ▸ ha' ▸ hop b hb') (UInt8.lt_irrefl _)
      · exact absurd (h ▸ hb' ▸ hop a ha') (UInt8.lt_irrefl _)
      · exact ih hrest ha' hb'
  exact general all pairwise_toByte_all (mem_all a) (mem_all b)

theorem ofByte?_eq_some_iff {b : UInt8} {op : Opcode} : ofByte? b = some op ↔ op.toByte = b := by
  constructor
  · intro h
    simpa using List.find?_some h
  · rintro rfl
    cases h : ofByte? op.toByte with
    | none => simpa using List.find?_eq_none.1 h op (mem_all op)
    | some op' => rw [toByte_injective (by simpa using List.find?_some h : op'.toByte = op.toByte)]

end Opcode

end SpendScript
