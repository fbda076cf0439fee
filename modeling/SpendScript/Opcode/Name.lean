import SpendScript.Bytes.Hex
import SpendScript.Opcode.Basic

/-!
# Names of opcodes

Every opcode has one name, which is written in listings and traces.  Four more names are
understood in source text.

* `Opcode.ofName?_name` : every opcode is found under its name.
-/

namespace SpendScript

/-- The name of an operation. -/
def Operation.name : Operation → String
  | .constant .minusOne => "OP_1NEGATE"
  | .constant (.small n) => "OP_" ++ toString (n.val + 1)
  | .reserved .plain => "OP_RESERVED"
  | .nop .plain => "OP_NOP"
  | .reserved .version => "OP_VER"
  | .branch .ifTrue => "OP_IF"
  | .branch .ifFalse => "OP_NOTIF"
  | .forbidden .verIf => "OP_VERIF"
  | .forbidden .verNotIf => "OP_VERNOTIF"
  | .branch .otherwise => "OP_ELSE"
  | .branch .endIf => "OP_ENDIF"
  | .verify => "OP_VERIFY"
  | .giveUp => "OP_RETURN"
  | .transfer .toAlt => "OP_TOALTSTACK"
  | .transfer .fromAlt => "OP_FROMALTSTACK"
  | .shuffle .drop2 => "OP_2DROP"
  | .shuffle .dup2 => "OP_2DUP"
  | .shuffle .dup3 => "OP_3DUP"
  | .shuffle .over2 => "OP_2OVER"
  | .shuffle .rot2 => "OP_2ROT"
  | .shuffle .swap2 => "OP_2SWAP"
  | .shuffle .ifDup => "OP_IFDUP"
  | .shuffle .depth => "OP_DEPTH"
  | .shuffle .drop => "OP_DROP"
  | .shuffle .dup => "OP_DUP"
  | .shuffle .nip => "OP_NIP"
  | .shuffle .over => "OP_OVER"
  | .shuffle .pick => "OP_PICK"
  | .shuffle .roll => "OP_ROLL"
  | .shuffle .rot => "OP_ROT"
  | .shuffle .swap => "OP_SWAP"
  | .shuffle .tuck => "OP_TUCK"
  | .disabled .cat => "OP_CAT"
  | .disabled .substr => "OP_SUBSTR"
  | .disabled .left => "OP_LEFT"
  | .disabled .right => "OP_RIGHT"
  | .shuffle .size => "OP_SIZE"
  | .disabled .invert => "OP_INVERT"
  | .disabled .and => "OP_AND"
  | .disabled .or => "OP_OR"
  | .disabled .xor => "OP_XOR"
  | .equal => "OP_EQUAL"
  | .verified .equal => "OP_EQUALVERIFY"
  | .reserved .reserved1 => "OP_RESERVED1"
  | .reserved .reserved2 => "OP_RESERVED2"
  | .unary .add1 => "OP_1ADD"
  | .unary .sub1 => "OP_1SUB"
  | .disabled .mul2 => "OP_2MUL"
  | .disabled .div2 => "OP_2DIV"
  | .unary .negate => "OP_NEGATE"
  | .unary .abs => "OP_ABS"
  | .unary .not => "OP_NOT"
  | .unary .notZero => "OP_0NOTEQUAL"
  | .binary .add => "OP_ADD"
  | .binary .sub => "OP_SUB"
  | .disabled .mul => "OP_MUL"
  | .disabled .div => "OP_DIV"
  | .disabled .mod => "OP_MOD"
  | .disabled .lshift => "OP_LSHIFT"
  | .disabled .rshift => "OP_RSHIFT"
  | .binary .boolAnd => "OP_BOOLAND"
  | .binary .boolOr => "OP_BOOLOR"
  | .binary .numEqual => "OP_NUMEQUAL"
  | .verified .numEqual => "OP_NUMEQUALVERIFY"
  | .binary .numNotEqual => "OP_NUMNOTEQUAL"
  | .binary .lessThan => "OP_LESSTHAN"
  | .binary .greaterThan => "OP_GREATERTHAN"
  | .binary .lessThanOrEqual => "OP_LESSTHANOREQUAL"
  | .binary .greaterThanOrEqual => "OP_GREATERTHANOREQUAL"
  | .binary .min => "OP_MIN"
  | .binary .max => "OP_MAX"
  | .within => "OP_WITHIN"
  | .hash .ripemd160 => "OP_RIPEMD160"
  | .hash .sha1 => "OP_SHA1"
  | .hash .sha256 => "OP_SHA256"
  | .hash .hash160 => "OP_HASH160"
  | .hash .hash256 => "OP_HASH256"
  | .codeSeparator => "OP_CODESEPARATOR"
  | .checkSig => "OP_CHECKSIG"
  | .verified .checkSig => "OP_CHECKSIGVERIFY"
  | .checkMultisig => "OP_CHECKMULTISIG"
  | .verified .checkMultisig => "OP_CHECKMULTISIGVERIFY"
  | .nop .nop1 => "OP_NOP1"
  | .lockTime .absolute => "OP_CHECKLOCKTIMEVERIFY"
  | .lockTime .sequence => "OP_CHECKSEQUENCEVERIFY"
  | .nop .nop4 => "OP_NOP4"
  | .nop .nop5 => "OP_NOP5"
  | .nop .nop6 => "OP_NOP6"
  | .nop .nop7 => "OP_NOP7"
  | .nop .nop8 => "OP_NOP8"
  | .nop .nop9 => "OP_NOP9"
  | .nop .nop10 => "OP_NOP10"

/-- The name of a push with a length of this width. -/
def PushWidth.name : PushWidth → String
  | .one => "OP_PUSHDATA1"
  | .two => "OP_PUSHDATA2"
  | .four => "OP_PUSHDATA4"

namespace Opcode

/-- The name of an opcode. -/
def name : Opcode → String
  | .empty => "OP_0"
  | .pushData w => w.name
  | .operation op => op.name

/-- Further names that source text may use. -/
def aliases : List (String × Opcode) :=
  [("OP_FALSE", .empty),
   ("OP_TRUE", .operation (.constant (.small 0))),
   ("OP_NOP2", .operation (.lockTime .absolute)),
   ("OP_NOP3", .operation (.lockTime .sequence))]

/-- All names that source text may use. -/
def names : List (String × Opcode) :=
  all.map (fun op => (op.name, op)) ++ aliases

/-- The opcode of a name, in exactly this spelling. -/
def ofName? (word : String) : Option Opcode :=
  (names.find? fun entry => entry.1 == word).map (·.2)

/-- The word for any byte where an instruction starts: the name of its opcode if it has one. -/
def describeByte (b : UInt8) : String :=
  match ofByte? b with
  | some op => op.name
  | none => if b ≤ 0x4b then "PUSH" else "UNKNOWN"

theorem ofName?_name (op : Opcode) : ofName? op.name = some op := by
  have general : ∀ op ∈ all, ofName? op.name = some op := by decide +kernel
  exact general op (mem_all op)

end Opcode

end SpendScript
