import SpendScript.Proofs.Number.SignMagnitude
import SpendScript.Proofs.Source.Grammar

/-!
# The size of compiled text

A word of source text compiles to at least one byte and to no more bytes than it has characters.
Of hexadecimal digits it takes two for a byte, and `0x` leaves room for the opcode and the length
of the push.  Of decimal digits it takes two for any push with data: one digit is at most nine,
which has an opcode of its own, and from two digits on the data of the push is shorter than the
digits.

* `Number.length_encode_lt` : the item for a number is shorter than its decimal digits;
* `Token.length_bytes_le` : the code of a word is not longer than the word;
* `Source.length_assemble_le` : so the code of a text is not longer than the text without its
  comments and blanks.
-/

namespace SpendScript

/-! ### Numbers -/

namespace Number

/-- What has some decimal digits, at least two, fits into one byte less along with its sign. -/
theorem ten_pow_le_signBit (j : Nat) : 10 ^ (j + 2) ≤ signBit (j + 1) := by
  induction j with
  | zero => decide
  | succ j ih =>
    have hstep : signBit (j + 1 + 1) = 256 * signBit (j + 1) :=
      Nat.mul_left_comm 128 256 (Bytes.bound j)
    rw [hstep, Nat.pow_succ]
    omega

/-- **The item for a number is shorter than its decimal digits**, if these are two or more. -/
theorem length_encode_lt {n : Int} {k : Nat} (hk : 2 ≤ k) (h : n.natAbs < 10 ^ k) :
    (encode n).length < k := by
  obtain ⟨j, rfl⟩ := Nat.exists_eq_add_of_le' hk
  have hle : (encode n).length ≤ j + 1 :=
    (length_encode_le_iff (Nat.succ_pos j)).2 (h.trans_le (ten_pow_le_signBit j))
  omega

end Number

/-! ### Pushes -/

namespace Instruction

variable {n : Int}

theorem length_bytes_pushOf_le (data : Bytes) :
    (pushOf data).bytes.length ≤ 2 + 2 * data.length := by
  have hmax : maxDirect = 75 := rfl
  unfold pushOf
  simp only
  split_ifs <;> rw [length_bytes_push] <;> simp only [PushForm.before, PushWidth.size] <;> omega

theorem length_bytes_pushOf_of_le {data : Bytes} (h : data.length ≤ maxDirect) :
    (pushOf data).bytes.length = 1 + data.length := by
  rw [pushOf, if_pos h, length_bytes_push, PushForm.before]

theorem length_bytes_pushNumber_of_lt (h : n.natAbs < 10) (hn : 0 ≤ n) :
    (pushNumber n).bytes.length = 1 := by
  unfold pushNumber Constant.ofInt?
  split_ifs with hzero hminus hsmall
  · rfl
  · rfl
  · rfl
  · omega

theorem length_bytes_pushNumber_le {k : Nat} (hk : 2 ≤ k) (h : n.natAbs < 10 ^ k)
    (hbound : n.natAbs < Bytes.bound 8) : (pushNumber n).bytes.length ≤ k := by
  unfold pushNumber
  split_ifs with hzero
  · rw [length_bytes_push, PushForm.before]
    exact Nat.le_of_succ_le hk
  · split
    · exact Nat.le_of_succ_le hk
    · -- an item of so few bytes is pushed without a length, by one byte in front
      have hdirect : (Number.encode n).length ≤ maxDirect :=
        (Number.length_encode_le hbound).trans (by decide)
      rw [length_bytes_pushOf_of_le hdirect, Nat.add_comm]
      exact Number.length_encode_lt hk h

end Instruction

/-! ### Words -/

namespace Token

variable {word digits : List Char} {token : Token} {n : Int}

theorem decimalValue_concat (digits : List Char) (c : Char) :
    decimalValue (digits ++ [c]) = 10 * decimalValue digits + (c.toNat - 48) := by
  rw [decimalValue, List.foldl_concat]
  rfl

theorem decimalValue_lt (h : ∀ c ∈ digits, c.isDigit = true) :
    decimalValue digits < 10 ^ digits.length := by
  induction digits using List.reverseRecOn with
  | nil => exact Nat.one_pos
  | append_singleton digits c ih =>
    have hc : c.toNat ≤ 57 := by
      have hdigit := h c (by simp)
      rw [Char.isDigit, Bool.and_eq_true] at hdigit
      exact UInt32.le_iff_toNat_le.1 (of_decide_eq_true hdigit.2)
    have hlt := ih fun d hd => h d (List.mem_append_left _ hd)
    rw [decimalValue_concat, List.length_append, List.length_singleton, Nat.pow_succ]
    omega

/-- The push of a decimal number is not longer than the word that spells it. -/
theorem length_pushNumber_le (h : Decimal word n) (hbound : n.natAbs < Bytes.bound 8) :
    (Instruction.pushNumber n).bytes.length ≤ word.length := by
  cases h with
  | plain hne hdigits =>
    have hlt := decimalValue_lt hdigits
    rcases Nat.lt_or_ge word.length 2 with hlength | hlength
    · -- a single digit, which has an opcode
      have hone : word.length = 1 :=
        Nat.le_antisymm (Nat.le_of_lt_succ hlength) (List.length_pos_iff.2 hne)
      have hsmall : (decimalValue word : Int).natAbs < 10 := by
        rwa [Int.natAbs_natCast, ← pow_one 10, ← hone]
      rw [Instruction.length_bytes_pushNumber_of_lt hsmall (Int.natCast_nonneg _), hone]
    · exact Instruction.length_bytes_pushNumber_le hlength hlt hbound
  | @minus digits hne hdigits =>
    have hlength : 2 ≤ ('-' :: digits).length := Nat.succ_le_succ (List.length_pos_iff.2 hne)
    refine Instruction.length_bytes_pushNumber_le hlength ?_ hbound
    rw [Int.natAbs_neg]
    exact (decimalValue_lt hdigits).trans (Nat.pow_lt_pow_succ (by decide))

theorem natAbs_lt_bound (hmin : minNumber ≤ n) (hmax : n ≤ maxNumber) :
    n.natAbs < Bytes.bound 8 := by
  have hbound : Bytes.bound 8 = 2 ^ 64 := rfl
  simp only [minNumber, maxNumber] at hmin hmax
  omega

theorem ne_nil_of_read (h : read word = .ok token) : word ≠ [] := by
  rintro rfl
  exact absurd (h.symm.trans (by decide +kernel : read [] = .error (.unknownOpcode ""))) (by simp)

theorem length_bytes_pos (token : Token) : 0 < token.bytes.length := by
  cases token with
  | data bytes => exact Instruction.length_bytes_pos _
  | number n => exact Instruction.length_bytes_pos _
  | opcode op => exact Nat.one_pos

/-- **The code of a word is not longer than the word.** -/
theorem length_bytes_le (h : read word = .ok token) : token.bytes.length ≤ word.length := by
  have hpos : 0 < word.length := List.length_pos_iff.2 (ne_nil_of_read h)
  cases read_eq_ok_iff.1 h with
  | @data digits bytes hspells =>
    have hdigits := Hex.length_of_decode (Hex.decode_eq_ok_iff.2 hspells)
    rw [List.length_cons, List.length_cons, hdigits, Nat.add_assoc, Nat.add_comm]
    exact Instruction.length_bytes_pushOf_le bytes
  | number hdecimal hmin hmax => exact length_pushNumber_le hdecimal (natAbs_lt_bound hmin hmax)
  | name op => exact hpos
  | otherName hname => exact hpos

end Token

/-! ### Texts -/

namespace Source

variable {text : String} {code : Bytes} {tokens : List Token} {ws : List (List Char)}

theorem length_flatMap_bytes_le
    (h : List.Forall₂ (fun word token => Token.read word = .ok token) ws tokens) :
    (tokens.flatMap Token.bytes).length ≤ ws.flatten.length := by
  induction h with
  | nil => exact Nat.le_refl 0
  | cons hread _ ih =>
    rw [List.flatMap_cons, List.flatten_cons, List.length_append, List.length_append]
    exact Nat.add_le_add (Token.length_bytes_le hread) ih

/-- The characters of a text that are neither in a comment nor blank. -/
def countVisible (text : String) : Nat :=
  (stripComments text).toList.countP fun c => !Text.isBlank c

theorem length_flatten_words (text : String) :
    (words text.toList).flatten.length = countVisible text := by
  rw [words, Text.flatten_words, countVisible, stripComments, String.toList_ofList,
    List.countP_eq_length_filter]

/-- **The code of a text is not longer than the text without its comments and blanks.** -/
theorem length_assemble_le (h : assemble text = .ok code) : code.length ≤ countVisible text := by
  obtain ⟨tokens, hreads, rfl⟩ := assemble_eq_ok_iff.1 h
  rw [← length_flatten_words]
  exact length_flatMap_bytes_le hreads

theorem countVisible_le_length (text : String) :
    countVisible text ≤ (stripComments text).length := by
  rw [← String.length_toList]
  exact List.countP_le_length

end Source

end SpendScript
