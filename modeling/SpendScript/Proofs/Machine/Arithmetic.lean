import SpendScript.Crypto.ScriptSignature
import SpendScript.Proofs.Machine.Move
import SpendScript.Proofs.Number.Words
import SpendScript.Proofs.Stack.Operands

/-!
# Arithmetic on the stack

The arithmetic words replace one, two or three numbers by one.  Each has an exact result, which is a
number or a truth value (`Arithmetic.Computes`), and each can be computed in words of 64 bits
(`Arithmetic.word?`).

* `Arithmetic.action_of_operands`, `Arithmetic.action_of_lt`, `Arithmetic.action_of_not_isOperand` :
  a word with its operands on top, with too few items, and with something else in their place;
* `Machine.step_arithmetic` : so much for the step of a machine.
-/

namespace SpendScript

open Number (encode value ofBool isMinimal IsOperand wordValue?)

/-- The arithmetic words. -/
inductive Arithmetic
  | unary (u : Unary)
  | binary (b : Binary)
  | within
  deriving Repr, DecidableEq

namespace Arithmetic

/-- The word as an operation. -/
def operation : Arithmetic → Operation
  | unary u => .unary u
  | binary b => .binary b
  | within => .within

/-- The number of operands. -/
def arity : Arithmetic → Nat
  | unary _ => 1
  | binary _ => 2
  | within => 3

/-- What the word does to the main stack. -/
def action (capacity : Stack.Capacity) : Arithmetic → Stack.Action Unit
  | unary u => Stack.unary capacity u
  | binary b => Stack.binary capacity b
  | within => Stack.within capacity

/-- The items that the word takes, in the order in which they were pushed. -/
def operands (op : Arithmetic) (s : Stack) : List Bytes :=
  (s.take op.arity).reverse

/-- The exact result of a word for numbers in the order in which they were pushed: a number or a
truth value, as the item for it. -/
inductive Computes : Arithmetic → List Int → Bytes → Prop
  | add1 (a : Int) : Computes (unary .add1) [a] (encode (a + 1))
  | sub1 (a : Int) : Computes (unary .sub1) [a] (encode (a - 1))
  | negate (a : Int) : Computes (unary .negate) [a] (encode (-a))
  | abs (a : Int) : Computes (unary .abs) [a] (encode a.natAbs)
  | not (a : Int) : Computes (unary .not) [a] (ofBool (a = 0))
  | notZero (a : Int) : Computes (unary .notZero) [a] (ofBool (a ≠ 0))
  | add (a b : Int) : Computes (binary .add) [a, b] (encode (a + b))
  | sub (a b : Int) : Computes (binary .sub) [a, b] (encode (a - b))
  | boolAnd (a b : Int) : Computes (binary .boolAnd) [a, b] (ofBool (a ≠ 0 ∧ b ≠ 0))
  | boolOr (a b : Int) : Computes (binary .boolOr) [a, b] (ofBool (a ≠ 0 ∨ b ≠ 0))
  | numEqual (a b : Int) : Computes (binary .numEqual) [a, b] (ofBool (a = b))
  | numNotEqual (a b : Int) : Computes (binary .numNotEqual) [a, b] (ofBool (a ≠ b))
  | lessThan (a b : Int) : Computes (binary .lessThan) [a, b] (ofBool (a < b))
  | greaterThan (a b : Int) : Computes (binary .greaterThan) [a, b] (ofBool (a > b))
  | lessThanOrEqual (a b : Int) : Computes (binary .lessThanOrEqual) [a, b] (ofBool (a ≤ b))
  | greaterThanOrEqual (a b : Int) : Computes (binary .greaterThanOrEqual) [a, b] (ofBool (a ≥ b))
  | min (a b : Int) : Computes (binary .min) [a, b] (encode (Min.min a b))
  | max (a b : Int) : Computes (binary .max) [a, b] (encode (Max.max a b))
  | within (n lower upper : Int) :
      Computes within [n, lower, upper] (ofBool (lower ≤ n ∧ n < upper))

/-- The number that the word leaves, for numbers in the order in which they were pushed. -/
def outcome : Arithmetic → List Int → Int
  | unary u, [a] => u.apply a
  | binary b, [x, y] => b.apply x y
  | within, [n, lower, upper] => Number.ofTruth (lower ≤ n && n < upper)
  | _, _ => 0

/-- The same in words, unless an operation on words overflows. -/
def word? : Arithmetic → List Int64 → Option Int64
  | unary u, [a] => u.word? a
  | binary b, [x, y] => b.word? x y
  | within, [n, lower, upper] => some (Number.truthWord (lower ≤ n && n < upper))
  | _, _ => none

variable {op : Arithmetic} {numbers : List Int}

theorem cases_of_arity {α : Type} {operands : List α} (h : operands.length = op.arity) :
    (∃ u a, op = unary u ∧ operands = [a]) ∨
      (∃ b x y, op = binary b ∧ operands = [x, y]) ∨
      ∃ n lower upper, op = within ∧ operands = [n, lower, upper] := by
  cases op with
  | unary u =>
    obtain ⟨a, rfl⟩ := List.length_eq_one_iff.1 h
    exact .inl ⟨u, a, rfl, rfl⟩
  | binary b =>
    obtain ⟨x, y, rfl⟩ := List.length_eq_two.1 h
    exact .inr (.inl ⟨b, x, y, rfl, rfl⟩)
  | within =>
    obtain ⟨n, lower, upper, rfl⟩ := List.length_eq_three.1 h
    exact .inr (.inr ⟨n, lower, upper, rfl, rfl⟩)

/-! ### Results -/

theorem encode_ofTruth (b : Bool) : encode (Number.ofTruth b) = ofBool b := by
  cases b with
  | false => exact Number.encode_zero
  | true => decide +kernel

theorem computes_unary (u : Unary) (a : Int) : Computes (unary u) [a] (encode (u.apply a)) := by
  cases u with
  | add1 => exact .add1 a
  | sub1 => exact .sub1 a
  | negate => exact .negate a
  | abs => exact .abs a
  | not =>
    have h := Computes.not a
    rwa [← encode_ofTruth] at h
  | notZero =>
    have h := Computes.notZero a
    rwa [← encode_ofTruth, decide_not] at h

theorem computes_binary (b : Binary) (x y : Int) :
    Computes (binary b) [x, y] (encode (b.apply x y)) := by
  cases b with
  | add => exact .add x y
  | sub => exact .sub x y
  | min => exact .min x y
  | max => exact .max x y
  | boolAnd =>
    have h := Computes.boolAnd x y
    rwa [← encode_ofTruth, Bool.decide_and, decide_not, decide_not] at h
  | boolOr =>
    have h := Computes.boolOr x y
    rwa [← encode_ofTruth, Bool.decide_or, decide_not, decide_not] at h
  | numEqual =>
    have h := Computes.numEqual x y
    rwa [← encode_ofTruth] at h
  | numNotEqual =>
    have h := Computes.numNotEqual x y
    rwa [← encode_ofTruth, decide_not] at h
  | lessThan =>
    have h := Computes.lessThan x y
    rwa [← encode_ofTruth] at h
  | greaterThan =>
    have h := Computes.greaterThan x y
    rwa [← encode_ofTruth] at h
  | lessThanOrEqual =>
    have h := Computes.lessThanOrEqual x y
    rwa [← encode_ofTruth] at h
  | greaterThanOrEqual =>
    have h := Computes.greaterThanOrEqual x y
    rwa [← encode_ofTruth] at h

/-- **The word leaves its exact result.** -/
theorem computes_outcome (h : numbers.length = op.arity) :
    op.Computes numbers (encode (op.outcome numbers)) := by
  obtain ⟨u, a, rfl, rfl⟩ | ⟨b, x, y, rfl, rfl⟩ | ⟨n, lower, upper, rfl, rfl⟩ := cases_of_arity h
  · exact computes_unary u a
  · exact computes_binary b x y
  · have h := Computes.within n lower upper
    rwa [← encode_ofTruth, Bool.decide_and] at h

theorem natAbs_outcome_le (h : numbers.length = op.arity)
    (hnumbers : ∀ n ∈ numbers, n.natAbs ≤ 2 ^ 31 - 1) :
    (op.outcome numbers).natAbs ≤ 2 ^ 32 - 2 := by
  obtain ⟨u, a, rfl, rfl⟩ | ⟨b, x, y, rfl, rfl⟩ | ⟨n, lower, upper, rfl, rfl⟩ := cases_of_arity h
  · have ha := hnumbers a (by simp)
    have hle : (outcome (unary u) [a]).natAbs ≤ a.natAbs + 1 := u.natAbs_apply_le a
    omega
  · have hx := hnumbers x (by simp)
    have hy := hnumbers y (by simp)
    have hle : (outcome (binary b) [x, y]).natAbs ≤ max (x.natAbs + y.natAbs) 1 :=
      b.natAbs_apply_le x y
    omega
  · exact (Number.natAbs_ofTruth_le _).trans (by decide)

theorem word?_eq_some {words : List Int64} (h : words.length = op.arity)
    (hwords : ∀ word ∈ words, word.toInt.natAbs ≤ 2 ^ 31 - 1) :
    ∃ word, op.word? words = some word ∧ word.toInt = op.outcome (words.map Int64.toInt) := by
  obtain ⟨u, a, rfl, rfl⟩ | ⟨b, x, y, rfl, rfl⟩ | ⟨n, lower, upper, rfl, rfl⟩ := cases_of_arity h
  · exact u.word?_eq_some (hwords a (by simp))
  · exact b.word?_eq_some (hwords x (by simp)) (hwords y (by simp))
  · refine ⟨_, rfl, ?_⟩
    rw [Number.toInt_truthWord]
    simp only [outcome, List.map, Int64.lt_iff_toInt_lt, Int64.le_iff_toInt_le]

/-! ### Operands -/

variable {s rest : Stack} {operands : List Bytes}

theorem exists_words (hoperands : ∀ item ∈ operands, IsOperand item) :
    ∃ words : List Int64, operands.map wordValue? = words.map some ∧
      words.map Int64.toInt = operands.map value := by
  induction operands with
  | nil => exact ⟨[], rfl, rfl⟩
  | cons item operands ih =>
    have hitem := hoperands item List.mem_cons_self
    obtain ⟨words, hwords, hvalues⟩ := ih fun other hother =>
      hoperands other (List.mem_cons_of_mem item hother)
    have hlength : item.length ≤ 8 := hitem.1.trans (by decide)
    obtain ⟨word, hword, hvalue⟩ := Number.wordValue?_eq_some hlength
    refine ⟨word :: words, ?_, ?_⟩
    · simp only [List.map_cons, hword, hwords]
    · simp only [List.map_cons, hvalue, hvalues]

theorem natAbs_outcome_map_le (h : operands.length = op.arity)
    (hoperands : ∀ item ∈ operands, IsOperand item) :
    (op.outcome (operands.map value)).natAbs ≤ 2 ^ 32 - 2 := by
  refine natAbs_outcome_le (by rw [List.length_map, h]) fun n hn => ?_
  obtain ⟨item, hitem, rfl⟩ := List.mem_map.1 hn
  exact Number.natAbs_value_le_of_isOperand (hoperands item hitem)

theorem length_encode_outcome_le (h : operands.length = op.arity)
    (hoperands : ∀ item ∈ operands, IsOperand item) :
    (encode (op.outcome (operands.map value))).length ≤ 5 := by
  have hlt : (op.outcome (operands.map value)).natAbs < Bytes.bound 4 :=
    Nat.lt_of_le_of_lt (natAbs_outcome_map_le h hoperands) (by decide)
  exact Number.length_encode_le hlt

/-- **Words compute the result from operands**, and nothing overflows. -/
theorem exists_word (h : operands.length = op.arity)
    (hoperands : ∀ item ∈ operands, IsOperand item) :
    ∃ words word, operands.map wordValue? = words.map some ∧ op.word? words = some word ∧
      word.toInt = op.outcome (operands.map value) := by
  obtain ⟨words, hwords, hvalues⟩ := exists_words hoperands
  have hlength : words.length = op.arity := by
    rw [← List.length_map (f := Int64.toInt), hvalues, List.length_map, h]
  obtain ⟨word, hword, hvalue⟩ := word?_eq_some hlength fun word hword => by
    have hmem : word.toInt ∈ operands.map value := hvalues ▸ List.mem_map_of_mem hword
    obtain ⟨item, hitem, hvalue⟩ := List.mem_map.1 hmem
    rw [← hvalue]
    exact Number.natAbs_value_le_of_isOperand (hoperands item hitem)
  exact ⟨words, word, hwords, hword, by rw [hvalue, hvalues]⟩

theorem require_two (y x : Bytes) : Stack.require 2 (y :: x :: rest) = .ok () (y :: x :: rest) :=
  Stack.require_of_le (by simp)

theorem require_three (upper lower n : Bytes) : Stack.require 3 (upper :: lower :: n :: rest) =
    .ok () (upper :: lower :: n :: rest) :=
  Stack.require_of_le (by simp)

/-- A word with operands on top, the last pushed first. -/
theorem action_of_operands (h : operands.length = op.arity)
    (hoperands : ∀ item ∈ operands, IsOperand item) (hroom : rest.length < Stack.maxItems) :
    op.action (some Stack.maxItems) (operands.reverse ++ rest) =
      .ok () (encode (op.outcome (operands.map value)) :: rest) := by
  have hpush := Stack.pushNumber_eq_ok hroom
    ((length_encode_outcome_le h hoperands).trans (by decide))
  obtain ⟨u, a, rfl, rfl⟩ | ⟨b, x, y, rfl, rfl⟩ | ⟨n, lower, upper, rfl, rfl⟩ := cases_of_arity h
  · have ha := Stack.popNumber_of_isOperand (hoperands a (by simp))
    simp only [action, List.reverse_singleton, List.singleton_append, Stack.unary,
      Effect.bind_apply, ha]
    exact hpush
  · have hbinary := Stack.binary_eq_pushNumber (some Stack.maxItems) b
      (hoperands x (by simp)) (hoperands y (by simp)) rest
    simp only [action, List.reverse_cons, List.reverse_nil, List.nil_append, List.cons_append,
      hbinary]
    exact hpush
  · have hn := Stack.popNumber_of_isOperand (hoperands n (by simp))
    have hlower := Stack.popNumber_of_isOperand (hoperands lower (by simp))
    have hupper := Stack.popNumber_of_isOperand (hoperands upper (by simp))
    simp only [action, List.reverse_cons, List.reverse_nil, List.nil_append, List.cons_append,
      Stack.within, Effect.bind_apply, require_three, hn, hlower, hupper]
    exact (Stack.pushTruth_eq_ok hroom _).trans (by rw [← encode_ofTruth]; rfl)

variable (capacity : Stack.Capacity)

theorem action_of_not_isOperand (h : operands.length = op.arity)
    (hoperands : ¬ ∀ item ∈ operands, IsOperand item) (rest : Stack) :
    ∃ left, op.action capacity (operands.reverse ++ rest) = .error .numberRange left := by
  -- the items are taken from the top, and the first that is no operand is refused
  obtain ⟨u, a, rfl, rfl⟩ | ⟨b, x, y, rfl, rfl⟩ | ⟨n, lower, upper, rfl, rfl⟩ := cases_of_arity h
  · have ha : ¬ IsOperand a := by simpa using hoperands
    refine ⟨rest, ?_⟩
    simp only [action, List.reverse_singleton, List.singleton_append, Stack.unary,
      Effect.bind_apply, Stack.popNumber_of_not_isOperand ha]
  · simp only [action, List.reverse_cons, List.reverse_nil, List.nil_append, List.cons_append,
      Stack.binary, Effect.bind_apply, require_two]
    by_cases hy : IsOperand y
    · have hx : ¬ IsOperand x := by simpa [hy] using hoperands
      simp only [Stack.popNumber_of_isOperand hy, Stack.popNumber_of_not_isOperand hx]
      exact ⟨_, rfl⟩
    · simp only [Stack.popNumber_of_not_isOperand hy]
      exact ⟨_, rfl⟩
  · simp only [action, List.reverse_cons, List.reverse_nil, List.nil_append, List.cons_append,
      Stack.within, Effect.bind_apply, require_three]
    by_cases hupper : IsOperand upper
    · simp only [Stack.popNumber_of_isOperand hupper]
      by_cases hlower : IsOperand lower
      · have hn : ¬ IsOperand n := by simpa [hupper, hlower] using hoperands
        simp only [Stack.popNumber_of_isOperand hlower, Stack.popNumber_of_not_isOperand hn]
        exact ⟨_, rfl⟩
      · simp only [Stack.popNumber_of_not_isOperand hlower]
        exact ⟨_, rfl⟩
    · simp only [Stack.popNumber_of_not_isOperand hupper]
      exact ⟨_, rfl⟩

theorem action_of_lt (h : s.length < op.arity) :
    op.action capacity s = .error .badStackOperation s := by
  cases op with
  | unary u =>
    obtain rfl := List.length_eq_zero_iff.1 (Nat.lt_one_iff.1 h)
    rfl
  | binary b =>
    have hrequire : Stack.require 2 s = _ := Stack.require_of_lt h
    simp only [action, Stack.binary, Effect.bind_apply, hrequire]
  | within =>
    have hrequire : Stack.require 3 s = _ := Stack.require_of_lt h
    simp only [action, Stack.within, Effect.bind_apply, hrequire]

theorem arity_pos (op : Arithmetic) : 0 < op.arity := by
  cases op <;> exact Nat.succ_pos _

theorem length_operands (h : op.arity ≤ s.length) : (op.operands s).length = op.arity := by
  rw [operands, List.length_reverse, List.length_take_of_le h]

theorem reverse_operands_append (op : Arithmetic) (s : Stack) :
    (op.operands s).reverse ++ s.drop op.arity = s := by
  rw [operands, List.reverse_reverse, List.take_append_drop]

end Arithmetic

/-! ### The step -/

namespace Machine

variable {m : Machine} {s : State}

theorem mainAction?_arithmetic (hcapacity : m.rules.capacity = some Stack.maxItems)
    (op : Arithmetic) :
    m.mainAction? (.operation op.operation) = some (op.action (some Stack.maxItems)) := by
  cases op <;> simp only [Arithmetic.operation, Arithmetic.action, mainAction?, hcapacity]

theorem operations_arithmetic (op : Arithmetic) :
    Instruction.operations [.operation op.operation] = 1 := by
  cases op with
  | unary u => cases u <;> decide
  | binary b => cases b <;> decide
  | within => decide

/-- **Arithmetic.**  A machine that comes to an arithmetic word fails if there are not as many items
as the word takes, and leaves them; and it fails if one of them is no operand.  Otherwise it puts
the exact result in their place and leaves what is below.  Words of 64 bits compute the result from
the operands without an overflow.  It is minimal, has at most five bytes and a value of at most
`2 ^ 32 - 2` without its sign, and is an operand again if that is at most `2 ^ 31 - 1`.  The items
are not too many for that as long as a machine runs (`Limits.length_le_of_running`). -/
theorem step_arithmetic {primitives : Primitives} {digest : Digest} {code : Bytes}
    (hload : Machine.load primitives digest code = .ok m) (op : Arithmetic)
    (hs : s.status = .running) (hexecuting : s.isExecuting = true)
    (hbyte : m.code[s.pc]? = some op.operation.toByte) (hcount : s.opCount < maxOperations)
    (hroom : s.main.length + s.alt.length ≤ Stack.maxItems) :
    (s.main.length < op.arity →
        ∃ t, m.step s = .error .badStackOperation t ∧ t.main = s.main) ∧
      (op.arity ≤ s.main.length → (∃ item ∈ op.operands s.main, ¬ IsOperand item) →
        ∃ t, m.step s = .error .numberRange t) ∧
      (op.arity ≤ s.main.length → (∀ item ∈ op.operands s.main, IsOperand item) →
        ∃ (result : Bytes) (words : List Int64) (word : Int64),
          m.step s = .ok () { s with
            pc := s.pc + 1, main := result :: s.main.drop op.arity, opCount := s.opCount + 1 } ∧
          op.Computes ((op.operands s.main).map value) result ∧
          (op.operands s.main).map wordValue? = words.map some ∧
          op.word? words = some word ∧ encode word.toInt = result ∧
          isMinimal result = true ∧ result.length ≤ 5 ∧
          (value result).natAbs ≤ 2 ^ 32 - 2 ∧
          (IsOperand result ↔ (value result).natAbs ≤ 2 ^ 31 - 1)) := by
  have haction := mainAction?_arithmetic (capacity_of_load hload) op
  have hreads := reads_of_getElem? hbyte
  have hone := operations_arithmetic op
  have hcount : (Instruction.operation op.operation).isCounted = true →
      s.opCount < maxOperations := fun _ => hcount
  have hmain := op.reverse_operands_append s.main
  refine ⟨fun hfew => ?_, fun harity hbad => ?_, fun harity hoperands => ?_⟩
  · have hstep := step_of_mainAction?_error haction hs hreads trivial hexecuting hcount
      (Arithmetic.action_of_lt _ hfew)
    exact ⟨_, hstep, rfl⟩
  · have hbad : ¬ ∀ item ∈ op.operands s.main, IsOperand item := by
      push Not
      exact hbad
    obtain ⟨left, hfault⟩ := Arithmetic.action_of_not_isOperand (some Stack.maxItems)
      (Arithmetic.length_operands harity) hbad (s.main.drop op.arity)
    rw [hmain] at hfault
    exact ⟨_, step_of_mainAction?_error haction hs hreads trivial hexecuting hcount hfault⟩
  · have hlength := Arithmetic.length_operands harity
    have hpositive := op.arity_pos
    have hrest : (s.main.drop op.arity).length + s.alt.length < Stack.maxItems := by
      rw [List.length_drop]
      omega
    have hresult := Arithmetic.action_of_operands hlength hoperands
      (Nat.lt_of_le_of_lt (Nat.le_add_right _ _) hrest)
    rw [hmain] at hresult
    have hstep := step_of_mainAction?_ok haction hs hreads trivial hexecuting hcount hresult
      (by rw [List.length_cons]; omega)
    rw [hone] at hstep
    obtain ⟨words, word, hwords, hword, hvalue⟩ := Arithmetic.exists_word hlength hoperands
    refine ⟨_, words, word, hstep, Arithmetic.computes_outcome (by rw [List.length_map, hlength]),
      hwords, hword, by rw [hvalue], Number.isMinimal_encode _, ?_, ?_, ?_⟩
    · exact Arithmetic.length_encode_outcome_le hlength hoperands
    · rw [Number.value_encode]
      exact Arithmetic.natAbs_outcome_map_le hlength hoperands
    · rw [Number.value_encode, Number.isOperand_encode_iff]

/-- The greatest operands have a sum of five bytes, which is no operand again; a byte that makes no
difference is refused; and one item is not enough. -/
theorem step_arithmetic_add : ∃ m t u, Machine.load .standard .zero [0x93, 0x93] = .ok m ∧
    m.step { main := [[0xff, 0xff, 0xff, 0x7f], [0xff, 0xff, 0xff, 0x7f], [0x07]] } =
      .ok () { pc := 1, main := [[0xfe, 0xff, 0xff, 0xff, 0x00], [0x07]], opCount := 1 } ∧
    ¬ IsOperand [0xfe, 0xff, 0xff, 0xff, 0x00] ∧
    m.step { main := [[0x01, 0x00], [0x02]] } = .error .numberRange t ∧
    m.step { main := [[0x02]] } = .error .badStackOperation u ∧ u.main = [[0x02]] := by
  have hload : Machine.load .standard .zero [0x93, 0x93] = .ok _ := load_eq (by decide)
  obtain ⟨-, -, hsum⟩ := step_arithmetic hload (.binary .add)
    (s := { main := [[0xff, 0xff, 0xff, 0x7f], [0xff, 0xff, 0xff, 0x7f], [0x07]] })
    rfl rfl rfl (by decide) (by decide)
  obtain ⟨-, hbad, -⟩ := step_arithmetic hload (.binary .add)
    (s := { main := [[0x01, 0x00], [0x02]] }) rfl rfl rfl (by decide) (by decide)
  obtain ⟨hfew, -, -⟩ := step_arithmetic hload (.binary .add)
    (s := { main := [[0x02]] }) rfl rfl rfl (by decide) (by decide)
  obtain ⟨result, words, word, hstep, hcomputes, -⟩ := hsum (by decide) (by decide)
  obtain rfl : result = [0xfe, 0xff, 0xff, 0xff, 0x00] := by
    cases hcomputes
    decide +kernel
  obtain ⟨t, hrange⟩ := hbad (by decide) (by decide)
  obtain ⟨u, hempty, hleft⟩ := hfew (by decide)
  exact ⟨_, t, u, hload, hstep, by decide, hrange, hempty, hleft⟩

end Machine

end SpendScript
