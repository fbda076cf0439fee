import SpendScript.Proofs.Machine.Pushes
import SpendScript.Proofs.Spend.Joined

/-!
# Spends of straight-line code

Where the words of both texts stand for the instructions of a straight-line program
(`Token.StandsFor`), the spend is evaluated by the action of this program, and nothing depends on
what else is in the texts.

* `Token.standsFor_data`, `Token.standsFor_operation`, … : the words for an instruction;
* `Spend.evaluate_eq_straight` : the evaluation of such a spend.
-/

namespace SpendScript

open Instruction (codeOf Pushes)

namespace Token

/-- The word means a token that is the instruction, and that an instruction can hold. -/
def StandsFor (word : List Char) (i : Instruction) : Prop :=
  ∃ token, Means word token ∧ token.Fits ∧ token.instruction? = some i

/-- The word stands for a push of the item. -/
def StandsForPush (word : List Char) (item : Bytes) : Prop :=
  ∃ i, StandsFor word i ∧ i.Pushes item

variable {word digits : List Char} {bytes : Bytes} {n : Int} {ws : List (List Char)}
  {items : List Bytes} {program : List Instruction}

theorem standsFor_operation {op : Operation} (h : (Opcode.operation op).name.toList = word) :
    StandsFor word (.operation op) := by
  rw [← h]
  exact ⟨_, .name _, trivial, rfl⟩

theorem standsFor_data (h : Hex.Spells digits bytes) (hbytes : bytes.length ≤ Stack.maxItemSize) :
    StandsFor ('0' :: 'x' :: digits) (.pushOf bytes) :=
  ⟨_, .data h, Nat.lt_of_le_of_lt hbytes (by decide), rfl⟩

theorem standsForPush_data (h : Hex.Spells digits bytes)
    (hbytes : bytes.length ≤ Stack.maxItemSize) : StandsForPush ('0' :: 'x' :: digits) bytes :=
  ⟨_, standsFor_data h hbytes, Instruction.pushes_pushOf hbytes⟩

theorem standsForPush_number (h : Decimal word n) (hmin : minNumber ≤ n) (hmax : n ≤ maxNumber) :
    StandsForPush word (Number.encode n) := by
  have hfits : n.natAbs < Bytes.bound 8 := by
    have hbound : maxNumber.natAbs + 1 < Bytes.bound 8 := by decide
    simp only [minNumber, maxNumber] at hmin hmax hbound
    omega
  exact ⟨_, ⟨_, .number h hmin hmax, hfits, rfl⟩, Instruction.pushes_pushNumber hfits⟩

theorem standsForPush_empty : StandsForPush "OP_0".toList [] :=
  ⟨_, ⟨_, .name .empty, trivial, rfl⟩, Instruction.pushes_push (Nat.zero_le _) (Nat.zero_le _)⟩

theorem exists_program (h : List.Forall₂ StandsForPush ws items) :
    ∃ program, List.Forall₂ StandsFor ws program ∧ List.Forall₂ Pushes program items := by
  induction h with
  | nil => exact ⟨[], .nil, .nil⟩
  | cons hfirst _ ih =>
    obtain ⟨i, hstands, hpushes⟩ := hfirst
    obtain ⟨program, hprogram, hitems⟩ := ih
    exact ⟨i :: program, .cons hstands hprogram, .cons hpushes hitems⟩

theorem exists_tokens (h : List.Forall₂ StandsFor ws program) :
    ∃ tokens, List.Forall₂ (fun word token => read word = .ok token) ws tokens ∧
      (∀ token ∈ tokens, token.Fits) ∧ tokens.mapM instruction? = some program := by
  induction h with
  | nil => exact ⟨[], .nil, fun _ h => absurd h List.not_mem_nil, rfl⟩
  | cons hfirst _ ih =>
    obtain ⟨token, hmeans, hfits, hinstruction⟩ := hfirst
    obtain ⟨tokens, hreads, hall, hmapM⟩ := ih
    refine ⟨token :: tokens, .cons (read_eq_ok_iff.2 hmeans) hreads,
      List.forall_mem_cons.2 ⟨hfits, hall⟩, ?_⟩
    rw [List.mapM_cons, hinstruction, hmapM]
    rfl

end Token

open Token (StandsFor)

namespace Source

/-- **Words that stand for a program compile to its code.** -/
theorem assemble_of_standsFor {text : String} {program : List Instruction}
    (h : List.Forall₂ StandsFor (words text.toList) program) :
    assemble text = .ok (codeOf program) ∧ Instruction.decode? (codeOf program) = some program := by
  obtain ⟨tokens, hreads, hfits, hmapM⟩ := Token.exists_tokens h
  have hdecode := decode?_flatMap_bytes hfits hmapM
  obtain ⟨-, hcode⟩ := Instruction.decode?_eq_some_iff.1 hdecode
  rw [hcode]
  exact ⟨assemble_eq_ok_iff.2 ⟨tokens, hreads, rfl⟩, hdecode⟩

end Source

namespace Spend

variable {primitives : Primitives} {digest : Digest} {spend : Spend}
  {program : List Instruction}

/-- **A spend whose words stand for a straight-line program** is evaluated by its action. -/
theorem evaluate_eq_straight (primitives : Primitives) (digest : Digest)
    (hspend : spend.ShortTexts)
    (hwords : List.Forall₂ StandsFor
      (Source.words spend.scriptSig.toList ++ Source.words spend.scriptPubKey.toList) program)
    (hlight : Instruction.Light program maxCodeSize maxOperations) :
    ∃ m : Machine, m.primitives = primitives ∧ m.digest = digest ∧ m.rules = .standard ∧
      spend.evaluate primitives digest =
        (Machine.answerOf (m.straight program [])).mapError .fault := by
  have hjoined : Source.words (spend.scriptSig ++ "\n" ++ spend.scriptPubKey).toList =
      Source.words spend.scriptSig.toList ++ Source.words spend.scriptPubKey.toList := by
    rw [← Source.words_append_newline]
    simp
  rw [← hjoined] at hwords
  obtain ⟨hassemble, hdecode⟩ := Source.assemble_of_standsFor hwords
  have hcompile : spend.compile = .ok (codeOf program) := by
    rw [compile_eq_joined hspend, hassemble]
    rfl
  obtain ⟨m, hload⟩ : ∃ m, Machine.load primitives digest (codeOf program) = .ok m :=
    ⟨_, Machine.load_eq hlight.length_le⟩
  obtain ⟨hcode, hdigest, hprimitives, hrules⟩ := Machine.of_load hload
  have hrun := Machine.run_eq_straight (Machine.capacity_of_load hload) (hcode ▸ hdecode)
    hlight.short hlight.operations_le (hlight.straight m)
  refine ⟨m, hprimitives, hdigest, hrules, ?_⟩
  rw [evaluate, prepare, hcompile, ok_bind, hload, Except.mapError, ok_bind, hrun]

end Spend

end SpendScript
