import SpendScript.Crypto.ScriptSignature
import SpendScript.Proofs.Instruction.Boundary
import SpendScript.Proofs.Source.Code
import SpendScript.Spend

/-!
# The boundary between the texts of a spend

The code of a spend is that of the spender's text and behind it that of the output's text
(`Spend.compile_eq_ok_iff`).  The two are read apart iff the first is complete or the second is
empty (`Spend.scan_compile`): a spender who ends the text with the name of a push with a length
makes the push take what it lacks from the code of the output, and instructions of the output are
then no longer seen (`Spend.scan_compile_bareLength`).
-/

namespace SpendScript

namespace Spend

open Instruction (decode? scan)

variable {spend : Spend} {code : Bytes}

/-! ### Compiling both texts -/

theorem validate_eq (spend : Spend) :
    spend.validate =
      let scriptSig := Source.stripComments spend.scriptSig
      let scriptPubKey := Source.stripComments spend.scriptPubKey
      if scriptSig.length > Source.maxLength then .error (.scriptSigTooLong scriptSig.length)
      else if scriptPubKey.length > Source.maxLength then
        .error (.scriptPubKeyTooLong scriptPubKey.length)
      else .ok ⟨scriptSig, scriptPubKey⟩ := by
  unfold validate
  simp only
  split_ifs <;> rfl

theorem bind_eq_ok_iff {ε α β : Type} {x : Except ε α} {f : α → Except ε β} {b : β} :
    (x >>= f) = .ok b ↔ ∃ a, x = .ok a ∧ f a = .ok b := by
  cases x <;> simp [bind, Except.bind]

theorem assemble_eq_ok_iff {text : String} :
    assemble text = .ok code ↔ Source.assemble text = .ok code := by
  rw [assemble]
  cases Source.assemble text <;> simp [Except.mapError]

/-- **A spend compiles iff neither text is too long and both compile**, and then to the code of
one behind that of the other. -/
theorem compile_eq_ok_iff :
    spend.compile = .ok code ↔
      (Source.stripComments spend.scriptSig).length ≤ Source.maxLength ∧
      (Source.stripComments spend.scriptPubKey).length ≤ Source.maxLength ∧
      ∃ unlocking locking, Source.assemble spend.scriptSig = .ok unlocking ∧
        Source.assemble spend.scriptPubKey = .ok locking ∧ code = unlocking ++ locking := by
  rw [compile, bind_eq_ok_iff, validate_eq]
  simp only
  split_ifs with hsig hkey
  · refine iff_of_false (by simp) ?_
    rintro ⟨hle, -⟩
    exact Nat.not_le.2 hsig hle
  · refine iff_of_false (by simp) ?_
    rintro ⟨-, hle, -⟩
    exact Nat.not_le.2 hkey hle
  · constructor
    · rintro ⟨stripped, hstripped, h⟩
      obtain rfl := Except.ok.inj hstripped
      obtain ⟨unlocking, hunlocking, h⟩ := bind_eq_ok_iff.1 h
      obtain ⟨locking, hlocking, h⟩ := bind_eq_ok_iff.1 h
      rw [assemble_eq_ok_iff, Source.assemble_stripComments] at hunlocking hlocking
      exact ⟨Nat.not_lt.1 hsig, Nat.not_lt.1 hkey, unlocking, locking, hunlocking, hlocking,
        (Except.ok.inj h).symm⟩
    · rintro ⟨-, -, unlocking, locking, hunlocking, hlocking, rfl⟩
      refine ⟨_, rfl, bind_eq_ok_iff.2 ⟨unlocking, ?_, bind_eq_ok_iff.2 ⟨locking, ?_, rfl⟩⟩⟩
      · exact assemble_eq_ok_iff.2 ((Source.assemble_stripComments _).trans hunlocking)
      · exact assemble_eq_ok_iff.2 ((Source.assemble_stripComments _).trans hlocking)

/-! ### Reading the code of both texts -/

theorem length_word_lt {text : String} {word : List Char}
    (h : (Source.stripComments text).length ≤ Source.maxLength)
    (hword : word ∈ Source.words text.toList) :
    4 * word.length < Bytes.bound PushWidth.four.size := by
  have hle : word.length ≤ (Source.stripChars text.toList).length :=
    Text.length_le_of_mem_words hword
  rw [Source.stripComments, String.length_ofList] at h
  have hmax : 4 * Source.maxLength < Bytes.bound PushWidth.four.size := by decide
  omega

/-- The text has the name of a push with a length among its words. -/
def NamesLength (text : String) : Prop :=
  ∃ word ∈ Source.words text.toList, ∃ width : PushWidth, String.ofList word = width.name

/-- **The texts of a spend are read apart iff the first one does not end within a push**, or there
is nothing behind it.  It does not if it has no name of a push with a length, and then no push that
begins in the code of the first text takes a byte from the code of the second. -/
theorem scan_compile (h : spend.compile = .ok code) :
    ∃ unlocking locking, Source.assemble spend.scriptSig = .ok unlocking ∧
      Source.assemble spend.scriptPubKey = .ok locking ∧ code = unlocking ++ locking ∧
      (scan code = scan unlocking ++ (scan locking).map (Located.shift unlocking.length) ↔
        (decode? unlocking).isSome ∨ locking = []) ∧
      (¬ NamesLength spend.scriptSig → (decode? unlocking).isSome) ∧
      ((decode? unlocking).isSome → ∀ place ∈ scan code, place.offset < unlocking.length →
        ∃ i size, place.fetched = .complete i size ∧ place.offset + size ≤ unlocking.length) := by
  obtain ⟨hsig, -, unlocking, locking, hunlocking, hlocking, rfl⟩ := compile_eq_ok_iff.1 h
  refine ⟨unlocking, locking, hunlocking, hlocking, rfl, Instruction.scan_append_eq_iff, ?_, ?_⟩
  · intro hnames
    refine Source.isSome_decode? hunlocking (fun word hword => length_word_lt hsig hword) ?_
    intro word hword width hname
    exact hnames ⟨word, hword, width, hname⟩
  · intro hdecode place hplace hoffset
    obtain ⟨program, hprogram⟩ := Option.isSome_iff_exists.1 hdecode
    exact Instruction.add_size_le_of_mem_scan_append hprogram hplace hoffset

/-- The text of the output is read as it stands behind a text that pushes a byte. -/
theorem scan_compile_push :
    ∃ unlocking locking, Source.assemble "0x07" = .ok unlocking ∧
      Source.assemble "0x00 OP_RETURN" = .ok locking ∧
      Spend.compile ⟨"0x07", "0x00 OP_RETURN"⟩ = .ok (unlocking ++ locking) ∧
      scan (unlocking ++ locking) =
        scan unlocking ++ (scan locking).map (Located.shift unlocking.length) := by
  have hcompile : Spend.compile ⟨"0x07", "0x00 OP_RETURN"⟩ =
      .ok [0x01, 0x07, 0x01, 0x00, 0x6a] := by decide +kernel
  obtain ⟨unlocking, locking, hunlocking, hlocking, hcode, hscan, hcomplete, -⟩ :=
    scan_compile hcompile
  rw [hcode] at hcompile hscan
  refine ⟨unlocking, locking, hunlocking, hlocking, hcompile, hscan.2 (.inl (hcomplete ?_))⟩
  rintro ⟨word, hword, width, hname⟩
  have hwords : Source.words "0x07".toList = [['0', 'x', '0', '7']] := by decide +kernel
  rw [hwords, List.mem_singleton] at hword
  subst hword
  revert hname
  cases width <;> decide

/-- A push behind which its text ends takes its length from the first instruction of the output and
its data from the second one, which is then not obeyed. -/
theorem scan_compile_bareLength :
    Spend.compile ⟨"OP_PUSHDATA2", "0x00 OP_RETURN"⟩ = .ok [0x4d, 0x01, 0x00, 0x6a] ∧
      Source.assemble "OP_PUSHDATA2" = .ok [0x4d] ∧
      Source.assemble "0x00 OP_RETURN" = .ok [0x01, 0x00, 0x6a] ∧
      scan [0x4d, 0x01, 0x00, 0x6a] ≠
        scan [0x4d] ++ (scan [0x01, 0x00, 0x6a]).map (Located.shift 1) ∧
      Spend.evaluate .standard .zero ⟨"OP_PUSHDATA2", "0x00 OP_RETURN"⟩ = .ok true := by
  refine ⟨by decide +kernel, by decide +kernel, by decide +kernel, by decide +kernel, ?_⟩
  decide +kernel

end Spend

end SpendScript
