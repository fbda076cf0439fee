import SpendScript.Proofs.Machine.Faults
import SpendScript.Proofs.Source.Offender
import SpendScript.Proofs.Spend.Boundary

/-!
# The texts of a spend as one

The texts of a spend are compiled one by one, but to what a single text would be compiled to that
has one of them on the lines behind the other.  So a comment, a carriage return or a word at the end
of the first text never reaches into the second.

* `Spend.compile_eq_joined` : both ways to compile the texts are the same;
* `Spend.evaluate_eq_error_iff` : a spend fails with the first that is wrong (`Spend.Failure`);
* `Spend.evaluate_joined` : both, and when code is refused as too long.
-/

namespace SpendScript

namespace Spend

open Source (Offender)
open Token (IsToken Blames)

/-- Neither text has too many characters besides its comments. -/
structure ShortTexts (spend : Spend) : Prop where
  /-- The text of the spender has not. -/
  length_scriptSig_le : (Source.stripComments spend.scriptSig).length ≤ Source.maxLength
  /-- The text of the output has not. -/
  length_scriptPubKey_le : (Source.stripComments spend.scriptPubKey).length ≤ Source.maxLength

/-- What is wrong with a spend, if everything is fine that is looked at before. -/
inductive Failure (primitives : Primitives) (digest : Digest) (spend : Spend) : SpendError → Prop
  /-- The text of the spender is too long. -/
  | scriptSigTooLong {n : Nat} (hlength : (Source.stripComments spend.scriptSig).length = n)
      (h : Source.maxLength < n) : Failure primitives digest spend (.scriptSigTooLong n)
  /-- The text of the output is too long. -/
  | scriptPubKeyTooLong {n : Nat}
      (hsig : (Source.stripComments spend.scriptSig).length ≤ Source.maxLength)
      (hlength : (Source.stripComments spend.scriptPubKey).length = n)
      (h : Source.maxLength < n) : Failure primitives digest spend (.scriptPubKeyTooLong n)
  /-- The text of the spender has a word that is no token, and this is the first. -/
  | scriptSig {word : List Char} {e : SourceError} (hshort : spend.ShortTexts)
      (hword : Offender (Source.words spend.scriptSig.toList) word) (h : Blames word e) :
      Failure primitives digest spend (.source e)
  /-- The text of the output has a word that is no token, and this is the first. -/
  | scriptPubKey {word : List Char} {e : SourceError} (hshort : spend.ShortTexts)
      (hsig : ∀ word ∈ Source.words spend.scriptSig.toList, IsToken word)
      (hword : Offender (Source.words spend.scriptPubKey.toList) word) (h : Blames word e) :
      Failure primitives digest spend (.source e)
  /-- The code of both texts is too long. -/
  | codeSize {unlocking locking : Bytes} {n : Nat} (hshort : spend.ShortTexts)
      (hsig : Source.assemble spend.scriptSig = .ok unlocking)
      (hkey : Source.assemble spend.scriptPubKey = .ok locking)
      (hlength : unlocking.length + locking.length = n) (h : maxCodeSize < n) :
      Failure primitives digest spend (.fault (.codeSize n))
  /-- The run of the code fails. -/
  | run {unlocking locking : Bytes} {m : Machine} {fault : Fault} (hshort : spend.ShortTexts)
      (hsig : Source.assemble spend.scriptSig = .ok unlocking)
      (hkey : Source.assemble spend.scriptPubKey = .ok locking)
      (hload : Machine.load primitives digest (unlocking ++ locking) = .ok m)
      (h : m.run = .error fault) : Failure primitives digest spend (.fault fault)

variable {primitives : Primitives} {digest : Digest} {spend : Spend} {e : SpendError}
  {unlocking locking : Bytes}

/-! ### Compiling both texts -/

theorem validate_of_short (h : spend.ShortTexts) :
    spend.validate = .ok
      ⟨Source.stripComments spend.scriptSig, Source.stripComments spend.scriptPubKey⟩ := by
  rw [validate_eq]
  simp only [gt_iff_lt, if_neg (Nat.not_lt.2 h.length_scriptSig_le),
    if_neg (Nat.not_lt.2 h.length_scriptPubKey_le)]

theorem assemble_stripComments (text : String) :
    assemble (Source.stripComments text) = (Source.assemble text).mapError .source := by
  rw [assemble, Source.assemble_stripComments]

theorem ok_bind {ε α β : Type} (a : α) (f : α → Except ε β) : (Except.ok a >>= f) = f a := rfl

theorem error_bind {ε α β : Type} (e : ε) (f : α → Except ε β) :
    (Except.error e >>= f) = .error e := rfl

theorem compile_of_short (h : spend.ShortTexts) :
    spend.compile = do
      let unlocking ← (Source.assemble spend.scriptSig).mapError .source
      let locking ← (Source.assemble spend.scriptPubKey).mapError .source
      return unlocking ++ locking := by
  rw [compile, validate_of_short h, ok_bind, assemble_stripComments, assemble_stripComments]

/-- **Both texts compile to what they compile to as one**, on lines of their own. -/
theorem compile_eq_joined (h : spend.ShortTexts) :
    spend.compile =
      (Source.assemble (spend.scriptSig ++ "\n" ++ spend.scriptPubKey)).mapError .source := by
  rw [compile_of_short h, Source.assemble_append_newline]
  cases Source.assemble spend.scriptSig with
  | error e => rfl
  | ok unlocking =>
    cases Source.assemble spend.scriptPubKey with
    | error e => rfl
    | ok locking => rfl

/-- It makes no difference that one compiler is used for both, nor what it was used for before. -/
theorem compileWith_eq (c : Compiler) (spend : Spend) : spend.compileWith c = spend.compile := by
  rw [compileWith, compile]
  cases spend.validate with
  | error e => rw [error_bind, error_bind]
  | ok checked =>
    simp only [ok_bind]
    rw [assemble, assemble, ← Compiler.answer_compile c checked.scriptSig, Effect.bind_apply]
    cases Compiler.compile checked.scriptSig c with
    | error e c' => rfl
    | ok unlocking c' =>
      rw [← Compiler.answer_compile c' checked.scriptPubKey]
      simp only [Effect.bind_apply]
      cases Compiler.compile checked.scriptPubKey c' with
      | error e c'' => rfl
      | ok locking c'' => rfl

/-! ### What is wrong -/

theorem evaluate_of_scriptSigTooLong
    (h : Source.maxLength < (Source.stripComments spend.scriptSig).length) :
    spend.evaluate primitives digest =
      .error (.scriptSigTooLong (Source.stripComments spend.scriptSig).length) := by
  rw [evaluate, prepare, compile, validate_eq]
  simp only [gt_iff_lt, if_pos h]
  rfl

theorem evaluate_of_scriptPubKeyTooLong
    (hsig : (Source.stripComments spend.scriptSig).length ≤ Source.maxLength)
    (h : Source.maxLength < (Source.stripComments spend.scriptPubKey).length) :
    spend.evaluate primitives digest =
      .error (.scriptPubKeyTooLong (Source.stripComments spend.scriptPubKey).length) := by
  rw [evaluate, prepare, compile, validate_eq]
  simp only [gt_iff_lt, if_neg (Nat.not_lt.2 hsig), if_pos h]
  rfl

theorem evaluate_of_short (h : spend.ShortTexts) :
    spend.evaluate primitives digest = match Source.assemble spend.scriptSig with
      | .error e => .error (.source e)
      | .ok unlocking => match Source.assemble spend.scriptPubKey with
        | .error e => .error (.source e)
        | .ok locking => match Machine.load primitives digest (unlocking ++ locking) with
          | .error fault => .error (.fault fault)
          | .ok m => m.run.mapError .fault := by
  rw [evaluate, prepare, compile_of_short h]
  cases Source.assemble spend.scriptSig with
  | error e => rfl
  | ok unlocking =>
    cases Source.assemble spend.scriptPubKey with
    | error e => rfl
    | ok locking =>
      show ((Machine.load primitives digest (unlocking ++ locking)).mapError _ >>= _) = _
      cases hload : Machine.load primitives digest (unlocking ++ locking) with
      | error fault => simp only [hload]; rfl
      | ok m => simp only [hload]; rfl

theorem load_eq_error_iff {code : Bytes} {fault : Fault} :
    Machine.load primitives digest code = .error fault ↔
      fault = .codeSize code.length ∧ maxCodeSize < code.length := by
  unfold Machine.load
  split_ifs with h
  · exact iff_of_false (by simp) fun hlong => absurd h (Nat.not_le.2 hlong.2)
  · rw [Except.error.injEq, eq_comm, and_iff_left (Nat.not_le.1 h)]

theorem evaluate_of_failure (h : Failure primitives digest spend e) :
    spend.evaluate primitives digest = .error e := by
  cases h with
  | scriptSigTooLong hlength h =>
    subst hlength
    exact evaluate_of_scriptSigTooLong h
  | scriptPubKeyTooLong hsig hlength h =>
    subst hlength
    exact evaluate_of_scriptPubKeyTooLong hsig h
  | scriptSig hshort hword h =>
    rw [evaluate_of_short hshort, Source.assemble_eq_error_iff.2 ⟨_, hword, h⟩]
  | scriptPubKey hshort hsig hword h =>
    obtain ⟨unlocking, hunlocking⟩ := Source.exists_assemble_iff.2 hsig
    rw [evaluate_of_short hshort, hunlocking]
    simp only [Source.assemble_eq_error_iff.2 ⟨_, hword, h⟩]
  | codeSize hshort hsig hkey hlength h =>
    subst hlength
    rw [← List.length_append] at h ⊢
    rw [evaluate_of_short hshort, hsig, hkey]
    simp only [load_eq_error_iff.2 ⟨rfl, h⟩]
  | run hshort hsig hkey hload h =>
    rw [evaluate_of_short hshort, hsig, hkey]
    simp only [hload, h]
    rfl

theorem failure_of_evaluate (h : spend.evaluate primitives digest = .error e) :
    Failure primitives digest spend e := by
  by_cases hsig : (Source.stripComments spend.scriptSig).length ≤ Source.maxLength
  · by_cases hkey : (Source.stripComments spend.scriptPubKey).length ≤ Source.maxLength
    · have hshort : spend.ShortTexts := ⟨hsig, hkey⟩
      rw [evaluate_of_short hshort] at h
      -- what is left are the first text, the second, the size of the code and the run
      split at h
      · rename_i e' hunlocking
        obtain ⟨word, hword, hblames⟩ := Source.assemble_eq_error_iff.1 hunlocking
        rw [← Except.error.inj h]
        exact .scriptSig hshort hword hblames
      · rename_i unlocking hunlocking
        have htokens := Source.exists_assemble_iff.1 ⟨_, hunlocking⟩
        split at h
        · rename_i e' hlocking
          obtain ⟨word, hword, hblames⟩ := Source.assemble_eq_error_iff.1 hlocking
          rw [← Except.error.inj h]
          exact .scriptPubKey hshort htokens hword hblames
        · rename_i locking hlocking
          split at h
          · rename_i fault hload
            obtain ⟨rfl, hlong⟩ := load_eq_error_iff.1 hload
            rw [← Except.error.inj h]
            exact .codeSize hshort hunlocking hlocking List.length_append.symm hlong
          · rename_i m hload
            cases hrun : m.run with
            | ok answer => exact absurd h (by simp [hrun, Except.mapError])
            | error fault =>
              rw [hrun] at h
              rw [← Except.error.inj h]
              exact .run hshort hunlocking hlocking hload hrun
    · rw [evaluate_of_scriptPubKeyTooLong hsig (Nat.not_le.1 hkey)] at h
      rw [← Except.error.inj h]
      exact .scriptPubKeyTooLong hsig rfl (Nat.not_le.1 hkey)
  · rw [evaluate_of_scriptSigTooLong (Nat.not_le.1 hsig)] at h
    rw [← Except.error.inj h]
    exact .scriptSigTooLong rfl (Nat.not_le.1 hsig)

/-- **A spend fails with the first that is wrong.** -/
theorem evaluate_eq_error_iff :
    spend.evaluate primitives digest = .error e ↔ Failure primitives digest spend e :=
  ⟨failure_of_evaluate, evaluate_of_failure⟩

/-- **Code is refused for its size iff it is too long**: no run fails in this way. -/
theorem evaluate_eq_codeSize_iff {n : Nat} :
    spend.evaluate primitives digest = .error (.fault (.codeSize n)) ↔
      ∃ code, spend.compile = .ok code ∧ code.length = n ∧ maxCodeSize < n := by
  constructor
  · intro h
    cases failure_of_evaluate h with
    | @codeSize unlocking locking _ hshort hsig hkey hlength h =>
      refine ⟨unlocking ++ locking, compile_eq_ok_iff.2 ⟨hshort.length_scriptSig_le,
        hshort.length_scriptPubKey_le, unlocking, locking, hsig, hkey, rfl⟩, ?_, h⟩
      rw [List.length_append, hlength]
    | run hshort hsig hkey hload h =>
      have hinner := Machine.isInner_of_run _ (Machine.capacity_of_load hload) h
      exact absurd hinner (by simp [Fault.isInner])
  · rintro ⟨code, hcode, hlength, hlong⟩
    obtain ⟨hsig, hkey, unlocking, locking, hunlocking, hlocking, rfl⟩ := compile_eq_ok_iff.1 hcode
    rw [List.length_append] at hlength
    exact evaluate_of_failure (.codeSize ⟨hsig, hkey⟩ hunlocking hlocking hlength hlong)

/-- **The texts of a spend as one, and what is wrong first.**  Texts that are not too long compile
to what one text would compile to that has both, on lines of their own.  A spend fails with the
first that is wrong, and with the size of its code iff that is too long. -/
theorem evaluate_joined (primitives : Primitives) (digest : Digest) (spend : Spend) :
    (spend.ShortTexts → ∀ c : Compiler, spend.compileWith c = spend.compile ∧
      spend.compile =
        (Source.assemble (spend.scriptSig ++ "\n" ++ spend.scriptPubKey)).mapError .source) ∧
    (∀ e, spend.evaluate primitives digest = .error e ↔ Failure primitives digest spend e) ∧
    ∀ n, spend.evaluate primitives digest = .error (.fault (.codeSize n)) ↔
      ∃ code, spend.compile = .ok code ∧ code.length = n ∧ maxCodeSize < n :=
  ⟨fun h c => ⟨compileWith_eq c spend, compile_eq_joined h⟩, fun _ => evaluate_eq_error_iff,
    fun _ => evaluate_eq_codeSize_iff⟩

/-- A comment that ends with the first text does not reach into the second. -/
theorem evaluate_joined_comment :
    Spend.compileWith {} ⟨"0x07 // 0x", "OP_DUP\r"⟩ = .ok [0x01, 0x07, 0x76] := by
  obtain ⟨hcompile, -, -⟩ := evaluate_joined .standard .zero ⟨"0x07 // 0x", "OP_DUP\r"⟩
  obtain ⟨hwith, hjoined⟩ := hcompile ⟨by decide +kernel, by decide +kernel⟩ {}
  rw [hwith, hjoined]
  decide +kernel

end Spend

end SpendScript
