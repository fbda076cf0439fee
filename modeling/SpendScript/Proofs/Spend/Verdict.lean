import SpendScript.Proofs.Machine.Recording
import SpendScript.Proofs.Spend.Boundary

/-!
# Verdicts on spends

A spend is tried by running its code, or by running it with a record of the steps.  Both end with
the same verdict, which tells what became of the evaluation (`Verdict.Tells`).

* `Spend.verdict_debug` : both verdicts are the same;
* `Spend.trace_debug_eq_nil_iff` : when there are no steps to show;
* `Spend.not_isLength_of_evaluate` : once the lengths of the texts have been checked, no error is
  about them, and no error reads as if it was (`SpendError.message_ne`).
-/

namespace SpendScript

/-- The verdict is about this answer: it is yes iff the answer is, and what went wrong is the
sentence for the error in its place. -/
structure Verdict.Tells (v : Verdict) (answer : Except SpendError Bool) : Prop where
  /-- Success is the answer yes. -/
  success_iff : v.success = true ↔ answer = .ok true
  /-- Something went wrong iff there is no answer, and then it is said what. -/
  error_iff : ∀ text, v.error = some text ↔ ∃ e, answer = .error e ∧ text = e.message

theorem Verdict.tells_ofAnswer (answer : Except SpendError Bool) :
    (Verdict.ofAnswer answer).Tells answer where
  success_iff := by cases answer <;> simp [Verdict.ofAnswer]
  error_iff text := by cases answer <;> simp [Verdict.ofAnswer, eq_comm]

/-! ### Errors about lengths -/

namespace SpendError

/-- The error is about the length of a text. -/
def IsLength : SpendError → Prop
  | .scriptSigTooLong _ | .scriptPubKeyTooLong _ => True
  | .source _ | .fault _ => False

/-- The letter by which the sentences about lengths and those about all else can be told apart. -/
theorem getElem?_message (e : SpendError) :
    (e.IsLength → e.message.toList[6]? = some 'S' ∨ e.message.toList[6]? = some 'P') ∧
      (¬ e.IsLength → e.message.toList[6]? = some 'e' ∨ e.message.toList[6]? = some ' ') := by
  have hstart : ∀ {a : String} {c : Char}, a.toList[6]? = some c →
      ∀ b, (a ++ b).toList[6]? = some c := by
    intro a c h b
    rw [String.toList_append, List.getElem?_append_left (List.getElem?_eq_some_iff.1 h).1, h]
  cases e with
  | scriptSigTooLong length =>
    have hmessage : (scriptSigTooLong length).message =
        "ScriptSig exceeds maximum length: " ++ (toString length ++ " characters") := by
      rw [← String.append_assoc]
      rfl
    rw [hmessage]
    exact ⟨fun _ => .inl (hstart (by decide) _), fun h => absurd trivial h⟩
  | scriptPubKeyTooLong length =>
    have hmessage : (scriptPubKeyTooLong length).message =
        "ScriptPubKey exceeds maximum length: " ++ (toString length ++ " characters") := by
      rw [← String.append_assoc]
      rfl
    rw [hmessage]
    exact ⟨fun _ => .inr (hstart (by decide) _), fun h => absurd trivial h⟩
  | source e =>
    have hmessage : (source e).message = "Compile error: " ++ e.message := rfl
    rw [hmessage]
    exact ⟨fun h => absurd h id, fun _ => .inl (hstart (by decide) _)⟩
  | fault f =>
    have hmessage : (fault f).message = "Script error: " ++ f.message := rfl
    rw [hmessage]
    exact ⟨fun h => absurd h id, fun _ => .inr (hstart (by decide) _)⟩

/-- **No other error reads like one about a length.** -/
theorem message_ne {e e' : SpendError} (h : e.IsLength) (h' : ¬ e'.IsLength) :
    e.message ≠ e'.message := by
  intro heq
  have hlength := (getElem?_message e).1 h
  have hother := (getElem?_message e').2 h'
  rw [heq] at hlength
  rcases hlength with hlength | hlength <;> rcases hother with hother | hother <;>
    exact absurd (hlength.symm.trans hother) (by decide)

end SpendError

namespace Spend

variable {α β : Type} {primitives : Primitives} {digest : Digest} {spend : Spend} {m : Machine}

/-- No error is about the length of a text. -/
def NoLength (x : Except SpendError α) : Prop :=
  ∀ e, x = .error e → ¬ e.IsLength

theorem noLength_ok (a : α) : NoLength (.ok a) := by
  intro e h
  exact absurd h (by simp)

theorem NoLength.bind {x : Except SpendError α} {f : α → Except SpendError β} (hx : NoLength x)
    (hf : ∀ a, NoLength (f a)) : NoLength (x >>= f) := by
  cases x with
  | ok a => exact hf a
  | error e => exact fun e' h => hx e' (congrArg _ (Except.error.inj h))

theorem noLength_source (x : Except SourceError α) : NoLength (x.mapError .source) := by
  cases x with
  | ok a => exact noLength_ok a
  | error e =>
    intro e' h
    obtain rfl := Except.error.inj h
    exact id

theorem noLength_fault (x : Except Fault α) : NoLength (x.mapError .fault) := by
  cases x with
  | ok a => exact noLength_ok a
  | error e =>
    intro e' h
    obtain rfl := Except.error.inj h
    exact id

theorem isLength_of_validate {e : SpendError} (h : spend.validate = .error e) : e.IsLength := by
  rw [validate_eq] at h
  simp only at h
  split_ifs at h
  · rw [← Except.error.inj h]
    trivial
  · rw [← Except.error.inj h]
    trivial

/-- **Once the lengths have been checked, no error is about them.** -/
theorem not_isLength_of_evaluate {checked : Spend} (h : spend.validate = .ok checked) :
    NoLength (spend.evaluate primitives digest) := by
  have hassemble : ∀ text, NoLength (assemble text) := fun text => by
    rw [assemble]
    exact noLength_source _
  have hcompile : NoLength spend.compile := by
    rw [compile, h]
    refine (noLength_ok checked).bind fun checked => ?_
    exact (hassemble _).bind fun _ => (hassemble _).bind fun _ => noLength_ok _
  rw [evaluate, prepare]
  exact (hcompile.bind fun _ => noLength_fault _).bind fun _ => noLength_fault _

/-! ### Two ways to the same verdict -/

theorem mapError_eq_ok_iff {ε ε' : Type} {x : Except ε α} {f : ε → ε'} {a : α} :
    x.mapError f = .ok a ↔ x = .ok a := by
  cases x <;> simp [Except.mapError]

theorem prepare_eq_ok_iff :
    spend.prepare primitives digest = .ok m ↔
      ∃ code, spend.compile = .ok code ∧ Machine.load primitives digest code = .ok m := by
  rw [prepare, bind_eq_ok_iff]
  simp only [mapError_eq_ok_iff]

/-- **A recorded run of a spend ends with the same verdict as the run.** -/
theorem verdict_debug :
    (spend.debug primitives digest).verdict = spend.run primitives digest := by
  cases hprepare : spend.prepare primitives digest with
  | error e =>
    simp only [debug, run, evaluate, hprepare]
    rfl
  | ok m =>
    obtain ⟨code, -, hload⟩ := prepare_eq_ok_iff.1 hprepare
    have hcapacity := Machine.capacity_of_load hload
    have hanswer : (m.trace {}).2.1 = m.run := by
      rw [Machine.trace_snd_eq_execute hcapacity Machine.regular_start, Machine.run]
    simp only [debug, run, evaluate, hprepare]
    rw [hanswer]
    rfl

theorem trace_eq_nil_iff : (m.trace {}).1 = [] ↔ m.code = [] := by
  rw [Machine.trace_fst]
  cases hcode : m.code with
  | nil => exact iff_of_true rfl rfl
  | cons first rest =>
    have hfirst : m.code[(0 : Nat)]? = some first := by rw [hcode]; rfl
    have hrecord := Machine.record_of_running (s := {}) rest.length rfl hfirst
    refine iff_of_false ?_ (by simp)
    rw [List.length_cons, Nat.sub_zero, hrecord]
    simp

/-- **There are no steps iff there is no code or none that a machine takes.** -/
theorem trace_debug_eq_nil_iff :
    (spend.debug primitives digest).trace = [] ↔
      (∃ e, spend.compile = .error e) ∨
        ∃ code, spend.compile = .ok code ∧ (maxCodeSize < code.length ∨ code = []) := by
  cases hcompile : spend.compile with
  | error e =>
    have hprepare : spend.prepare primitives digest = .error e := by
      rw [prepare, hcompile]
      rfl
    simp [debug, hprepare]
  | ok code =>
    have hprepare : spend.prepare primitives digest =
        (Machine.load primitives digest code).mapError .fault := by
      rw [prepare, hcompile]
      rfl
    by_cases hlength : code.length ≤ maxCodeSize
    · rw [Machine.load_eq hlength, Except.mapError] at hprepare
      have hnot : ¬ maxCodeSize < code.length := Nat.not_lt.2 hlength
      simp [debug, hprepare, trace_eq_nil_iff, hnot]
    · rw [Machine.load, dif_neg hlength, Except.mapError] at hprepare
      simp [debug, hprepare, Nat.not_le.1 hlength]

end Spend

end SpendScript
