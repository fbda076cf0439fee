import SpendScript.Proofs.Source.Code

/-!
# Pushes in their shortest form

The same bytes can be pushed in several forms, of which one takes up the least space; source text
always means that one.  An instruction is *canonical* if it has a meaning and, being a push, has the
shortest form (`Instruction.Canonical`).

* `Instruction.canonical_pushOf` : the push that source text means is canonical;
* `Instruction.eq_pushOf` : and it is the only canonical push of its bytes;
* `Instruction.canonical_of_instruction?` : so all instructions that tokens mean are canonical.
-/

namespace SpendScript

namespace PushForm

/-- The number of bytes in front of the data. -/
def before : PushForm → Nat
  | .direct => 1
  | .sized width => 1 + width.size

/-- The most bytes that a push of the form holds. -/
def most : PushForm → Nat
  | .direct => Instruction.maxDirect
  | .sized .one => 0xff
  | .sized .two => 0xffff
  | .sized .four => 0xffffffff

theorem before_injective {form other : PushForm} (h : form.before = other.before) :
    form = other := by
  match form, other with
  | .direct, .direct => rfl
  | .direct, .sized width => cases width <;> exact absurd h (by decide)
  | .sized width, .direct => cases width <;> exact absurd h (by decide)
  | .sized width, .sized width' =>
    cases width <;> cases width' <;> first | rfl | exact absurd h (by decide)

end PushForm

namespace Instruction

/-- The instruction has a meaning, and if it is a push, then no other form of it takes up less
space. -/
def Canonical : Instruction → Prop
  | .push form data => ∀ other, (Instruction.push other data).Readable →
      (Instruction.push form data).bytes.length ≤ (Instruction.push other data).bytes.length
  | .operation _ => True
  | .unassigned _ => False

/-- The code is complete, and its instructions are canonical. -/
def CanonicalCode (code : Bytes) : Prop :=
  ∃ program, decode? code = some program ∧ ∀ i ∈ program, i.Canonical

variable {form : PushForm} {data : Bytes} {i : Instruction}

/-! ### Sizes of pushes -/

theorem length_bytes_push (form : PushForm) (data : Bytes) :
    (Instruction.push form data).bytes.length = form.before + data.length := by
  cases form with
  | direct => rw [bytes, List.length_cons, PushForm.before, Nat.add_comm]
  | sized width =>
    rw [bytes, List.cons_append, List.length_cons, List.length_append, Bytes.length_ofNatLE,
      PushForm.before]
    omega

theorem readable_push_iff : (Instruction.push form data).Readable ↔ data.length ≤ form.most := by
  match form with
  | .direct => rfl
  | .sized .one | .sized .two | .sized .four => exact Nat.lt_succ_iff

theorem exists_pushOf (data : Bytes) :
    ∃ form, pushOf data = .push form data ∧
      ∀ other : PushForm, data.length ≤ other.most → form.before ≤ other.before := by
  unfold pushOf
  simp only
  split_ifs with hdirect hone htwo
  · refine ⟨_, rfl, fun other _ => ?_⟩
    match other with
    | .direct | .sized .one | .sized .two | .sized .four => decide
  · refine ⟨_, rfl, fun other hle => ?_⟩
    match other with
    | .direct => exact absurd hle hdirect
    | .sized .one | .sized .two | .sized .four => decide
  · refine ⟨_, rfl, fun other hle => ?_⟩
    match other with
    | .direct => exact absurd hle hdirect
    | .sized .one => exact absurd hle hone
    | .sized .two | .sized .four => decide
  · refine ⟨_, rfl, fun other hle => ?_⟩
    match other with
    | .direct => exact absurd hle hdirect
    | .sized .one => exact absurd hle hone
    | .sized .two => exact absurd hle htwo
    | .sized .four => decide

/-! ### Canonical instructions -/

/-- **The shortest push is canonical.** -/
theorem canonical_pushOf (data : Bytes) : (pushOf data).Canonical := by
  obtain ⟨form, hform, hleast⟩ := exists_pushOf data
  rw [hform]
  intro other hreadable
  have hle := hleast other (readable_push_iff.1 hreadable)
  rw [length_bytes_push, length_bytes_push]
  omega

/-- **Bytes have one canonical push.** -/
theorem eq_pushOf (hreadable : (Instruction.push form data).Readable)
    (h : (Instruction.push form data).Canonical) : Instruction.push form data = pushOf data := by
  obtain ⟨other, hother, hleast⟩ := exists_pushOf data
  have hlength := readable_push_iff.1 hreadable
  have hfits : data.length < Bytes.bound PushWidth.four.size := by
    refine Nat.lt_of_le_of_lt hlength ?_
    match form with
    | .direct | .sized .one | .sized .two | .sized .four => decide
  -- neither push is longer than the other, and the size of a push tells its form
  have hle := h other (hother ▸ readable_pushOf hfits)
  have hge := hleast form hlength
  rw [length_bytes_push, length_bytes_push] at hle
  rw [hother, PushForm.before_injective (Nat.le_antisymm (Nat.le_of_add_le_add_right hle) hge)]

theorem canonical_empty : (Instruction.push .direct []).Canonical :=
  canonical_pushOf []

theorem canonical_pushNumber (n : Int) : (pushNumber n).Canonical := by
  unfold pushNumber
  split_ifs
  · exact canonical_empty
  · split
    · trivial
    · exact canonical_pushOf _

/-- **Tokens mean canonical instructions.** -/
theorem canonical_of_instruction? {token : Token} (h : token.instruction? = some i) :
    i.Canonical := by
  match token, h with
  | .data bytes, rfl => exact canonical_pushOf bytes
  | .number n, rfl => exact canonical_pushNumber n
  | .opcode .empty, rfl => exact canonical_empty
  | .opcode (.operation op), rfl => trivial

end Instruction

end SpendScript
