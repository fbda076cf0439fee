import SpendScript.Machine.Operand
import SpendScript.Proofs.Effect
import SpendScript.Proofs.Number.Width

/-!
# Tame actions

A stack is *bounded* if it holds a thousand items at most and none of more than 520 bytes.  An
action is *tame* if it keeps stacks bounded, whether it fails or not, adds only so many items, and
fails only with certain faults (`Stack.Tame`).  Tameness is closed under sequencing, so that that of
an operation is read off its steps.

* `Stack.tame_shuffle`, `Stack.tame_unary`, `Stack.tame_binary`, … : every operation on the main
  stack is tame, adds three items at most, and has no *static* fault, one that code earns whatever
  is on the stacks (`Fault.isStatic`).
-/

namespace SpendScript

/-- The faults that code alone can earn: a push of too many bytes, a word that was switched off,
too many operations, and conditionals that do not fit. -/
def Fault.isStatic : Fault → Bool
  | .pushSize _ | .disabledOpcode _ | .opCount | .unbalancedConditional => true
  | _ => false

theorem Fault.elim_static {fault : Fault} {P : Prop} (hdynamic : fault.isStatic = false)
    (hstatic : fault.isStatic = true) : P :=
  absurd (hdynamic.symm.trans hstatic) Bool.false_ne_true

namespace Stack

/-- The stack does not hold too many items, and none that is too long. -/
structure Bounded (s : Stack) : Prop where
  /-- No item is too long. -/
  length_item_le : ∀ item ∈ s, item.length ≤ maxItemSize
  /-- There are not too many items. -/
  length_le : s.length ≤ maxItems

/-- The action left a bounded stack of at most `n` items, answered within `R` or failed within
`F`. -/
def TameResult {α : Type} (F : Fault → Prop) (n : Nat) (R : α → Prop) :
    EStateM.Result Fault Stack α → Prop
  | .ok a t => Bounded t ∧ t.length ≤ n ∧ R a
  | .error fault t => Bounded t ∧ t.length ≤ n ∧ F fault

/-- From a bounded stack, the action leaves a bounded stack with at most `n` items more, answers
within `R` and fails within `F`. -/
def Tame {α : Type} (F : Fault → Prop) (n : Nat) (action : Action α) (R : α → Prop) : Prop :=
  ∀ s : Stack, Bounded s → TameResult F (s.length + n) R (action s)

variable {α β : Type} {F : Fault → Prop} {m n : Nat} {R : α → Prop} {Q : β → Prop}
  {action : Action α}

/-! ### Sequencing -/

theorem Tame.pure {a : α} (h : R a) : Tame F 0 (Pure.pure a : Action α) R :=
  fun _ hs => ⟨hs, Nat.le_refl _, h⟩

theorem Tame.throw {fault : Fault} (h : F fault) :
    Tame F 0 (MonadExcept.throw fault : Action α) R :=
  fun _ hs => ⟨hs, Nat.le_refl _, h⟩

theorem TameResult.mono {R' : α → Prop} {r : EStateM.Result Fault Stack α}
    (h : TameResult F m R r) (hmn : m ≤ n) (hR : ∀ a, R a → R' a) : TameResult F n R' r := by
  cases r with
  | ok a t => exact ⟨h.1, Nat.le_trans h.2.1 hmn, hR a h.2.2⟩
  | error fault t => exact ⟨h.1, Nat.le_trans h.2.1 hmn, h.2.2⟩

theorem Tame.mono {R' : α → Prop} (h : Tame F m action R) (hmn : m ≤ n)
    (hR : ∀ a, R a → R' a) : Tame F n action R' :=
  fun s hs => (h s hs).mono (Nat.add_le_add_left hmn _) hR

theorem Tame.bind {f : α → Action β} (h : Tame F m action R)
    (hf : ∀ a, R a → Tame F n (f a) Q) : Tame F (m + n) (action >>= f) Q := by
  intro s hs
  have hfirst := h s hs
  rw [Effect.bind_apply]
  cases haction : action s with
  | error fault t =>
    rw [haction] at hfirst
    exact ⟨hfirst.1, by have := hfirst.2.1; omega, hfirst.2.2⟩
  | ok a t =>
    rw [haction] at hfirst
    obtain ⟨ht, hlen, ha⟩ := hfirst
    exact (hf a ha t ht).mono (by omega) fun _ h => h

theorem Tame.weaken (h : Tame F m action R) (hmn : m ≤ n) : Tame F n action fun _ => True :=
  h.mono hmn fun _ _ => trivial

theorem Tame.done {a : α} : Tame F n (Pure.pure a : Action α) fun _ => True :=
  (Tame.pure (R := fun _ => True) trivial).weaken (Nat.zero_le n)

theorem Tame.then {f : α → Action β} (h : Tame F 0 action R)
    (hf : ∀ a, R a → Tame F n (f a) Q) : Tame F n (action >>= f) Q :=
  (h.bind hf).mono (by omega) fun _ h => h

/-! ### Single steps -/

variable {item : Bytes} {s : Stack}

theorem bounded_nil : Bounded [] := ⟨by simp, Nat.zero_le _⟩

theorem bounded_cons_iff :
    Bounded (item :: s) ↔ item.length ≤ maxItemSize ∧ s.length < maxItems ∧ Bounded s := by
  constructor
  · rintro ⟨hitems, hlen⟩
    rw [List.forall_mem_cons] at hitems
    rw [List.length_cons] at hlen
    exact ⟨hitems.1, by omega, hitems.2, by omega⟩
  · rintro ⟨hitem, hlen, hs⟩
    refine ⟨List.forall_mem_cons.2 ⟨hitem, hs.length_item_le⟩, ?_⟩
    rw [List.length_cons]
    omega

/-- A stack stays bounded when items are only lost or moved. -/
theorem Bounded.of_subset {t : Stack} (hs : Bounded s) (hsub : t ⊆ s)
    (hlen : t.length ≤ s.length) : Bounded t :=
  ⟨fun item h => hs.length_item_le item (hsub h), Nat.le_trans hlen hs.length_le⟩

theorem room_of_objection?_eq_none (h : objection? (some maxItems) item s = none) :
    s.length < maxItems ∧ item.length ≤ maxItemSize := by
  unfold objection? at h
  split at h
  · exact absurd h (by simp)
  · rename_i hfull
    split at h
    · exact absurd h (by simp)
    · simp only [isFull, Option.any_some, decide_eq_true_eq] at hfull
      omega

theorem tame_size : Tame F 0 size fun n => n ≤ maxItems :=
  fun _ hs => ⟨hs, Nat.le_refl _, hs.length_le⟩

section Steps

variable (hF : ∀ fault, fault.isStatic = false → F fault)

include hF

theorem tame_pop : Tame F 0 pop fun item => item.length ≤ maxItemSize := by
  intro s hs
  cases s with
  | nil => exact ⟨hs, Nat.le_refl _, hF _ rfl⟩
  | cons item s =>
    rw [bounded_cons_iff] at hs
    exact ⟨hs.2.2, Nat.le_succ _, hs.1⟩

theorem tame_peek (depth : Nat) : Tame F 0 (peek depth) fun item => item.length ≤ maxItemSize := by
  intro s hs
  unfold peek
  cases hitem : s[depth]? with
  | none => exact ⟨hs, Nat.le_refl _, hF _ rfl⟩
  | some item =>
    exact ⟨hs, Nat.le_refl _, hs.length_item_le item (List.mem_of_getElem? hitem)⟩

theorem tame_removeAt (depth : Nat) :
    Tame F 0 (removeAt depth) fun item => item.length ≤ maxItemSize := by
  intro s hs
  unfold removeAt
  cases hitem : s[depth]? with
  | none => exact ⟨hs, Nat.le_refl _, hF _ rfl⟩
  | some item =>
    have hlen := List.length_eraseIdx_le s depth
    exact ⟨hs.of_subset (List.eraseIdx_subset) hlen, hlen,
      hs.length_item_le item (List.mem_of_getElem? hitem)⟩

theorem tame_swap (a b : Nat) : Tame F 0 (swap a b) fun _ => True := by
  intro s hs
  unfold swap
  split
  · rename_i x y hx hy
    refine ⟨hs.of_subset (fun item hitem => ?_) (by simp), by simp, trivial⟩
    rcases List.mem_or_eq_of_mem_set hitem with hitem | rfl
    · rcases List.mem_or_eq_of_mem_set hitem with hitem | rfl
      · exact hitem
      · exact List.mem_of_getElem? hy
    · exact List.mem_of_getElem? hx
  · exact ⟨hs, Nat.le_refl _, hF _ rfl⟩

theorem tame_require (n : Nat) : Tame F 0 (require n) fun _ => True := by
  intro s hs
  unfold require
  split
  · exact ⟨hs, Nat.le_refl _, hF _ rfl⟩
  · exact ⟨hs, Nat.le_refl _, trivial⟩

theorem fault_of_objection? {fault : Fault} (hitem : item.length ≤ maxItemSize ∨
      F (.pushSize item.length)) (h : objection? (some maxItems) item s = some fault) :
    F fault := by
  unfold objection? at h
  split at h
  · obtain rfl := Option.some.inj h
    exact hF _ rfl
  · split at h
    · obtain rfl := Option.some.inj h
      exact hitem.resolve_left (by omega)
    · exact absurd h (by simp)

theorem tame_push (hitem : item.length ≤ maxItemSize ∨ F (.pushSize item.length)) :
    Tame F 1 (push (some maxItems) item) fun _ => True := by
  intro s hs
  unfold push
  cases h : objection? (some maxItems) item s with
  | some fault => exact ⟨hs, Nat.le_succ _, fault_of_objection? hF hitem h⟩
  | none =>
    obtain ⟨hroom, hshort⟩ := room_of_objection?_eq_none h
    exact ⟨bounded_cons_iff.2 ⟨hshort, hroom, hs⟩, Nat.le_refl _, trivial⟩

theorem tame_insertAt (depth : Nat)
    (hitem : item.length ≤ maxItemSize ∨ F (.pushSize item.length)) :
    Tame F 1 (insertAt (some maxItems) depth item) fun _ => True := by
  intro s hs
  unfold insertAt
  split
  · exact ⟨hs, Nat.le_succ _, hF _ rfl⟩
  · rename_i hdepth
    simp only [Bool.or_eq_true, decide_eq_true_eq, not_or, Nat.not_lt] at hdepth
    cases h : objection? (some maxItems) item s with
    | some fault => exact ⟨hs, Nat.le_succ _, fault_of_objection? hF hitem h⟩
    | none =>
      obtain ⟨hroom, hshort⟩ := room_of_objection?_eq_none h
      have hlen := List.length_insertIdx_of_le_length hdepth.2 item
      refine ⟨⟨fun other hother => ?_, by omega⟩, Nat.le_of_eq hlen, trivial⟩
      rcases (List.mem_insertIdx hdepth.2).1 hother with rfl | hother
      · exact hshort
      · exact hs.length_item_le other hother

/-! ### Operands -/

theorem tame_popNumber (width : Nat) :
    Tame F 0 (popNumber width) fun n => n.natAbs < Bytes.bound width := by
  unfold popNumber
  refine (tame_pop hF).then fun item _ => ?_
  split
  · rename_i n h
    exact .pure (Number.natAbs_lt_of_decode? h)
  · exact .throw (hF _ rfl)

theorem tame_popTruth : Tame F 0 popTruth fun _ => True :=
  (tame_pop hF).then fun _ _ => .done

theorem tame_verifyTop {fault : Fault} (h : fault.isStatic = false) :
    Tame F 0 (verifyTop fault) fun _ => True := by
  unfold verifyTop
  refine (tame_popTruth hF).then fun truth _ => ?_
  split
  · exact .done
  · exact .throw (hF _ h)

theorem tame_popDepth : Tame F 0 popDepth fun _ => True := by
  unfold popDepth
  refine (tame_popNumber hF _).then fun n _ => tame_size.then fun k _ => ?_
  split
  · exact .throw (hF _ rfl)
  · exact .done

theorem tame_popMany (n : Nat) : Tame F 0 (popMany n) fun _ => True := by
  induction n with
  | zero => exact .done
  | succ n ih => exact (tame_pop hF).then fun _ _ => ih.then fun _ _ => .done

theorem tame_popCount (most : Int) {fault : Fault} (h : fault.isStatic = false) :
    Tame F 0 (popCount most fault) fun _ => True := by
  unfold popCount
  refine (tame_popNumber hF _).then fun n _ => ?_
  split
  · exact .throw (hF _ h)
  · exact .done

theorem tame_pushNumber {n : Int} (h : n.natAbs < Bytes.bound 6) :
    Tame F 1 (pushNumber (some maxItems) n) fun _ => True :=
  tame_push hF (.inl (Nat.le_trans (Number.length_encode_le h) (by decide)))

theorem tame_pushTruth (b : Bool) : Tame F 1 (pushTruth (some maxItems) b) fun _ => True :=
  tame_push hF (.inl (Nat.le_trans (Number.length_ofBool_le b) (by decide)))

/-! ### Operations -/

theorem tame_unary (u : Unary) : Tame F 1 (unary (some maxItems) u) fun _ => True := by
  unfold unary
  refine (tame_popNumber hF _).then fun a ha => tame_pushNumber hF ?_
  have hle := u.natAbs_apply_le a
  simp only [Number.operandWidth, Bytes.bound] at ha ⊢
  omega

theorem tame_binary (op : Binary) : Tame F 1 (binary (some maxItems) op) fun _ => True := by
  unfold binary
  refine (tame_require hF 2).then fun _ _ => (tame_popNumber hF _).then fun b hb =>
    (tame_popNumber hF _).then fun a ha => tame_pushNumber hF ?_
  have hle := op.natAbs_apply_le a b
  simp only [Number.operandWidth, Bytes.bound] at ha hb ⊢
  omega

theorem tame_within : Tame F 1 (within (some maxItems)) fun _ => True :=
  (tame_require hF 3).then fun _ _ => (tame_popNumber hF _).then fun _ _ =>
    (tame_popNumber hF _).then fun _ _ => (tame_popNumber hF _).then fun _ _ =>
      tame_pushTruth hF _

theorem tame_equal : Tame F 1 (equal (some maxItems)) fun _ => True :=
  (tame_require hF 2).then fun _ _ => (tame_pop hF).then fun _ _ =>
    (tame_pop hF).then fun _ _ => tame_pushTruth hF _

theorem tame_mapTop {f : Bytes → Bytes}
    (hf : ∀ item, (f item).length ≤ maxItemSize ∨ F (.pushSize (f item).length)) :
    Tame F 1 (mapTop (some maxItems) f) fun _ => True :=
  (tame_pop hF).then fun item _ => tame_push hF (hf item)

theorem tame_lockTime : Tame F 0 lockTime fun _ => True := by
  unfold lockTime
  refine (tame_popNumber hF _).then fun n _ => ?_
  split
  · exact .throw (hF _ rfl)
  · exact .done

theorem tame_copyFrom (depth count : Nat) :
    Tame F count (copyFrom (some maxItems) depth count) fun _ => True := by
  induction count with
  | zero => exact .done
  | succ count ih =>
    refine (tame_peek hF depth).then fun item hitem => ?_
    exact ((tame_push hF (.inl hitem)).bind fun _ _ => ih).weaken (by omega)

/-- **No rearrangement adds more than three items.** -/
theorem tame_shuffle (sh : Shuffle) : Tame F 3 (shuffle (some maxItems) sh) fun _ => True := by
  have hpush : ∀ item : Bytes, item.length ≤ maxItemSize →
      Tame F 3 (push (some maxItems) item) fun _ => True :=
    fun item h => (tame_push hF (.inl h)).weaken (by omega)
  have hpushNumber : ∀ n : Nat, n ≤ maxItems →
      Tame F 3 (pushNumber (some maxItems) n) fun _ => True := by
    intro n h
    refine (tame_pushNumber hF ?_).weaken (by omega)
    simp only [maxItems, Bytes.bound] at h ⊢
    omega
  have hcopy : ∀ n depth count : Nat, count ≤ 3 →
      Tame F 3 (do require n; copyFrom (some maxItems) depth count) fun _ => True :=
    fun n depth count h =>
      (tame_require hF n).then fun _ _ => (tame_copyFrom hF depth count).weaken h
  cases sh with
  | drop2 =>
    exact (tame_require hF 2).then fun _ _ => (tame_pop hF).then fun _ _ =>
      (tame_pop hF).then fun _ _ => .done
  | dup2 => exact hcopy 2 1 2 (by omega)
  | dup3 => exact hcopy 3 2 3 (by omega)
  | over2 => exact hcopy 4 3 2 (by omega)
  | rot2 =>
    refine (tame_require hF 6).then fun _ _ => (tame_removeAt hF 5).then fun first hfirst =>
      (tame_removeAt hF 4).then fun second hsecond => ?_
    exact ((tame_push hF (.inl hfirst)).bind fun _ _ => tame_push hF (.inl hsecond)).weaken
      (by omega)
  | swap2 =>
    refine (tame_require hF 4).then fun _ _ => (tame_swap hF 3 1).then fun _ _ => ?_
    exact (tame_swap hF 2 0).weaken (by omega)
  | ifDup =>
    refine (tame_peek hF 0).then fun top htop => ?_
    split
    · exact hpush top htop
    · exact .done
  | depth => exact tame_size.then fun n hn => hpushNumber n hn
  | drop => exact (tame_pop hF).then fun _ _ => .done
  | dup => exact hcopy 1 0 1 (by omega)
  | nip => exact (tame_removeAt hF 1).then fun _ _ => .done
  | «over» => exact hcopy 2 1 1 (by omega)
  | pick =>
    exact (tame_popDepth hF).then fun depth _ => (tame_peek hF depth).then hpush
  | roll =>
    exact (tame_popDepth hF).then fun depth _ => (tame_removeAt hF depth).then hpush
  | rot => exact (tame_require hF 3).then fun _ _ => (tame_removeAt hF 2).then hpush
  | swap =>
    exact (tame_require hF 2).then fun _ _ => (tame_swap hF 0 1).weaken (by omega)
  | tuck =>
    exact (tame_require hF 2).then fun _ _ => (tame_peek hF 0).then fun top htop =>
      (tame_insertAt hF 2 (.inl htop)).weaken (by omega)
  | size =>
    refine (tame_peek hF 0).then fun top htop => hpushNumber _ (Nat.le_trans htop (by decide))

end Steps

end Stack

end SpendScript
