import SpendScript.Proofs.Stack.Operands
import SpendScript.Proofs.Stack.Tame

/-!
# Stacks without a capacity

An operation takes its operands before it adds a result, so most operations find room on any
bounded stack, and for them the capacity makes no difference (`Stack.Agree`).  The others add items
only, and what they began on a full stack they could have brought to an end without a capacity, with
too many items (`Stack.Capped`).

* `Stack.Agree.take` : room is made by taking items;
* `Stack.capped_copyFrom` : copies, on a stack that may be full;
* `Stack.capped_shuffle` : every rearrangement.
-/

namespace SpendScript

/-- Two results, one with a capacity and one without: they are the same, or there was no room for
what had too many items in the end. -/
inductive Effect.Limited {σ α : Type} (size : σ → Nat) :
    EStateM.Result Fault σ α → EStateM.Result Fault σ α → Prop
  /-- The capacity made no difference. -/
  | same (r : EStateM.Result Fault σ α) : Limited size r r
  /-- There was no room. -/
  | full (s : σ) (a : α) {t : σ} (h : Stack.maxItems < size t) :
      Limited size (.error .stackSize s) (.ok a t)

theorem Effect.Limited.bind {σ α β : Type} {size : σ → Nat} {action : EStateM Fault σ α}
    {f g : α → EStateM Fault σ β} {s : σ}
    (h : ∀ a t, action s = .ok a t → Limited size (f a t) (g a t)) :
    Limited size ((action >>= f) s) ((action >>= g) s) := by
  rw [bind_apply, bind_apply]
  cases haction : action s with
  | ok a t => exact h a t haction
  | error fault t => exact .same _

namespace Stack

open Effect (Limited)

/-- From a bounded stack, the action takes at least `n` items and answers within `R`, unless it
fails. -/
def Takes {α : Type} (n : Nat) (action : Action α) (R : α → Prop) : Prop :=
  ∀ s, Bounded s → ∀ a t, action s = .ok a t → Bounded t ∧ t.length + n ≤ s.length ∧ R a

/-- The actions do the same on a bounded stack that has room for `n` items. -/
def Agree {α : Type} (n : Nat) (action action' : Action α) : Prop :=
  ∀ s, Bounded s → s.length + n ≤ maxItems → action s = action' s

/-- From a bounded stack, the second action does what the first one does, or ends with too many
items where the first one found no room. -/
def Capped {α : Type} (action action' : Action α) : Prop :=
  ∀ s, Bounded s → Limited List.length (action s) (action' s)

variable {α β : Type} {m n : Nat} {R : α → Prop} {Q : β → Prop} {action action' : Action α}
  {item : Bytes} {s : Stack}

/-! ### Taking items -/

theorem Tame.takes {F : Fault → Prop} (h : Tame F 0 action R) : Takes 0 action R := by
  intro s hs a t haction
  have htame := h s hs
  rw [haction] at htame
  exact htame

theorem Takes.pure {a : α} (h : R a) : Takes 0 (Pure.pure a : Action α) R :=
  (Tame.pure (F := fun _ => True) h).takes

theorem Takes.throw {fault : Fault} : Takes n (MonadExcept.throw fault : Action α) R :=
  fun _ _ _ _ h => absurd h (by simp)

theorem Takes.throw_bind {fault : Fault} {f : α → Action β} :
    Takes n ((MonadExcept.throw fault : Action α) >>= f) Q :=
  fun _ _ _ _ h => absurd h (by simp [Effect.bind_apply])

theorem Takes.bind {f : α → Action β} (h : Takes m action R)
    (hf : ∀ a, R a → Takes n (f a) Q) : Takes (m + n) (action >>= f) Q := by
  intro s hs b u hbind
  obtain ⟨a, t, haction, hnext⟩ := Effect.bind_eq_ok_iff.1 hbind
  obtain ⟨ht, hlen, ha⟩ := h s hs a t haction
  obtain ⟨hu, hlen', hb⟩ := hf a ha t ht b u hnext
  exact ⟨hu, by omega, hb⟩

theorem takes_require (n : Nat) : Takes 0 (require n) fun _ => True :=
  (tame_require (F := fun _ => True) (fun _ _ => trivial) n).takes

theorem takes_peek (depth : Nat) : Takes 0 (peek depth) fun item => item.length ≤ maxItemSize :=
  (tame_peek (F := fun _ => True) (fun _ _ => trivial) depth).takes

theorem takes_pop : Takes 1 pop fun _ => True := by
  intro s hs item t hpop
  cases s with
  | nil => exact absurd hpop (by simp [pop])
  | cons top rest =>
    obtain ⟨rfl, rfl⟩ := EStateM.Result.ok.inj hpop
    exact ⟨(bounded_cons_iff.1 hs).2.2, Nat.le_refl _, trivial⟩

theorem takes_removeAt (depth : Nat) : Takes 1 (removeAt depth) fun _ => True := by
  intro s hs item t hremove
  unfold removeAt at hremove
  cases hitem : s[depth]? with
  | none => exact absurd hremove (by simp [hitem])
  | some other =>
    rw [hitem] at hremove
    obtain ⟨rfl, rfl⟩ := EStateM.Result.ok.inj hremove
    obtain ⟨hdepth, -⟩ := List.getElem?_eq_some_iff.1 hitem
    have hlen := List.length_eraseIdx_of_lt hdepth
    exact ⟨hs.of_subset List.eraseIdx_subset (by omega), by omega, trivial⟩

theorem takes_popNumber (width : Nat) : Takes 1 (popNumber width) fun _ => True := by
  refine takes_pop.bind (n := 0) fun item _ => ?_
  split
  · exact .pure trivial
  · exact .throw

theorem takes_popDepth : Takes 1 popDepth fun _ => True := by
  refine (takes_popNumber _).bind (n := 0) fun n _ => (tame_size (F := fun _ => True)).takes.bind
    (n := 0) fun k _ => ?_
  split
  · exact .throw_bind
  · exact .pure trivial

theorem takes_popMany (n : Nat) : Takes 0 (popMany n) fun _ => True :=
  (tame_popMany (F := fun _ => True) (fun _ _ => trivial) n).takes

theorem takes_popCount (most : Int) (fault : Fault) :
    Takes 1 (popCount most fault) fun _ => True := by
  refine (takes_popNumber _).bind (n := 0) fun n _ => ?_
  split
  · exact .throw_bind
  · exact .pure trivial

/-! ### Where there is room -/

theorem Agree.refl (action : Action α) : Agree n action action :=
  fun _ _ _ => rfl

/-- **Room is made by taking items.** -/
theorem Agree.take {f g : α → Action β} (h : Takes m action R)
    (hfg : ∀ a, R a → Agree (n + m) (f a) (g a)) : Agree n (action >>= f) (action >>= g) := by
  intro s hs hroom
  rw [Effect.bind_apply, Effect.bind_apply]
  cases haction : action s with
  | error fault t => rfl
  | ok a t =>
    obtain ⟨ht, hlen, ha⟩ := h s hs a t haction
    exact hfg a ha t ht (by omega)

theorem Agree.bind {f : α → Action β} (h : Agree n action action') :
    Agree n (action >>= f) (action' >>= f) := by
  intro s hs hroom
  rw [Effect.bind_apply, Effect.bind_apply, h s hs hroom]

theorem push_eq_of_lt (hroom : s.length < maxItems) (item : Bytes) :
    push (some maxItems) item s = push none item s := by
  simp only [push, objection?, isFull, Option.any_some, Option.any_none, decide_eq_true_eq,
    if_neg (Nat.not_le.2 hroom), Bool.false_eq_true, ↓reduceIte]

theorem agree_push (item : Bytes) : Agree (n + 1) (push (some maxItems) item) (push none item) :=
  fun _ _ hroom => push_eq_of_lt (by omega) item

theorem Agree.push_bind {f g : Unit → Action β} (hfg : Agree n (f ()) (g ())) :
    Agree (n + 1) (push (some maxItems) item >>= f) (push none item >>= g) := by
  intro s hs hroom
  have hkept : Tame (fun _ => True) 1 (push (some maxItems) item) fun _ => True :=
    tame_push (fun _ _ => trivial) (.inr trivial)
  have htame := hkept s hs
  rw [Effect.bind_apply, Effect.bind_apply, ← agree_push item s hs hroom]
  cases hpush : push (some maxItems) item s with
  | error fault t => rfl
  | ok _ t =>
    rw [hpush] at htame
    exact hfg t htame.1 (by have := htame.2.1; omega)

theorem agree_unary (u : Unary) : Agree n (unary (some maxItems) u) (unary none u) :=
  .take (takes_popNumber _) fun _ _ => agree_push _

theorem agree_binary (op : Binary) : Agree n (binary (some maxItems) op) (binary none op) :=
  .take (takes_require 2) fun _ _ => .take (takes_popNumber _) fun _ _ =>
    .take (takes_popNumber _) fun _ _ => agree_push _

theorem agree_within : Agree n (within (some maxItems)) (within none) :=
  .take (takes_require 3) fun _ _ => .take (takes_popNumber _) fun _ _ =>
    .take (takes_popNumber _) fun _ _ => .take (takes_popNumber _) fun _ _ => agree_push _

theorem agree_equal : Agree n (equal (some maxItems)) (equal none) :=
  .take (takes_require 2) fun _ _ => .take takes_pop fun _ _ => .take takes_pop fun _ _ =>
    agree_push _

theorem agree_mapTop (f : Bytes → Bytes) : Agree n (mapTop (some maxItems) f) (mapTop none f) :=
  .take takes_pop fun _ _ => agree_push _

/-! ### Where there may be no room -/

theorem Capped.of_agree (h : Agree 0 action action') : Capped action action' := by
  intro s hs
  rw [h s hs hs.length_le]
  exact .same _

theorem Capped.take {f g : α → Action β} (h : Takes m action R)
    (hfg : ∀ a, R a → Capped (f a) (g a)) : Capped (action >>= f) (action >>= g) := by
  intro s hs
  refine .bind fun a t haction => ?_
  obtain ⟨ht, -, ha⟩ := h s hs a t haction
  exact hfg a ha t ht

theorem push_none (hitem : item.length ≤ maxItemSize) (s : Stack) :
    push none item s = .ok () (item :: s) := by
  simp only [push, objection?, isFull, Option.any_none, Bool.false_eq_true, gt_iff_lt,
    if_neg (Nat.not_lt.2 hitem), ↓reduceIte]

theorem capped_push (hitem : item.length ≤ maxItemSize) :
    Capped (push (some maxItems) item) (push none item) := by
  intro s hs
  by_cases hroom : s.length < maxItems
  · rw [push_eq_of_lt hroom]
    exact .same _
  · rw [push_of_full (Nat.not_lt.1 hroom), push_none hitem]
    exact .full _ _ (Nat.lt_succ_of_le (Nat.not_lt.1 hroom))

theorem copyFrom_none {depth : Nat} (hs : ∀ item ∈ s, item.length ≤ maxItemSize)
    (hdepth : depth < s.length) (count : Nat) :
    ∃ t, copyFrom none depth count s = .ok () t ∧ s.length ≤ t.length := by
  induction count generalizing s with
  | zero => exact ⟨s, rfl, Nat.le_refl _⟩
  | succ count ih =>
    have hitem := hs s[depth] (List.getElem_mem hdepth)
    have hpeek : peek depth s = .ok s[depth] s := by
      simp only [peek, List.getElem?_eq_getElem hdepth]
    obtain ⟨t, hcopy, hlen⟩ := ih (s := s[depth] :: s) (List.forall_mem_cons.2 ⟨hitem, hs⟩)
      (Nat.lt_succ_of_lt hdepth)
    refine ⟨t, ?_, Nat.le_of_succ_le hlen⟩
    simp only [copyFrom, Effect.bind_apply, hpeek, push_none hitem, hcopy]

/-- **Copies on a stack that may be full.** -/
theorem capped_copyFrom (depth count : Nat) :
    Capped (copyFrom (some maxItems) depth count) (copyFrom none depth count) := by
  induction count with
  | zero => exact .of_agree (.refl _)
  | succ count ih =>
    intro s hs
    refine .bind fun item t hpeek => ?_
    obtain ⟨ht, -, hitem⟩ := takes_peek depth s hs item t hpeek
    obtain ⟨rfl, hdepth⟩ : t = s ∧ depth < s.length := by
      unfold peek at hpeek
      split at hpeek
      · rename_i hfound
        obtain ⟨-, rfl⟩ := EStateM.Result.ok.inj hpeek
        exact ⟨rfl, (List.getElem?_eq_some_iff.1 hfound).1⟩
      · exact absurd hpeek (by simp)
    rw [Effect.bind_apply, Effect.bind_apply, push_none hitem]
    by_cases hroom : t.length < maxItems
    · rw [push_eq_of_lt hroom, push_none hitem]
      exact ih (item :: t) (bounded_cons_iff.2 ⟨hitem, hroom, ht⟩)
    · -- the first copy finds no room, and the others would have been added as well
      obtain ⟨u, hcopy, hlen⟩ := copyFrom_none
        (List.forall_mem_cons.2 ⟨hitem, ht.length_item_le⟩) (Nat.lt_succ_of_lt hdepth) count
      rw [push_of_full (Nat.not_lt.1 hroom)]
      simp only [hcopy]
      exact .full _ _ (Nat.lt_of_le_of_lt (Nat.not_lt.1 hroom) hlen)

theorem capped_insertAt {depth : Nat} (hitem : item.length ≤ maxItemSize) :
    Capped (insertAt (some maxItems) depth item) (insertAt none depth item) := by
  intro s hs
  unfold insertAt
  split
  · exact .same _
  · rename_i hdepth
    simp only [Bool.or_eq_true, decide_eq_true_eq, not_or, Nat.not_lt] at hdepth
    have hnone : objection? none item s = none := by
      simp only [objection?, isFull, Option.any_none, Bool.false_eq_true, gt_iff_lt,
        if_neg (Nat.not_lt.2 hitem), ↓reduceIte]
    by_cases hroom : s.length < maxItems
    · rw [hnone, objection?_eq_none hroom hitem]
      exact .same _
    · rw [hnone, objection?_of_full (Nat.not_lt.1 hroom)]
      refine .full _ _ ?_
      rw [List.length_insertIdx_of_le_length hdepth.2]
      exact Nat.lt_succ_of_le (Nat.not_lt.1 hroom)

/-- **Rearrangements on a stack that may be full.** -/
theorem capped_shuffle (sh : Shuffle) : Capped (shuffle (some maxItems) sh) (shuffle none sh) := by
  have hnumber : ∀ n : Nat, n ≤ maxItems →
      Capped (pushNumber (some maxItems) n) (pushNumber none n) := by
    intro n hn
    have hlt : (n : Int).natAbs < Bytes.bound 6 := by
      simp only [maxItems, Bytes.bound] at hn ⊢
      omega
    exact capped_push (Nat.le_trans (Number.length_encode_le hlt) (by decide))
  have hcopy : ∀ n depth count : Nat,
      Capped (do require n; copyFrom (some maxItems) depth count)
        (do require n; copyFrom none depth count) :=
    fun n depth count => .take (takes_require n) fun _ _ => capped_copyFrom depth count
  cases sh with
  | drop2 | swap2 | drop | nip | swap => exact .of_agree (.refl _)
  | dup2 => exact hcopy 2 1 2
  | dup3 => exact hcopy 3 2 3
  | over2 => exact hcopy 4 3 2
  | rot2 =>
    exact .of_agree (.take (takes_require 6) fun _ _ => .take (takes_removeAt 5) fun _ _ =>
      .take (takes_removeAt 4) fun _ _ => .push_bind (agree_push _))
  | ifDup =>
    refine .take (takes_peek 0) fun top htop => ?_
    split
    · exact capped_push htop
    · exact .of_agree (.refl _)
  | depth => exact .take (tame_size (F := fun _ => True)).takes hnumber
  | dup => exact hcopy 1 0 1
  | «over» => exact hcopy 2 1 1
  | pick =>
    exact .of_agree (.take takes_popDepth fun depth _ => .take (takes_peek depth) fun _ _ =>
      agree_push _)
  | roll =>
    exact .of_agree (.take takes_popDepth fun depth _ => .take (takes_removeAt depth) fun _ _ =>
      agree_push _)
  | rot =>
    exact .of_agree (.take (takes_require 3) fun _ _ => .take (takes_removeAt 2) fun _ _ =>
      agree_push _)
  | tuck =>
    exact .take (takes_require 2) fun _ _ => .take (takes_peek 0) fun _ htop =>
      capped_insertAt htop
  | size =>
    exact .take (takes_peek 0) fun top htop => hnumber _ (Nat.le_trans htop (by decide))

end Stack

end SpendScript
