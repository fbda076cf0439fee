import SpendScript.Machine.Operand
import SpendScript.Proofs.Effect

/-!
# Properties that operations inherit

Every operation on the main stack is put together from a few steps.  A property of actions is
*hereditary* if these steps have it and a sequence of actions has it as soon as its parts do
(`Stack.Hereditary`); then every operation has it.  The one exception is the operation that counts
the items, since counting is no such step: properties that do not depend on what lies further down
are hereditary too.

* `Stack.popDepth_eq` : a depth can be taken without counting the items;
* `Stack.Hereditary.unary`, `Stack.Hereditary.binary`, `Stack.Hereditary.shuffle`, … : the
  operations inherit a hereditary property.
-/

namespace SpendScript

/-- The faults that an operation finds by itself: none that it finds when it adds an item, and none
of the code or of a run as a whole. -/
def Fault.isOwn : Fault → Bool
  | .pushSize _ | .stackSize | .codeSize _ | .opCount | .unbalancedConditional | .cancelled => false
  | _ => true

namespace Stack

/-- The property belongs to the single steps, and to all actions made of actions that have it. -/
structure Hereditary (capacity : Capacity) (P : {α : Type} → Action α → Prop) : Prop where
  /-- An answer. -/
  pure : ∀ {α : Type} (a : α), P (Pure.pure a)
  /-- A fault of an operation. -/
  throw : ∀ {α : Type} {fault : Fault}, fault.isOwn = true →
    P (MonadExcept.throw fault : Action α)
  /-- One action after the other. -/
  bind : ∀ {α β : Type} {action : Action α} {f : α → Action β}, P action → (∀ a, P (f a)) →
    P (action >>= f)
  /-- Asking for items. -/
  require : ∀ n, P (require n)
  /-- Taking the top item. -/
  pop : P pop
  /-- Looking at an item. -/
  peek : ∀ depth, P (peek depth)
  /-- Taking an item. -/
  removeAt : ∀ depth, P (removeAt depth)
  /-- Exchanging two items. -/
  swap : ∀ a b, P (swap a b)
  /-- Adding an item on top. -/
  push : ∀ item, P (push capacity item)
  /-- Adding an item at a depth. -/
  insertAt : ∀ depth item, P (insertAt capacity depth item)

theorem popDepth_eq : popDepth = do
    let n ← popNumber Number.operandWidth
    if n < 0 then throw .badStackOperation
    require (n.toNat + 1)
    return n.toNat := by
  unfold popDepth
  refine bind_congr fun n => ?_
  funext s
  by_cases hn : n < 0
  · simp only [Effect.bind_apply, size, hn, true_or, ↓reduceIte]
    rfl
  · simp only [Effect.bind_apply, size, hn, false_or, ↓reduceIte]
    by_cases hsize : s.length ≤ n.toNat
    · have hrequire : require (n.toNat + 1) s = .error .badStackOperation s :=
        if_pos (Nat.lt_succ_of_le hsize)
      simp only [if_pos hsize, Effect.bind_apply, hrequire]
      rfl
    · have hrequire : require (n.toNat + 1) s = .ok () s :=
        if_neg fun hlt => hsize (Nat.le_of_lt_succ hlt)
      simp only [if_neg hsize, hrequire]

namespace Hereditary

variable {capacity : Capacity} {P : {α : Type} → Action α → Prop} (h : Hereditary capacity P)

include h

/-! ### Operands -/

theorem popNumber (width : Nat) : P (popNumber width) := by
  refine h.bind h.pop fun item => ?_
  split
  · exact h.pure _
  · exact h.throw rfl

theorem popTruth : P popTruth :=
  h.bind h.pop fun _ => h.pure _

theorem verifyTop {fault : Fault} (hown : fault.isOwn = true) : P (verifyTop fault) := by
  refine h.bind h.popTruth fun truth => ?_
  split
  · exact h.pure _
  · exact h.throw hown

theorem popDepth : P popDepth := by
  rw [popDepth_eq]
  refine h.bind (h.popNumber _) fun n => ?_
  have hrest : P (do Stack.require (n.toNat + 1); return n.toNat : Action Nat) :=
    h.bind (h.require _) fun _ => h.pure _
  split
  · exact h.bind (h.throw rfl) fun _ => hrest
  · exact hrest

theorem popMany (n : Nat) : P (popMany n) := by
  induction n with
  | zero => exact h.pure _
  | succ n ih => exact h.bind h.pop fun _ => h.bind ih fun _ => h.pure _

theorem popCount (most : Int) {fault : Fault} (hown : fault.isOwn = true) :
    P (popCount most fault) := by
  refine h.bind (h.popNumber _) fun n => ?_
  split
  · exact h.bind (h.throw hown) fun _ => h.pure _
  · exact h.pure _

theorem pushNumber (n : Int) : P (pushNumber capacity n) :=
  h.push _

theorem pushTruth (b : Bool) : P (pushTruth capacity b) :=
  h.push _

/-! ### Operations -/

theorem unary (u : Unary) : P (unary capacity u) :=
  h.bind (h.popNumber _) fun _ => h.pushNumber _

theorem binary (op : Binary) : P (binary capacity op) :=
  h.bind (h.require 2) fun _ => h.bind (h.popNumber _) fun _ => h.bind (h.popNumber _) fun _ =>
    h.pushNumber _

theorem within : P (within capacity) :=
  h.bind (h.require 3) fun _ => h.bind (h.popNumber _) fun _ => h.bind (h.popNumber _) fun _ =>
    h.bind (h.popNumber _) fun _ => h.pushTruth _

theorem equal : P (equal capacity) :=
  h.bind (h.require 2) fun _ => h.bind h.pop fun _ => h.bind h.pop fun _ => h.pushTruth _

theorem mapTop (f : Bytes → Bytes) : P (mapTop capacity f) :=
  h.bind h.pop fun _ => h.push _

theorem lockTime : P lockTime := by
  refine h.bind (h.popNumber _) fun n => ?_
  split
  · exact h.throw rfl
  · exact h.pure _

theorem copyFrom (depth count : Nat) : P (copyFrom capacity depth count) := by
  induction count with
  | zero => exact h.pure _
  | succ count ih => exact h.bind (h.peek depth) fun _ => h.bind (h.push _) fun _ => ih

/-- **Every rearrangement inherits the property**, apart from the one that counts the items. -/
theorem shuffle {sh : Shuffle} (hsh : sh ≠ .depth) : P (shuffle capacity sh) := by
  have hcopy : ∀ n depth count : Nat,
      P (do Stack.require n; Stack.copyFrom capacity depth count : Action Unit) :=
    fun n depth count => h.bind (h.require n) fun _ => h.copyFrom depth count
  cases sh with
  | depth => exact absurd rfl hsh
  | drop2 =>
    exact h.bind (h.require 2) fun _ => h.bind h.pop fun _ => h.bind h.pop fun _ => h.pure _
  | dup2 => exact hcopy 2 1 2
  | dup3 => exact hcopy 3 2 3
  | over2 => exact hcopy 4 3 2
  | rot2 =>
    exact h.bind (h.require 6) fun _ => h.bind (h.removeAt 5) fun _ =>
      h.bind (h.removeAt 4) fun _ => h.bind (h.push _) fun _ => h.push _
  | swap2 => exact h.bind (h.require 4) fun _ => h.bind (h.swap 3 1) fun _ => h.swap 2 0
  | ifDup =>
    refine h.bind (h.peek 0) fun top => ?_
    split
    · exact h.push _
    · exact h.pure _
  | drop => exact h.bind h.pop fun _ => h.pure _
  | dup => exact hcopy 1 0 1
  | nip => exact h.bind (h.removeAt 1) fun _ => h.pure _
  | «over» => exact hcopy 2 1 1
  | pick => exact h.bind h.popDepth fun depth => h.bind (h.peek depth) fun _ => h.push _
  | roll => exact h.bind h.popDepth fun depth => h.bind (h.removeAt depth) fun _ => h.push _
  | rot => exact h.bind (h.require 3) fun _ => h.bind (h.removeAt 2) fun _ => h.push _
  | swap => exact h.bind (h.require 2) fun _ => h.swap 0 1
  | tuck =>
    exact h.bind (h.require 2) fun _ => h.bind (h.peek 0) fun _ => h.insertAt 2 _
  | size => exact h.bind (h.peek 0) fun _ => h.pushNumber _

end Hereditary

end Stack

end SpendScript
