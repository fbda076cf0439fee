import Mathlib.Tactic.SplitIfs
import SpendScript.Proofs.Stack.Tame

/-!
# Stacks as plain lists

A stack counts depths from its top, and takes and adds items there.  The same can be said of a list
that begins at the bottom, in terms of indexes into that list (`Stack.Call.onList`).  Any calls on a
new stack have the same replies as on the list, and the list is always the stack the other way
round.

* `Stack.onList_reverse` : one call on a stack and on the list;
* `Stack.replay_onList` : any number of calls;
* `Stack.bounded_replay` : which leave the stack bounded;
* `Stack.laws` : what single calls have to do with each other (`Stack.Laws`);
* `Stack.refines` : all this of a new stack (`Stack.Refines`).
-/

namespace SpendScript

namespace Stack

/-- The calls on a stack. -/
inductive Call
  | push (item : Bytes)
  | pop
  | peek (depth : Nat)
  | removeAt (depth : Nat)
  | insertAt (depth : Nat) (item : Bytes)
  | swap (a b : Nat)
  | require (n : Nat)

/-- What a call replies: a fault, an item, or nothing. -/
abbrev Reply := Except Fault (Option Bytes)

/-! ### Stacks -/

/-- What an action replies and the stack that it leaves. -/
def outcome {α : Type} (answer : α → Option Bytes) : EStateM.Result Fault Stack α → Reply × Stack
  | .ok a s => (.ok (answer a), s)
  | .error fault s => (.error fault, s)

/-- A call on a stack of the standard capacity. -/
def Call.onStack (s : Stack) : Call → Reply × Stack
  | .push item => outcome (fun _ => none) (Stack.push (some maxItems) item s)
  | .pop => outcome some (Stack.pop s)
  | .peek depth => outcome some (Stack.peek depth s)
  | .removeAt depth => outcome some (Stack.removeAt depth s)
  | .insertAt depth item => outcome (fun _ => none) (Stack.insertAt (some maxItems) depth item s)
  | .swap a b => outcome (fun _ => none) (Stack.swap a b s)
  | .require n => outcome (fun _ => none) (Stack.require n s)

/-- Calls one after the other, with what each replies and what is left at last. -/
def replay {σ : Type} (step : σ → Call → Reply × σ) : List Call → σ → List Reply × σ
  | [], s => ([], s)
  | call :: calls, s =>
    let (reply, t) := step s call
    let (replies, last) := replay step calls t
    (reply :: replies, last)

/-! ### Plain lists -/

/-- The index of the item that lies below `depth` others, in a list that begins at the bottom. -/
def index? (items : List Bytes) (depth : Nat) : Option Nat :=
  if depth < items.length then some (items.length - 1 - depth) else none

/-- Makes a list with one more item what is left, unless there are too many items already or this
one is too long. -/
def grow (items : List Bytes) (item : Bytes) (after : List Bytes) : Reply × List Bytes :=
  if 1000 ≤ items.length then (.error .stackSize, items)
  else if 520 < item.length then (.error (.pushSize item.length), items)
  else (.ok none, after)

/-- A call on a list that begins at the bottom. -/
def Call.onList (items : List Bytes) : Call → Reply × List Bytes
  | .push item => grow items item (items ++ [item])
  | .pop =>
    match items.getLast? with
    | some item => (.ok item, items.dropLast)
    | none => (.error .badStackOperation, items)
  | .peek depth =>
    match index? items depth with
    | some k => (.ok items[k]?, items)
    | none => (.error .badStackOperation, items)
  | .removeAt depth =>
    match index? items depth with
    | some k => (.ok items[k]?, items.eraseIdx k)
    | none => (.error .badStackOperation, items)
  | .insertAt depth item =>
    if items.isEmpty || items.length < depth then (.error .badStackOperation, items)
    else grow items item (items.insertIdx (items.length - depth) item)
  | .swap a b =>
    match index? items a, index? items b with
    | some j, some k => (.ok none, (items.set j (items.getD k [])).set k (items.getD j []))
    | _, _ => (.error .badStackOperation, items)
  | .require n =>
    if items.length < n then (.error .badStackOperation, items) else (.ok none, items)

/-- What single calls on a stack have to do with each other. -/
structure Laws (s : Stack) : Prop where
  /-- A call that fails leaves the stack as it was. -/
  unchanged_of_error : ∀ (c : Call) fault, (c.onStack s).1 = .error fault → (c.onStack s).2 = s
  /-- Looking at an item changes nothing. -/
  unchanged_peek : ∀ depth, (Call.onStack s (.peek depth)).2 = s
  /-- Asking for items changes nothing. -/
  unchanged_require : ∀ n, (Call.onStack s (.require n)).2 = s
  /-- An item that was added comes back from where it was put, and nothing is left of it. -/
  removeAt_insertAt : ∀ depth item t, Stack.insertAt (some maxItems) depth item s = .ok () t →
    Stack.removeAt depth t = .ok item s
  /-- If there are items, adding one at the top is pushing it, and fails as that does. -/
  insertAt_zero : s ≠ [] → ∀ item,
    Stack.insertAt (some maxItems) 0 item s = Stack.push (some maxItems) item s
  /-- If there are none, no item can be added anywhere. -/
  insertAt_of_nil : s = [] → ∀ depth item,
    Stack.insertAt (some maxItems) depth item s = .error .badStackOperation s
  /-- It does not matter which of two items that are exchanged is named first. -/
  swap_comm : ∀ a b, Stack.swap a b s = Stack.swap b a s
  /-- Exchanging two items again puts them back. -/
  swap_swap : ∀ a b t, Stack.swap a b s = .ok () t → Stack.swap a b t = .ok () s

/-- What calls on a new stack have to do with those on an empty list. -/
structure Refines (calls : List Call) : Prop where
  /-- They have the same replies. -/
  replies_eq : (replay Call.onStack calls []).1 = (replay Call.onList calls []).1
  /-- The list is the stack from the bottom up. -/
  contents_eq : (replay Call.onStack calls []).2.reverse = (replay Call.onList calls []).2
  /-- There are not too many items. -/
  length_le : (replay Call.onStack calls []).2.length ≤ 1000
  /-- No item is too long. -/
  length_item_le : ∀ item ∈ (replay Call.onStack calls []).2, item.length ≤ 520
  /-- The stack obeys the laws. -/
  laws : Laws (replay Call.onStack calls []).2

/-! ### Lists the other way round -/

section

variable {α : Type} {l : List α} {depth : Nat} {x : α}

theorem exists_eq_append_cons (h : depth < l.length) :
    ∃ above y below, l = above ++ y :: below ∧ above.length = depth := by
  refine ⟨l.take depth, l[depth], l.drop (depth + 1), ?_, List.length_take_of_le (Nat.le_of_lt h)⟩
  rw [← List.drop_eq_getElem_cons h, List.take_append_drop]

theorem insertIdx_length_append (above below : List α) (x : α) :
    (above ++ below).insertIdx above.length x = above ++ x :: below :=
  List.modifyTailIdx_add (List.cons x) 0 above below

theorem eraseIdx_length_append (above below : List α) (y : α) :
    (above ++ y :: below).eraseIdx above.length = above ++ below := by
  rw [List.eraseIdx_append_of_length_le (Nat.le_refl _), Nat.sub_self, List.eraseIdx_cons_zero]

theorem set_length_append (above below : List α) (x y : α) :
    (above ++ y :: below).set above.length x = above ++ x :: below := by
  rw [List.set_append_right _ _ (Nat.le_refl _), Nat.sub_self, List.set_cons_zero]

theorem length_append_cons_sub (above below : List α) (y : α) :
    (above ++ y :: below).length - 1 - above.length = below.reverse.length := by
  simp only [List.length_append, List.length_cons, List.length_reverse]
  omega

theorem reverse_append_cons (above below : List α) (y : α) :
    (above ++ y :: below).reverse = below.reverse ++ y :: above.reverse := by
  simp

theorem getElem?_reverse_sub (h : depth < l.length) :
    l.reverse[l.length - 1 - depth]? = l[depth]? := by
  have hindex : l.length - 1 - (l.length - 1 - depth) = depth := by omega
  rw [List.getElem?_reverse (by omega), hindex]

theorem eraseIdx_reverse (h : depth < l.length) :
    l.reverse.eraseIdx (l.length - 1 - depth) = (l.eraseIdx depth).reverse := by
  obtain ⟨above, y, below, rfl, rfl⟩ := exists_eq_append_cons h
  rw [length_append_cons_sub, reverse_append_cons, eraseIdx_length_append, eraseIdx_length_append,
    List.reverse_append]

theorem set_reverse (h : depth < l.length) :
    l.reverse.set (l.length - 1 - depth) x = (l.set depth x).reverse := by
  obtain ⟨above, y, below, rfl, rfl⟩ := exists_eq_append_cons h
  rw [length_append_cons_sub, reverse_append_cons, set_length_append, set_length_append,
    reverse_append_cons]

theorem insertIdx_reverse (h : depth ≤ l.length) :
    l.reverse.insertIdx (l.length - depth) x = (l.insertIdx depth x).reverse := by
  obtain ⟨above, below, rfl, rfl⟩ : ∃ above below, l = above ++ below ∧ above.length = depth :=
    ⟨l.take depth, l.drop depth, (List.take_append_drop depth l).symm, List.length_take_of_le h⟩
  have hindex : (above ++ below).length - above.length = below.reverse.length := by simp
  rw [hindex, List.reverse_append, insertIdx_length_append, insertIdx_length_append,
    reverse_append_cons]

end

/-! ### Calls -/

variable {s t : Stack} {item : Bytes} {depth : Nat}

theorem index?_reverse_of_lt (h : depth < s.length) :
    index? s.reverse depth = some (s.length - 1 - depth) := by
  rw [index?, List.length_reverse, if_pos h]

theorem index?_reverse_of_le (h : s.length ≤ depth) : index? s.reverse depth = none := by
  rw [index?, List.length_reverse, if_neg (Nat.not_lt.2 h)]

theorem grow_reverse (item : Bytes) (s after : Stack) :
    grow s.reverse item after.reverse =
      match objection? (some maxItems) item s with
      | some fault => (.error fault, s.reverse)
      | none => (.ok none, after.reverse) := by
  simp only [grow, objection?, isFull, List.length_reverse, Option.any_some, decide_eq_true_eq,
    gt_iff_lt, maxItems, maxItemSize]
  split_ifs <;> rfl

/-- **A call on the list does what the call on the stack does.** -/
theorem onList_reverse (s : Stack) (c : Call) :
    c.onList s.reverse = ((c.onStack s).1, (c.onStack s).2.reverse) := by
  cases c with
  | push item =>
    have hgrow := grow_reverse item s (item :: s)
    rw [List.reverse_cons] at hgrow
    simp only [Call.onList, Call.onStack, Stack.push, hgrow]
    cases objection? (some maxItems) item s with
    | some fault => rfl
    | none => simp [outcome]
  | pop =>
    cases s with
    | nil => rfl
    | cons item s => simp [Call.onList, Call.onStack, Stack.pop, outcome]
  | peek depth =>
    simp only [Call.onList, Call.onStack, Stack.peek]
    rcases Nat.lt_or_ge depth s.length with h | h
    · rw [index?_reverse_of_lt h]
      simp [outcome, getElem?_reverse_sub h, List.getElem?_eq_getElem h]
    · rw [index?_reverse_of_le h]
      simp [outcome, List.getElem?_eq_none h]
  | removeAt depth =>
    simp only [Call.onList, Call.onStack, Stack.removeAt]
    rcases Nat.lt_or_ge depth s.length with h | h
    · rw [index?_reverse_of_lt h]
      simp [outcome, getElem?_reverse_sub h, eraseIdx_reverse h, List.getElem?_eq_getElem h]
    · rw [index?_reverse_of_le h]
      simp [outcome, List.getElem?_eq_none h]
  | insertAt depth item =>
    simp only [Call.onList, Call.onStack, Stack.insertAt, List.isEmpty_reverse,
      List.length_reverse]
    split
    · rfl
    · rename_i h
      have hdepth : depth ≤ s.length := by simp_all
      rw [insertIdx_reverse hdepth, grow_reverse]
      cases objection? (some maxItems) item s <;> rfl
  | swap a b =>
    simp only [Call.onList, Call.onStack, Stack.swap]
    rcases Nat.lt_or_ge a s.length with ha | ha
    · rcases Nat.lt_or_ge b s.length with hb | hb
      · rw [index?_reverse_of_lt ha, index?_reverse_of_lt hb]
        simp only [List.getD_eq_getElem?_getD, getElem?_reverse_sub ha, getElem?_reverse_sub hb,
          List.getElem?_eq_getElem ha, List.getElem?_eq_getElem hb, Option.getD_some, outcome]
        rw [set_reverse ha, ← List.length_set, set_reverse (by rwa [List.length_set])]
      · rw [index?_reverse_of_le hb]
        simp [outcome, List.getElem?_eq_none hb]
    · rw [index?_reverse_of_le ha]
      simp [outcome, List.getElem?_eq_none ha]
  | require n =>
    simp only [Call.onList, Call.onStack, Stack.require, List.length_reverse]
    split <;> rfl

/-- **Any calls on the list do what they do on the stack.** -/
theorem replay_onList (calls : List Call) (s : Stack) :
    replay Call.onList calls s.reverse =
      ((replay Call.onStack calls s).1, (replay Call.onStack calls s).2.reverse) := by
  induction calls generalizing s with
  | nil => rfl
  | cons c calls ih =>
    simp only [replay, onList_reverse, ih]

/-! ### What calls leave -/

theorem bounded_outcome {α : Type} {action : Action α} {answer : α → Option Bytes} {n : Nat}
    {R : α → Prop} (h : Tame (fun _ => True) n action R) (hs : Bounded s) :
    Bounded (outcome answer (action s)).2 := by
  have hresult := h s hs
  cases haction : action s with
  | ok a t =>
    rw [haction] at hresult
    exact hresult.1
  | error fault t =>
    rw [haction] at hresult
    exact hresult.1

/-- **A call keeps a stack bounded.** -/
theorem bounded_onStack (hs : Bounded s) (c : Call) : Bounded (c.onStack s).2 := by
  have hF : ∀ fault : Fault, fault.isStatic = false → True := fun _ _ => trivial
  cases c with
  | push item => exact bounded_outcome (tame_push hF (.inr trivial)) hs
  | pop => exact bounded_outcome (tame_pop hF) hs
  | peek depth => exact bounded_outcome (tame_peek hF depth) hs
  | removeAt depth => exact bounded_outcome (tame_removeAt hF depth) hs
  | insertAt depth item => exact bounded_outcome (tame_insertAt hF depth (.inr trivial)) hs
  | swap a b => exact bounded_outcome (tame_swap hF a b) hs
  | require n => exact bounded_outcome (tame_require hF n) hs

theorem bounded_replay (calls : List Call) (hs : Bounded s) :
    Bounded (replay Call.onStack calls s).2 := by
  induction calls generalizing s with
  | nil => exact hs
  | cons c calls ih => exact ih (bounded_onStack hs c)

/-! ### Laws -/

/-- A call that fails leaves the stack as it was. -/
theorem unchanged_of_error {c : Call} {fault : Fault} (h : (c.onStack s).1 = .error fault) :
    (c.onStack s).2 = s := by
  cases c with
  | push item =>
    simp only [Call.onStack, Stack.push] at h ⊢
    cases hobjection : objection? (some maxItems) item s with
    | some fault => rfl
    | none => exact absurd h (by simp [hobjection, outcome])
  | pop =>
    cases s with
    | nil => rfl
    | cons item s => exact absurd h (by simp [Call.onStack, Stack.pop, outcome])
  | peek depth =>
    simp only [Call.onStack, Stack.peek] at h ⊢
    cases hget : s[depth]? with
    | some item => exact absurd h (by simp [hget, outcome])
    | none => rfl
  | removeAt depth =>
    simp only [Call.onStack, Stack.removeAt] at h ⊢
    cases hget : s[depth]? with
    | some item => exact absurd h (by simp [hget, outcome])
    | none => rfl
  | insertAt depth item =>
    simp only [Call.onStack, Stack.insertAt] at h ⊢
    split
    · rfl
    · rename_i hdepth
      cases hobjection : objection? (some maxItems) item s with
      | some fault => rfl
      | none => exact absurd h (by simp [hdepth, hobjection, outcome])
  | swap a b =>
    simp only [Call.onStack, Stack.swap] at h ⊢
    split
    · rename_i hx hy
      exact absurd h (by simp [hx, hy, outcome])
    · rfl
  | require n =>
    simp only [Call.onStack, Stack.require] at h ⊢
    split <;> rfl

theorem removeAt_insertAt {capacity : Capacity} (h : insertAt capacity depth item s = .ok () t) :
    removeAt depth t = .ok item s := by
  unfold insertAt at h
  split at h
  · exact absurd h (by simp)
  · rename_i hdepth
    split at h
    · exact absurd h (by simp)
    · simp only [EStateM.Result.ok.injEq, true_and] at h
      have hle : depth ≤ s.length := by simp_all
      have hlt : depth < (s.insertIdx depth item).length := by
        rw [List.length_insertIdx_of_le_length hle]
        exact Nat.lt_succ_of_le hle
      rw [← h, removeAt, List.getElem?_eq_getElem hlt, List.getElem_insertIdx_self]
      simp only [List.eraseIdx_insertIdx_self]

theorem insertAt_zero {capacity : Capacity} (hs : s ≠ []) (item : Bytes) :
    insertAt capacity 0 item s = push capacity item s := by
  have hempty : (s.isEmpty || s.length < 0) = false := by simp [hs]
  rw [insertAt, hempty, push, List.insertIdx_zero]
  rfl

theorem swap_eq_ok_iff {a b : Nat} :
    swap a b s = .ok () t ↔
      ∃ x y, s[a]? = some x ∧ s[b]? = some y ∧ t = (s.set a y).set b x := by
  unfold swap
  constructor
  · intro h
    split at h
    · rename_i x y hx hy
      exact ⟨x, y, hx, hy, by simpa using h.symm⟩
    · exact absurd h (by simp)
  · rintro ⟨x, y, hx, hy, rfl⟩
    simp only [hx, hy]

theorem swap_comm (a b : Nat) (s : Stack) : swap a b s = swap b a s := by
  unfold swap
  cases hx : s[a]? with
  | none => cases s[b]? <;> rfl
  | some x =>
    cases hy : s[b]? with
    | none => rfl
    | some y =>
      by_cases hab : a = b
      · subst hab
        rw [Option.some.inj (hx.symm.trans hy)]
      · simp only [List.set_comm y x hab]

theorem swap_swap {a b : Nat} (h : swap a b s = .ok () t) : swap a b t = .ok () s := by
  obtain ⟨x, y, hx, hy, rfl⟩ := swap_eq_ok_iff.1 h
  obtain ⟨ha, rfl⟩ := List.getElem?_eq_some_iff.1 hx
  obtain ⟨hb, rfl⟩ := List.getElem?_eq_some_iff.1 hy
  refine swap_eq_ok_iff.2 ⟨s[b], s[a], ?_, ?_, List.ext_getElem? fun k => ?_⟩
  · simp only [List.getElem?_set, List.length_set, ha, hb, if_true]
    split_ifs with hab
    · simp only [hab]
    · rfl
  · simp only [List.getElem?_set, List.length_set, hb, if_true]
  · simp only [List.getElem?_set, List.length_set, ha, hb, if_true]
    split_ifs with hbk hak
    · rw [← hbk, List.getElem?_eq_getElem hb]
    · rw [← hak, List.getElem?_eq_getElem ha]
    · rfl

/-- **The laws of stacks.** -/
theorem laws (s : Stack) : Laws s where
  unchanged_of_error _ _ := unchanged_of_error
  unchanged_peek depth := by
    simp only [Call.onStack, Stack.peek]
    split <;> rfl
  unchanged_require n := by
    simp only [Call.onStack, Stack.require]
    split <;> rfl
  removeAt_insertAt _ _ _ := removeAt_insertAt
  insertAt_zero := insertAt_zero
  insertAt_of_nil := by
    rintro rfl depth item
    rfl
  swap_comm a b := swap_comm a b s
  swap_swap _ _ _ := swap_swap

/-- **A stack is a bounded list.**  Whatever calls are made on a new stack, their replies and the
items are those of a plain list, the limits are kept, and the laws hold of what is left. -/
theorem refines (calls : List Call) : Refines calls := by
  have hlist := replay_onList calls []
  rw [List.reverse_nil] at hlist
  have hbounded := bounded_replay calls bounded_nil
  exact ⟨by rw [hlist], by rw [hlist], hbounded.length_le, hbounded.length_item_le, laws _⟩

/-- An item is put below all others and brought up; one that is not there is asked for. -/
example :
    replay Call.onStack [.push [1], .push [2], .insertAt 2 [3], .swap 0 2, .removeAt 1, .peek 9] [] =
      ([.ok none, .ok none, .ok none, .ok none, .ok (some [1]), .error .badStackOperation],
        [[3], [2]]) :=
  rfl

end Stack

end SpendScript
