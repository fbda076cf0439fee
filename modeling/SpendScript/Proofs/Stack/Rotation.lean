import SpendScript.Stack
import Mathlib.Data.List.Rotate

/-!
# Rotations of the items on top

Some items on top of a stack are rotated if the one at the deepest place of them comes to the top
and the others go one place deeper, any number of times.

* `Stack.rotateTop_rotateTop`, `Stack.rotateTop_of_dvd` : rotations add up, and come round;
* `Stack.getElem?_rotateTop`, `Stack.drop_rotateTop` : where the items go;
* `Stack.rotateTop_perm` : none is lost.

In the order in which the items were pushed this is a rotation to the left (`List.rotate`).
-/

namespace SpendScript

namespace Stack

/-- The stack with its topmost `count` items rotated by so many places. -/
def rotateTop (count places : Nat) (s : Stack) : Stack :=
  ((s.take count).reverse.rotate places).reverse ++ s.drop count

variable {count : Nat} {s : Stack}

theorem exists_top (h : count ≤ s.length) :
    ∃ (items : List Bytes) (below : Stack), items.length = count ∧ s = items.reverse ++ below := by
  refine ⟨(s.take count).reverse, s.drop count, ?_, ?_⟩
  · rw [List.length_reverse, List.length_take_of_le h]
  · rw [List.reverse_reverse, List.take_append_drop]

theorem rotateTop_append (items : List Bytes) (below : Stack) (places : Nat) :
    rotateTop items.length places (items.reverse ++ below) =
      (items.rotate places).reverse ++ below := by
  rw [rotateTop, List.take_left' List.length_reverse, List.drop_left' List.length_reverse,
    List.reverse_reverse]

theorem rotateTop_zero (count : Nat) (s : Stack) : rotateTop count 0 s = s := by
  rw [rotateTop, List.rotate_zero, List.reverse_reverse, List.take_append_drop]

/-- **Rotations add up.** -/
theorem rotateTop_rotateTop (h : count ≤ s.length) (a b : Nat) :
    rotateTop count b (rotateTop count a s) = rotateTop count (a + b) s := by
  obtain ⟨items, below, rfl, rfl⟩ := exists_top h
  have hagain := rotateTop_append (items.rotate a) below b
  rw [List.length_rotate, List.rotate_rotate] at hagain
  rw [rotateTop_append, rotateTop_append, hagain]

/-- **A rotation comes round.** -/
theorem rotateTop_of_dvd {places : Nat} (h : count ≤ s.length) (hdvd : count ∣ places) :
    rotateTop count places s = s := by
  obtain ⟨items, below, rfl, rfl⟩ := exists_top h
  obtain ⟨rounds, rfl⟩ := hdvd
  rw [rotateTop_append, List.rotate_length_mul]

theorem drop_rotateTop (h : count ≤ s.length) (places : Nat) :
    (rotateTop count places s).drop count = s.drop count := by
  obtain ⟨items, below, rfl, rfl⟩ := exists_top h
  rw [rotateTop_append, List.drop_left' List.length_reverse]
  exact List.drop_left' (by rw [List.length_reverse, List.length_rotate])

/-- **Every item on top goes so many places deeper**, or from the deepest place on from the top. -/
theorem getElem?_rotateTop {depth : Nat} (h : count ≤ s.length) (hdepth : depth < count)
    (places : Nat) : (rotateTop count places s)[(depth + places) % count]? = s[depth]? := by
  obtain ⟨items, below, rfl, rfl⟩ := exists_top h
  have hlt : (depth + places) % items.length < items.length := Nat.mod_lt _ (by omega)
  have hround : (items.length - 1 - (depth + places) % items.length + places) % items.length =
      items.length - 1 - depth := by
    have hsum := Nat.div_add_mod (depth + places) items.length
    have hplace : items.length - 1 - (depth + places) % items.length + places =
        items.length - 1 - depth + items.length * ((depth + places) / items.length) := by omega
    rw [hplace, Nat.add_mul_mod_self_left, Nat.mod_eq_of_lt (by omega)]
  rw [rotateTop_append, List.getElem?_append_left (by simpa using hlt),
    List.getElem?_append_left (by simpa using hdepth),
    List.getElem?_reverse (by simpa using hlt), List.getElem?_reverse hdepth, List.length_rotate,
    List.getElem?_rotate (by omega), hround]

/-- **A rotation loses no item.** -/
theorem rotateTop_perm (count places : Nat) (s : Stack) : (rotateTop count places s).Perm s := by
  have htop : (((s.take count).reverse.rotate places).reverse).Perm (s.take count) :=
    (List.reverse_perm _).trans ((List.rotate_perm _ _).trans (List.reverse_perm _))
  have hperm := htop.append_right (s.drop count)
  rwa [List.take_append_drop] at hperm

end Stack

end SpendScript
