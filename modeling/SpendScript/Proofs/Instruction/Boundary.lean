import SpendScript.Proofs.Instruction.Program

/-!
# Where one code ends and another begins

Code in front of other code is read as by itself, and the other code behind it as by itself, only
further on (`Located.shift`).  This fails in one case: a push in which the first code ends takes its
length or its data from the other.

* `Instruction.scan_append` : code that ends with an instruction has no influence on how the code
  behind it is read;
* `Instruction.scan_append_eq_iff` : and there is no other code of which this could be said;
* `Instruction.add_size_le_of_mem_scan_append` : no instruction reaches across the boundary.
-/

namespace SpendScript

/-- The same instruction, further on. -/
def Located.shift (distance : Nat) (place : Located) : Located :=
  { place with offset := place.offset + distance }

namespace Instruction

variable {i : Instruction} {program : List Instruction} {code tail : Bytes} {place : Located}

/-! ### Code behind complete instructions -/

theorem scanFrom_add (distance offset : Nat) (code : Bytes) :
    scanFrom [] (offset + distance) code =
      (scanFrom [] offset code).map (Located.shift distance) := by
  induction code using walk generalizing offset with
  | nil => simp [scanFrom]
  | cut first rest size hread =>
    rw [scanFrom_of_cut hread, scanFrom_of_cut hread]
    rfl
  | behind first rest i size hread ih =>
    rw [scanFrom_of_complete hread, scanFrom_of_complete hread, Nat.add_right_comm, ih,
      List.map_cons]
    rfl

theorem scanFrom_codeOf_append (h : ∀ i ∈ program, i.Readable) (offset : Nat) (tail : Bytes) :
    scanFrom [] offset (codeOf program ++ tail) =
      scanFrom [] offset (codeOf program) ++
        scanFrom [] (offset + (codeOf program).length) tail := by
  induction program generalizing offset with
  | nil => simp [scanFrom]
  | cons i program ih =>
    rw [List.forall_mem_cons] at h
    rw [codeOf_cons, List.append_assoc, scanFrom_bytes_append h.1, scanFrom_bytes_append h.1,
      ih h.2, List.cons_append, List.length_append, Nat.add_assoc]

/-- **Code that ends with an instruction does not change how the code behind it is read.** -/
theorem scan_append (h : decode? code = some program) (tail : Bytes) :
    scan (code ++ tail) = scan code ++ (scan tail).map (Located.shift code.length) := by
  obtain ⟨hreadable, rfl⟩ := decode?_eq_some_iff.1 h
  rw [scan, scanFrom_codeOf_append hreadable, scanFrom_add]
  rfl

theorem add_size_le_of_mem_scanFrom (h : ∀ i ∈ program, i.Readable) (offset : Nat)
    (hplace : place ∈ scanFrom [] offset (codeOf program)) :
    ∃ i size, place.fetched = .complete i size ∧
      place.offset + size ≤ offset + (codeOf program).length := by
  induction program generalizing offset with
  | nil => simp [scanFrom] at hplace
  | cons i program ih =>
    rw [List.forall_mem_cons] at h
    have hcode : codeOf (i :: program) = i.bytes ++ codeOf program := codeOf_cons
    rw [hcode, scanFrom_bytes_append h.1] at hplace
    rw [hcode, List.length_append]
    rcases List.mem_cons.1 hplace with rfl | hplace
    · exact ⟨i, _, rfl, Nat.add_le_add_left (Nat.le_add_right _ _) _⟩
    · obtain ⟨j, size, hfetched, hle⟩ := ih h.2 _ hplace
      exact ⟨j, size, hfetched, by omega⟩

/-- **No instruction reaches across the end of complete code.** -/
theorem add_size_le_of_mem_scan_append (h : decode? code = some program)
    (hplace : place ∈ scan (code ++ tail)) (hoffset : place.offset < code.length) :
    ∃ i size, place.fetched = .complete i size ∧ place.offset + size ≤ code.length := by
  rw [scan_append h, List.mem_append] at hplace
  rcases hplace with hplace | hplace
  · obtain ⟨hreadable, rfl⟩ := decode?_eq_some_iff.1 h
    obtain ⟨i, size, hfetched, hle⟩ := add_size_le_of_mem_scanFrom hreadable 0 hplace
    exact ⟨i, size, hfetched, by rwa [Nat.zero_add] at hle⟩
  · obtain ⟨later, -, rfl⟩ := List.mem_map.1 hplace
    exact absurd hoffset (Nat.not_lt.2 (Nat.le_add_left _ _))

/-! ### Code behind a push that is cut off -/

theorem eq_nil_of_scan_eq_nil (h : scan code = []) : code = [] := by
  cases code with
  | nil => rfl
  | cons first rest =>
    have hfirst := head?_scanFrom 0 first rest
    rw [← scan, h] at hfirst
    exact absurd hfirst (by simp)

/-- **Nothing is found behind a push that is cut off.** -/
theorem eq_nil_of_not_complete {before after : List Located} {offset : Nat}
    (h : scanFrom [] offset code = before ++ place :: after)
    (hplace : place.fetched.instruction? = none) : after = [] := by
  induction code using walk generalizing offset before with
  | nil => exact absurd h (by simp [scanFrom])
  | cut first rest size hread =>
    -- the walk has found one place only, so nothing can stand behind it
    rw [scanFrom_of_cut hread] at h
    have hlength := congrArg List.length h
    simp only [List.length_append, List.length_cons, List.length_nil] at hlength
    exact List.length_eq_zero_iff.1 (by omega)
  | behind first rest i size hread ih =>
    rw [scanFrom_of_complete hread] at h
    cases before with
    | nil =>
      obtain ⟨rfl, -⟩ := List.cons.inj h
      exact absurd hplace (by simp [Fetched.instruction?])
    | cons found before =>
      obtain ⟨-, hrest⟩ := List.cons.inj h
      exact ih hrest

theorem exists_not_complete (h : decode? code = none) :
    ∃ place ∈ scan code, place.fetched.instruction? = none := by
  unfold decode? at h
  generalize scan code = places at h ⊢
  induction places with
  | nil => exact absurd h (by simp)
  | cons place places ih =>
    cases hplace : place.fetched.instruction? with
    | none => exact ⟨place, List.mem_cons_self, hplace⟩
    | some i =>
      rw [List.mapM_cons, hplace] at h
      cases hplaces : places.mapM (fun place => place.fetched.instruction?) with
      | none =>
        obtain ⟨later, hmem, hlater⟩ := ih hplaces
        exact ⟨later, List.mem_cons_of_mem _ hmem, hlater⟩
      | some program => exact absurd h (by simp [hplaces])

/-- **Code behind other code is read as by itself iff the other code is complete.** -/
theorem scan_append_eq_iff :
    scan (code ++ tail) = scan code ++ (scan tail).map (Located.shift code.length) ↔
      (decode? code).isSome ∨ tail = [] := by
  constructor
  · intro h
    cases hdecode : decode? code with
    | some program => exact .inl rfl
    | none =>
      -- what is cut off would stand in the middle of what is found in both together
      obtain ⟨place, hmem, hplace⟩ := exists_not_complete hdecode
      obtain ⟨before, after, hscan⟩ := List.append_of_mem hmem
      rw [hscan, List.append_assoc, List.cons_append] at h
      have hafter := eq_nil_of_not_complete h hplace
      rw [List.append_eq_nil_iff, List.map_eq_nil_iff] at hafter
      exact .inr (eq_nil_of_scan_eq_nil hafter.2)
  · rintro (h | rfl)
    · obtain ⟨program, hdecode⟩ := Option.isSome_iff_exists.1 h
      exact scan_append hdecode tail
    · simp [scan, scanFrom]

end Instruction

end SpendScript
