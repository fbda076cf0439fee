import SpendScript.Proofs.Bytes.HexCase
import SpendScript.Proofs.Source.Words

/-!
# Texts of plain words

A text of plain words with a space between any two has these words, and all of its characters count.

* `Source.spaced_spec` : the words of such a text, and how long it is;
* `Source.hexWord_spec` : the word for bytes is plain.
-/

namespace SpendScript

namespace Source

/-- The text that has a space between any two of the words. -/
def spaced (ws : List String) : String :=
  " ".intercalate ws

/-- The word is one that no text takes apart or cuts off. -/
def IsPlain (word : String) : Prop :=
  (word.toList ≠ [] ∧ ∀ c ∈ word.toList, Text.isBlank c = false) ∧ '/' ∉ word.toList

instance (word : String) : Decidable (IsPlain word) :=
  decidable_of_iff ((word.toList ≠ [] ∧ word.toList.all fun c => !Text.isBlank c) ∧
    '/' ∉ word.toList) (by simp [IsPlain])

variable {text : List Char} {ws : List String}

/-! ### Texts of one line without comments -/

theorem not_infix_of_not_mem (h : '/' ∉ text) : ¬ ['/', '/'] <:+: text := by
  intro hslashes
  exact h (hslashes.subset List.mem_cons_self)

theorem stripChars_of_not_mem (hnewline : '\n' ∉ text) (hslash : '/' ∉ text) :
    stripChars text = text := by
  have hlines : Text.lines text = if text.isEmpty then [] else [text] := by
    rw [Text.lines_eq, Text.pieces_of_not_mem hnewline]
    rfl
  rw [stripChars, hlines]
  split_ifs with hempty
  · rw [List.isEmpty_iff.1 hempty]
    rfl
  · rw [List.map_singleton, cutComment_eq_self (not_infix_of_not_mem hslash),
      Text.unlines_singleton]

/-! ### Spaced words -/

theorem toList_spaced_cons_cons (word next : String) (ws : List String) :
    (spaced (word :: next :: ws)).toList = word.toList ++ ' ' :: (spaced (next :: ws)).toList := by
  rw [spaced, String.intercalate_cons_cons]
  simp [spaced]

theorem mem_spaced {c : Char} (h : c ∈ (spaced ws).toList) :
    c = ' ' ∨ ∃ word ∈ ws, c ∈ word.toList := by
  induction ws with
  | nil => exact absurd h (by simp [spaced])
  | cons word ws ih =>
    cases ws with
    | nil => exact .inr ⟨word, List.mem_cons_self, by simpa [spaced] using h⟩
    | cons next ws =>
      rw [toList_spaced_cons_cons, List.mem_append, List.mem_cons] at h
      rcases h with hword | rfl | hrest
      · exact .inr ⟨word, List.mem_cons_self, hword⟩
      · exact .inl rfl
      · exact (ih hrest).imp_right fun ⟨w, hw, hmem⟩ => ⟨w, List.mem_cons_of_mem _ hw, hmem⟩

theorem stripChars_spaced (h : ∀ word ∈ ws, IsPlain word) :
    stripChars (spaced ws).toList = (spaced ws).toList := by
  refine stripChars_of_not_mem (fun hmem => ?_) (fun hmem => ?_)
  · rcases mem_spaced hmem with hspace | ⟨word, hword, hmem⟩
    · exact absurd hspace (by decide)
    · exact absurd ((h word hword).1.2 _ hmem) (by decide)
  · rcases mem_spaced hmem with hspace | ⟨word, hword, hmem⟩
    · exact absurd hspace (by decide)
    · exact (h word hword).2 hmem

/-- **A text of plain words has these words.** -/
theorem words_spaced (h : ∀ word ∈ ws, IsPlain word) :
    words (spaced ws).toList = ws.map String.toList := by
  rw [words, stripChars_spaced h]
  induction ws with
  | nil => simp [spaced]
  | cons word ws ih =>
    obtain ⟨hword, hws⟩ := List.forall_mem_cons.1 h
    have hfirst : Text.words word.toList = [word.toList] :=
      Text.words_eq_singleton hword.1.1 hword.1.2
    cases ws with
    | nil => simpa [spaced] using hfirst
    | cons next ws =>
      rw [toList_spaced_cons_cons, Text.words_append_cons (by decide), hfirst, ih hws]
      rfl

theorem length_spaced_le {k : Nat} (hk : ∀ word ∈ ws, word.length ≤ k) :
    (spaced ws).length ≤ ws.length * (k + 1) := by
  induction ws with
  | nil => simp [spaced]
  | cons word ws ih =>
    obtain ⟨hword, hws⟩ := List.forall_mem_cons.1 hk
    cases ws with
    | nil => simpa [spaced] using Nat.le_succ_of_le hword
    | cons next ws =>
      have hrest := ih hws
      rw [← String.length_toList] at hrest hword ⊢
      rw [toList_spaced_cons_cons, List.length_append, List.length_cons, List.length_cons,
        Nat.succ_mul]
      omega

/-- **A text of plain words of at most `k` characters** has these words, and is not longer than they
make it. -/
theorem spaced_spec {k : Nat} (h : ∀ word ∈ ws, IsPlain word ∧ word.length ≤ k) :
    HasWords (spaced ws).toList (ws.map String.toList) ∧
      (stripComments (spaced ws)).length ≤ ws.length * (k + 1) := by
  have hplain : ∀ word ∈ ws, IsPlain word := fun word hword => (h word hword).1
  refine ⟨hasWords_iff.2 (words_spaced hplain), ?_⟩
  rw [stripComments, stripChars_spaced hplain, String.ofList_toList]
  exact length_spaced_le fun word hword => (h word hword).2

/-! ### Words for bytes -/

/-- The word for some bytes, in lowercase digits. -/
def hexWord (bytes : Bytes) : String :=
  "0x" ++ Hex.encode bytes

theorem toList_hexWord (bytes : Bytes) :
    (hexWord bytes).toList = '0' :: 'x' :: Hex.digits bytes := by
  simp [hexWord, Hex.encode]

theorem length_hexWord (bytes : Bytes) : (hexWord bytes).length = 2 + 2 * bytes.length := by
  rw [← String.length_toList, toList_hexWord, List.length_cons, List.length_cons,
    Hex.length_digits]
  omega

theorem isPlain_hexWord (bytes : Bytes) : IsPlain (hexWord bytes) := by
  have hdigit : ∀ n < 16, Text.isBlank (Hex.digit n) = false ∧ Hex.digit n ≠ '/' := by
    decide
  have hdigits : ∀ c ∈ Hex.digits bytes, Text.isBlank c = false ∧ c ≠ '/' := by
    intro c hc
    rw [Hex.digits_eq_map_halves] at hc
    obtain ⟨n, hn, rfl⟩ := List.mem_map.1 hc
    exact hdigit n (Hex.lt_of_mem_halves hn)
  rw [IsPlain, toList_hexWord]
  refine ⟨⟨List.cons_ne_nil _ _, ?_⟩, ?_⟩
  · rw [List.forall_mem_cons, List.forall_mem_cons]
    exact ⟨by decide, by decide, fun c hc => (hdigits c hc).1⟩
  · intro hmem
    rcases List.mem_cons.1 hmem with hzero | hmem
    · exact absurd hzero (by decide)
    · rcases List.mem_cons.1 hmem with hx | hmem
      · exact absurd hx (by decide)
      · exact (hdigits _ hmem).2 rfl

theorem hexWord_spec {bytes : Bytes} {n : Nat} (h : bytes.length ≤ n) :
    IsPlain (hexWord bytes) ∧ (hexWord bytes).length ≤ 2 + 2 * n := by
  refine ⟨isPlain_hexWord bytes, ?_⟩
  rw [length_hexWord]
  omega

end Source

end SpendScript
