import SpendScript.Proofs.Text.Words

/-!
# Words as maximal runs

The words of a text are its longest runs of characters that are not blank.  `Text.Runs` says so
without an algorithm: it takes a text apart into runs and the gaps between them.

* `Text.runs_iff` : a text can be taken apart in one way only, into its words;
* `Text.isInfix_of_mem_words` : a word stands in the text in one piece.
-/

namespace SpendScript

namespace Text

/-- There are blanks only. -/
def IsGap (gap : List Char) : Prop :=
  ∀ c ∈ gap, isBlank c = true

/-- There is something, and no blank in it. -/
def IsRun (word : List Char) : Prop :=
  word ≠ [] ∧ ∀ c ∈ word, isBlank c = false

/-- The longest runs of characters of a text that are not blank, in order. -/
inductive Runs : (text : List Char) → (words : List (List Char)) → Prop
  /-- A text of blanks has none. -/
  | nil {gap : List Char} (hgap : IsGap gap) : Runs gap []
  /-- Behind blanks comes a run, which ends with the text or at the next blank. -/
  | cons {gap word rest : List Char} {later : List (List Char)} (hgap : IsGap gap)
      (hword : IsRun word) (hend : ∀ c ∈ rest.head?, isBlank c = true) (hlater : Runs rest later) :
      Runs (gap ++ (word ++ rest)) (word :: later)

variable {c : Char} {text gap word : List Char} {ws : List (List Char)}

/-! ### Taking a text apart -/

theorem words_cons_of_blank (h : isBlank c = true) (text : List Char) :
    words (c :: text) = words text := by
  rw [words_eq, cut_cons_of_blank h]
  rfl

theorem words_gap_append (h : IsGap gap) (text : List Char) : words (gap ++ text) = words text := by
  induction gap with
  | nil => rfl
  | cons c gap ih =>
    obtain ⟨hc, hgap⟩ := List.forall_mem_cons.1 h
    rw [List.cons_append, words_cons_of_blank hc, ih hgap]

theorem words_of_runs (h : Runs text ws) : words text = ws := by
  induction h with
  | @nil gap hgap =>
    rw [← List.append_nil gap, words_gap_append hgap, words_nil]
  | @cons gap word rest later hgap hword hend _ ih =>
    rw [words_gap_append hgap, ← ih]
    cases rest with
    | nil => rw [List.append_nil, words_eq_singleton hword.1 hword.2, words_nil]
    | cons c rest =>
      have hc : isBlank c = true := hend c rfl
      rw [words_append_cons hc, words_eq_singleton hword.1 hword.2, words_cons_of_blank hc]
      rfl

theorem Runs.cons_blank (h : Runs text ws) (hc : isBlank c = true) : Runs (c :: text) ws := by
  cases h with
  | nil hgap => exact .nil (List.forall_mem_cons.2 ⟨hc, hgap⟩)
  | @cons gap word rest later hgap hword hend hlater =>
    have hgap' : IsGap (c :: gap) := List.forall_mem_cons.2 ⟨hc, hgap⟩
    exact .cons hgap' hword hend hlater

theorem Runs.exists_cons (h : Runs text ws) (hc : isBlank c = false) :
    ∃ ws, Runs (c :: text) ws := by
  have hnone : IsGap [] := fun b hb => absurd hb List.not_mem_nil
  have hrun : IsRun [c] := ⟨List.cons_ne_nil c [], by simpa using hc⟩
  have halone : (∀ b ∈ text.head?, isBlank b = true) → Runs (c :: text) ([c] :: ws) :=
    fun hend => .cons hnone hrun hend h
  cases h with
  | nil hgap => exact ⟨_, halone fun b hb => hgap b (List.mem_of_head? hb)⟩
  | @cons gap word rest later hgap hword hend hlater =>
    cases gap with
    | nil =>
      -- nothing is between the character and the first run
      exact ⟨_, @Runs.cons [] (c :: word) rest later hnone
        ⟨List.cons_ne_nil c word, List.forall_mem_cons.2 ⟨hc, hword.2⟩⟩ hend hlater⟩
    | cons b gap =>
      refine ⟨_, halone fun b' hb' => ?_⟩
      obtain rfl := Option.some.inj hb'
      exact hgap b List.mem_cons_self

theorem exists_runs (text : List Char) : ∃ ws, Runs text ws := by
  induction text with
  | nil => exact ⟨[], .nil fun c hc => absurd hc List.not_mem_nil⟩
  | cons c text ih =>
    obtain ⟨ws, h⟩ := ih
    cases hc : isBlank c with
    | true => exact ⟨ws, h.cons_blank hc⟩
    | false => exact h.exists_cons hc

theorem runs_words (text : List Char) : Runs text (words text) := by
  obtain ⟨ws, h⟩ := exists_runs text
  rwa [words_of_runs h]

/-- **A text can be taken apart in one way, into its words.** -/
theorem runs_iff : Runs text ws ↔ words text = ws := by
  constructor
  · exact words_of_runs
  · rintro rfl
    exact runs_words text

/-! ### Single words -/

theorem Runs.isInfix (h : Runs text ws) : ∀ word ∈ ws, word <:+: text := by
  induction h with
  | nil => exact fun word hword => absurd hword List.not_mem_nil
  | @cons gap word rest later _ _ _ _ ih =>
    rw [List.forall_mem_cons]
    refine ⟨⟨gap, rest, List.append_assoc gap word rest⟩, fun w hw => (ih w hw).trans ?_⟩
    rw [← List.append_assoc]
    exact (List.suffix_append _ rest).isInfix

end Text

end SpendScript
