import Mathlib.Data.List.Forall2
import SpendScript.Proofs.Source.Comment
import SpendScript.Proofs.Text.Runs

/-!
# Words of source text

Each line of a source text counts up to its first two slashes in a row, and the words are the
longest runs of what is left that are not blank (`Source.HasWords`).  Carriage returns need no
mention in this: they are blanks.

* `Source.hasWords_iff` : a text has its words and no others;
* `Source.words_append_newline` : the words of two texts on lines of their own are those of one and
  then those of the other;
* `Source.words_of_mem_words` : a word by itself is a text with this one word.
-/

namespace SpendScript

namespace Source

/-- What is left of a line. -/
inductive Uncommented : (line kept : List Char) → Prop
  /-- All of it, if it has no two slashes in a row. -/
  | whole {line : List Char} (h : ¬ ['/', '/'] <:+: line) : Uncommented line line
  /-- What stands before two slashes, if these are the first. -/
  | cut {kept comment : List Char} (h : ¬ ['/', '/'] <:+: kept ++ ['/']) :
      Uncommented (kept ++ '/' :: '/' :: comment) kept

/-- The words of a text are the runs of its lines without comments. -/
def HasWords (text : List Char) (ws : List (List Char)) : Prop :=
  ∃ lines kept, lines ≠ [] ∧ (∀ line ∈ lines, '\n' ∉ line) ∧ text = Text.unlines lines ∧
    List.Forall₂ Uncommented lines kept ∧ Text.Runs (Text.unlines kept) ws

variable {line kept text word : List Char} {ws : List (List Char)}

/-! ### Lines -/

theorem slashes_isPrefix_cons_iff {c : Char} :
    ['/', '/'] <+: c :: line ↔ c = '/' ∧ line.head? = some '/' := by
  rw [List.cons_prefix_cons, List.head?_eq_some_iff]
  constructor
  · rintro ⟨rfl, tail, rfl⟩
    exact ⟨rfl, tail, rfl⟩
  · rintro ⟨rfl, tail, rfl⟩
    exact ⟨rfl, tail, rfl⟩

theorem cutComment_append_slashes (h : ¬ ['/', '/'] <:+: kept ++ ['/']) (comment : List Char) :
    cutComment (kept ++ '/' :: '/' :: comment) = kept := by
  induction kept with
  | nil => rw [List.nil_append, cutComment_cons, if_pos ⟨rfl, rfl⟩]
  | cons c kept ih =>
    rw [List.cons_append, List.infix_cons_iff, not_or, slashes_isPrefix_cons_iff] at h
    -- the next character is the same with and without the comment
    have hhead : (kept ++ '/' :: '/' :: comment).head? = (kept ++ ['/']).head? := by
      cases kept <;> rfl
    rw [List.cons_append, cutComment_cons, hhead, if_neg h.1, ih h.2]

theorem uncommented_cutComment (line : List Char) : Uncommented line (cutComment line) := by
  induction line with
  | nil => exact .whole (by simp)
  | cons c line ih =>
    by_cases hslashes : c = '/' ∧ line.head? = some '/'
    · obtain ⟨rfl, hsecond⟩ := hslashes
      obtain ⟨comment, rfl⟩ := List.head?_eq_some_iff.1 hsecond
      rw [cutComment_cons, if_pos ⟨rfl, rfl⟩]
      exact @Uncommented.cut [] comment (by decide)
    · -- the cut, if there is one, is in the rest of the line, and the same there
      rw [cutComment_cons, if_neg hslashes]
      generalize cutComment line = kept at ih
      cases ih with
      | whole h => exact .whole (by rwa [List.infix_cons_iff, slashes_isPrefix_cons_iff, not_or,
          and_iff_right hslashes])
      | @cut kept comment h =>
        have hhead : (kept ++ '/' :: '/' :: comment).head? = (kept ++ ['/']).head? := by
          cases kept <;> rfl
        rw [hhead] at hslashes
        refine @Uncommented.cut (c :: kept) comment ?_
        rwa [List.cons_append, List.infix_cons_iff, slashes_isPrefix_cons_iff, not_or,
          and_iff_right hslashes]

theorem uncommented_iff : Uncommented line kept ↔ cutComment line = kept := by
  constructor
  · intro h
    cases h with
    | whole h => exact cutComment_eq_self h
    | @cut _ comment h => exact cutComment_append_slashes h comment
  · rintro rfl
    exact uncommented_cutComment line

theorem cutComment_concat {c : Char} (hc : c ≠ '/') (line : List Char) :
    cutComment (line ++ [c]) = cutComment line ++ [c] ∨
      cutComment (line ++ [c]) = cutComment line := by
  induction line with
  | nil => exact .inl (by rw [List.nil_append, cutComment_cons, if_neg fun h => hc h.1]; rfl)
  | cons b line ih =>
    have hhead : (line ++ [c]).head? = some '/' ↔ line.head? = some '/' := by
      cases line <;> simp [hc]
    simp only [List.cons_append, cutComment_cons, hhead]
    split_ifs with hslashes
    · exact .inr rfl
    · rcases ih with ih | ih
      · exact .inl (by rw [ih, List.cons_append])
      · exact .inr (by rw [ih])

theorem words_cutComment_dropReturn (line : List Char) :
    Text.words (cutComment (Text.dropReturn line)) = Text.words (cutComment line) := by
  unfold Text.dropReturn
  split_ifs with h
  · obtain ⟨before, rfl⟩ := List.getLast?_eq_some_iff.1 h
    rw [List.dropLast_concat]
    rcases cutComment_concat (by decide : '\r' ≠ '/') before with hcut | hcut
    · rw [hcut, Text.words_concat (by decide)]
    · rw [hcut]
  · rfl

/-! ### Texts -/

theorem words_unlines_eq_flatMap {ls : List (List Char)} (h : ∀ l ∈ ls, '\n' ∉ l) :
    words (Text.unlines ls) = ls.flatMap fun l => Text.words (cutComment l) := by
  have hcut := Text.flatMap_lines_unlines (f := fun l => Text.words (cutComment l)) rfl
    (fun l _ => words_cutComment_dropReturn l) h
  rw [words, stripChars, Text.words_unlines, List.flatMap_map, hcut]

theorem words_eq_flatMap_pieces (text : List Char) :
    words text = ((Text.pieces text).1 :: (Text.pieces text).2).flatMap fun l =>
      Text.words (cutComment l) := by
  nth_rewrite 1 [← Text.unlines_pieces text]
  exact words_unlines_eq_flatMap (Text.newline_not_mem_pieces text)

/-- **A text has its words and no others.** -/
theorem hasWords_iff : HasWords text ws ↔ words text = ws := by
  have hmap : ∀ {lines kept : List (List Char)},
      List.Forall₂ Uncommented lines kept ↔ lines.map cutComment = kept := by
    intro lines kept
    have hcut : Uncommented = fun line kept => cutComment line = kept := by
      funext line kept
      exact propext uncommented_iff
    rw [hcut, ← List.forall₂_map_left_iff, List.forall₂_eq_eq_eq]
  constructor
  · rintro ⟨lines, kept, -, hnewline, rfl, hkept, hruns⟩
    rw [hmap] at hkept
    rw [words_unlines_eq_flatMap hnewline, ← Text.words_of_runs hruns, Text.words_unlines, ← hkept,
      List.flatMap_map]
  · rintro rfl
    refine ⟨_, _, List.cons_ne_nil _ _, Text.newline_not_mem_pieces text,
      (Text.unlines_pieces text).symm, hmap.2 rfl, ?_⟩
    rw [Text.runs_iff, Text.words_unlines, List.flatMap_map, words_eq_flatMap_pieces]

/-- **The words of two texts on lines of their own** are those of one and then those of the
other. -/
theorem words_append_newline (before after : List Char) :
    words (before ++ '\n' :: after) = words before ++ words after := by
  rw [words_eq_flatMap_pieces, Text.pieces_append_newline, words_eq_flatMap_pieces before,
    words_eq_flatMap_pieces after, ← List.flatMap_append]
  rfl

/-! ### Single words -/

theorem words_eq_singleton (hrun : Text.IsRun word) (hslashes : ¬ ['/', '/'] <:+: word) :
    words word = [word] := by
  have hnewline : '\n' ∉ word := fun hmem => absurd (hrun.2 _ hmem) (by decide)
  rw [← Text.unlines_singleton word, words_unlines_eq_flatMap (by simpa using hnewline),
    List.flatMap_singleton, cutComment_eq_self hslashes, Text.unlines_singleton,
    Text.words_eq_singleton hrun.1 hrun.2]

end Source

end SpendScript
