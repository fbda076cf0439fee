import Mathlib.Data.List.Infix
import Mathlib.Tactic.SplitIfs
import SpendScript.Text.Words

/-!
# Words and lines of a text

Any blank of a text divides its words, and any newline its lines.

* `Text.words_append_cons` : the words of a text are those before a blank and those behind it;
* `Text.words_unlines` : so the words of a text are those of its lines;
* `Text.length_le_of_mem_words` : a word is not longer than the text it stands in;
* `Text.flatten_words` : the words hold all characters but the blanks, in their order;
* `Text.flatMap_lines_unlines` : cutting lines that were put together gives the same lines, as far
  as neither carriage returns at their ends nor an empty line at the end matter;
* `Text.lines_flatMap_newline` : and it gives the same lines if each was ended by a newline.
-/

namespace SpendScript

namespace Text

variable {c : Char} {text word line : List Char} {ls : List (List Char)}

/-! ### Words -/

/-- The word that a text begins with, which may be empty, and the words behind it. -/
def cut (text : List Char) : List Char × List (List Char) :=
  text.foldr
    (fun c (word, rest) =>
      if isBlank c then ([], if word.isEmpty then rest else word :: rest) else (c :: word, rest))
    ([], [])

/-- The first word and those behind it, unless the first one is empty. -/
def close (cut : List Char × List (List Char)) : List (List Char) :=
  if cut.1.isEmpty then cut.2 else cut.1 :: cut.2

theorem words_eq (text : List Char) : words text = close (cut text) := rfl

theorem cut_cons (c : Char) (text : List Char) :
    cut (c :: text) =
      if isBlank c then ([], words text) else (c :: (cut text).1, (cut text).2) := rfl

theorem cut_cons_of_blank (h : isBlank c = true) (text : List Char) :
    cut (c :: text) = ([], words text) := by
  rw [cut_cons, if_pos h]

theorem cut_cons_of_not_blank (h : isBlank c = false) (text : List Char) :
    cut (c :: text) = (c :: (cut text).1, (cut text).2) := by
  rw [cut_cons, if_neg (by simp [h])]

@[simp] theorem words_nil : words [] = [] := rfl

theorem close_append (word : List Char) (rest later : List (List Char)) :
    close (word, rest ++ later) = close (word, rest) ++ later := by
  cases word <;> rfl

theorem cut_append_cons (h : isBlank c = true) (before text : List Char) :
    cut (before ++ c :: text) = ((cut before).1, (cut before).2 ++ words text) := by
  induction before with
  | nil => exact cut_cons_of_blank h text
  | cons b before ih =>
    rw [List.cons_append]
    cases hb : isBlank b with
    | true =>
      rw [cut_cons_of_blank hb, cut_cons_of_blank hb, words_eq, ih, close_append]
      rfl
    | false => rw [cut_cons_of_not_blank hb, cut_cons_of_not_blank hb, ih]

/-- **The words of a text are those before a blank and those behind it.** -/
theorem words_append_cons (h : isBlank c = true) (before text : List Char) :
    words (before ++ c :: text) = words before ++ words text := by
  rw [words_eq, cut_append_cons h, close_append]
  rfl

theorem cut_of_not_blank (h : ∀ c ∈ word, isBlank c = false) : cut word = (word, []) := by
  induction word with
  | nil => rfl
  | cons c word ih =>
    rw [List.forall_mem_cons] at h
    rw [cut_cons_of_not_blank h.1, ih h.2]

theorem words_eq_singleton (hne : word ≠ []) (h : ∀ c ∈ word, isBlank c = false) :
    words word = [word] := by
  rw [words_eq, cut_of_not_blank h, close, if_neg (by simpa using hne)]

theorem words_concat (h : isBlank c = true) (before : List Char) :
    words (before ++ [c]) = words before := by
  rw [words_append_cons h, words_nil, List.append_nil]

theorem length_cut_le (text : List Char) :
    (cut text).1.length ≤ text.length ∧ ∀ word ∈ (cut text).2, word.length ≤ text.length := by
  induction text with
  | nil => exact ⟨Nat.le_refl _, fun _ h => absurd h List.not_mem_nil⟩
  | cons c text ih =>
    obtain ⟨hfirst, hrest⟩ := ih
    rw [List.length_cons]
    cases hc : isBlank c with
    | true =>
      rw [cut_cons_of_blank hc, words_eq, close]
      refine ⟨Nat.zero_le _, fun word hword => Nat.le_succ_of_le ?_⟩
      split at hword
      · exact hrest word hword
      · rcases List.mem_cons.1 hword with rfl | hword
        · exact hfirst
        · exact hrest word hword
    | false =>
      rw [cut_cons_of_not_blank hc]
      exact ⟨Nat.succ_le_succ hfirst, fun word hword => Nat.le_succ_of_le (hrest word hword)⟩

/-- **A word is not longer than its text.** -/
theorem length_le_of_mem_words (h : word ∈ words text) : word.length ≤ text.length := by
  obtain ⟨hfirst, hrest⟩ := length_cut_le text
  rw [words_eq, close] at h
  split at h
  · exact hrest word h
  · rcases List.mem_cons.1 h with rfl | h
    · exact hfirst
    · exact hrest word h

theorem flatten_close (cut : List Char × List (List Char)) :
    (close cut).flatten = cut.1 ++ cut.2.flatten := by
  unfold close
  split_ifs with h
  · rw [List.isEmpty_iff.1 h, List.nil_append]
  · rfl

/-- **The words of a text hold all its characters but the blanks.** -/
theorem flatten_words (text : List Char) :
    (words text).flatten = text.filter fun c => !isBlank c := by
  induction text with
  | nil => rfl
  | cons c text ih =>
    rw [words_eq]
    cases hc : isBlank c with
    | true =>
      rw [cut_cons_of_blank hc, flatten_close, ih, List.nil_append,
        List.filter_cons_of_neg (by simp [hc])]
    | false =>
      rw [words_eq, flatten_close] at ih
      rw [cut_cons_of_not_blank hc, flatten_close, List.cons_append, ih,
        List.filter_cons_of_pos (by simp [hc])]

/-! ### Lines -/

theorem pieces_cons (c : Char) (text : List Char) :
    pieces (c :: text) =
      if c = '\n' then ([], (pieces text).1 :: (pieces text).2)
      else (c :: (pieces text).1, (pieces text).2) := rfl

theorem newline_not_mem_pieces (text : List Char) :
    ∀ piece ∈ (pieces text).1 :: (pieces text).2, '\n' ∉ piece := by
  induction text with
  | nil => simp [pieces]
  | cons c text ih =>
    rw [List.forall_mem_cons] at ih
    rw [pieces_cons]
    split_ifs with hc
    · simpa using ih
    · simpa [Ne.symm hc] using ih

theorem pieces_append_cons (h : '\n' ∉ line) (text : List Char) :
    pieces (line ++ '\n' :: text) = (line, (pieces text).1 :: (pieces text).2) := by
  induction line with
  | nil => rw [List.nil_append, pieces_cons, if_pos rfl]
  | cons c line ih =>
    rw [List.mem_cons, not_or] at h
    rw [List.cons_append, pieces_cons, if_neg (Ne.symm h.1), ih h.2]

theorem pieces_of_not_mem (h : '\n' ∉ line) : pieces line = (line, []) := by
  induction line with
  | nil => rfl
  | cons c line ih =>
    rw [List.mem_cons, not_or] at h
    rw [pieces_cons, if_neg (Ne.symm h.1), ih h.2]

theorem unlines_cons_cons (line next : List Char) (ls : List (List Char)) :
    unlines (line :: next :: ls) = line ++ '\n' :: unlines (next :: ls) := by
  simp [unlines, List.intercalate]

theorem unlines_singleton (line : List Char) : unlines [line] = line := by
  simp [unlines, List.intercalate]

theorem pieces_unlines (h : ∀ l ∈ line :: ls, '\n' ∉ l) :
    pieces (unlines (line :: ls)) = (line, ls) := by
  induction ls generalizing line with
  | nil =>
    rw [unlines_singleton]
    exact pieces_of_not_mem (h line List.mem_cons_self)
  | cons next ls ih =>
    rw [List.forall_mem_cons] at h
    rw [unlines_cons_cons, pieces_append_cons h.1, ih h.2]

theorem unlines_pieces (text : List Char) :
    unlines ((pieces text).1 :: (pieces text).2) = text := by
  induction text with
  | nil => rfl
  | cons c text ih =>
    rw [pieces_cons]
    split_ifs with hc
    · rw [unlines_cons_cons, ih, hc, List.nil_append]
    · cases hrest : (pieces text).2 with
      | nil =>
        rw [hrest, unlines_singleton] at ih
        rw [unlines_singleton, ih]
      | cons next rest =>
        rw [hrest, unlines_cons_cons] at ih
        rw [unlines_cons_cons, List.cons_append, ih]

theorem pieces_append_newline (before text : List Char) :
    pieces (before ++ '\n' :: text) =
      ((pieces before).1, (pieces before).2 ++ (pieces text).1 :: (pieces text).2) := by
  induction before with
  | nil => rw [List.nil_append, pieces_cons, if_pos rfl]; rfl
  | cons c before ih =>
    rw [List.cons_append, pieces_cons, pieces_cons, ih]
    split_ifs <;> rfl

/-- **The words of a text are those of its lines.** -/
theorem words_unlines (ls : List (List Char)) : words (unlines ls) = ls.flatMap words := by
  induction ls with
  | nil => rfl
  | cons line ls ih =>
    cases ls with
    | nil => rw [unlines_singleton, List.flatMap_singleton]
    | cons next ls => rw [unlines_cons_cons, words_append_cons (by decide), ih, ← List.flatMap_cons]

theorem dropReturn_isPrefix (line : List Char) : dropReturn line <+: line := by
  unfold dropReturn
  split
  · exact List.dropLast_prefix line
  · exact List.prefix_refl line

theorem words_dropReturn (line : List Char) : words (dropReturn line) = words line := by
  unfold dropReturn
  split_ifs with h
  · obtain ⟨before, rfl⟩ := List.getLast?_eq_some_iff.1 h
    rw [List.dropLast_concat, words_concat (by decide)]
  · rfl

theorem lines_eq (text : List Char) : lines text = ofPieces (pieces text).1 (pieces text).2 := rfl

theorem newline_not_mem_lines (text : List Char) : ∀ line ∈ lines text, '\n' ∉ line := by
  have hpieces := newline_not_mem_pieces text
  intro line hline
  rw [lines_eq, ofPieces, List.mem_append] at hline
  rcases hline with hline | hline
  · obtain ⟨piece, hpiece, rfl⟩ := List.mem_map.1 hline
    intro hmem
    exact hpieces piece (List.dropLast_subset _ hpiece) ((dropReturn_isPrefix piece).subset hmem)
  · split_ifs at hline with hempty
    · exact absurd hline List.not_mem_nil
    · rw [List.mem_singleton.1 hline, List.getLast?_eq_getLast_of_ne_nil (List.cons_ne_nil _ _)]
      exact hpieces _ (List.getLast_mem _)

/-- **Lines that are put together and cut again are the same lines**, for all that sees neither a
carriage return at the end of a line nor an empty line at the end of the text. -/
theorem flatMap_lines_unlines {α : Type} {f : List Char → List α} (hnil : f [] = [])
    (hreturn : ∀ l ∈ ls, f (dropReturn l) = f l) (h : ∀ l ∈ ls, '\n' ∉ l) :
    (lines (unlines ls)).flatMap f = ls.flatMap f := by
  cases ls with
  | nil => rfl
  | cons line ls =>
    have hcut : lines (unlines (line :: ls)) = ofPieces line ls := by
      rw [lines_eq, pieces_unlines h]
    have hlast : (if ((line :: ls).getLast (List.cons_ne_nil _ _)).isEmpty then []
        else [(line :: ls).getLast (List.cons_ne_nil _ _)]).flatMap f =
        f ((line :: ls).getLast (List.cons_ne_nil _ _)) := by
      split_ifs with hempty
      · rw [List.isEmpty_iff.1 hempty, hnil]
        rfl
      · exact List.flatMap_singleton f _
    rw [hcut, ofPieces, List.getLast?_eq_getLast_of_ne_nil (List.cons_ne_nil _ _)]
    simp only [Option.getD_some, List.flatMap_append, hlast, List.flatMap_map]
    rw [List.flatMap_congr (fun l hl => hreturn l (List.dropLast_subset _ hl))]
    rw [← List.flatMap_singleton f, ← List.flatMap_append, List.dropLast_append_getLast]

theorem pieces_flatMap_newline (h : ∀ l ∈ ls, '\n' ∉ l) :
    (pieces (ls.flatMap (· ++ ['\n']))).1 :: (pieces (ls.flatMap (· ++ ['\n']))).2 =
      ls ++ [[]] := by
  induction ls with
  | nil => rfl
  | cons line ls ih =>
    rw [List.forall_mem_cons] at h
    rw [List.flatMap_cons, List.append_assoc, List.singleton_append, pieces_append_cons h.1, ih h.2]
    rfl

/-- **Lines that are each ended by a newline are the lines of the whole text.** -/
theorem lines_flatMap_newline (h : ∀ l ∈ ls, '\n' ∉ l) (hreturn : ∀ l ∈ ls, '\r' ∉ l) :
    lines (ls.flatMap (· ++ ['\n'])) = ls := by
  have hkeep : ∀ l ∈ ls, dropReturn l = l := by
    intro l hl
    exact if_neg fun hlast => hreturn l hl (List.mem_of_getLast? hlast)
  rw [lines_eq, ofPieces, pieces_flatMap_newline h]
  simp only [List.getLast?_concat, Option.getD_some, List.dropLast_concat, List.isEmpty_nil,
    ↓reduceIte, List.append_nil]
  rw [List.map_congr_left hkeep, List.map_id']

end Text

end SpendScript
