import Mathlib.Algebra.Order.BigOperators.Group.List
import Mathlib.Algebra.Order.Ring.Nat
import SpendScript.Proofs.Source.Words

/-!
# Taking comments out and putting them in

A text without its comments holds no two slashes in a row, not even over the end of a line
(`Source.slashes_not_infix_stripChars`), and it is no longer than the text
(`Source.length_stripChars_le`), although lines are put together again that were ended in another
way.  A comment at the end of a line makes no difference to the words of a text
(`Source.words_comment`): a carriage return before it stays and is a blank, and one behind it goes
with it.
-/

namespace SpendScript

namespace Text

variable {line : List Char} {ls : List (List Char)}

theorem length_unlines (ls : List (List Char)) :
    (unlines ls).length = (ls.map fun l => l.length + 1).sum - 1 := by
  induction ls with
  | nil => rfl
  | cons line ls ih =>
    cases ls with
    | nil => simp [unlines_singleton]
    | cons next ls =>
      rw [unlines_cons_cons, List.length_append, List.length_cons, ih]
      simp only [List.map_cons, List.sum_cons]
      omega

theorem length_eq_sum_pieces (text : List Char) :
    text.length + 1 = (((pieces text).1 :: (pieces text).2).map fun l => l.length + 1).sum := by
  have hlength := length_unlines ((pieces text).1 :: (pieces text).2)
  rw [unlines_pieces, List.map_cons, List.sum_cons] at hlength
  rw [List.map_cons, List.sum_cons]
  omega

/-- **Lines are not longer than their text.** -/
theorem sum_lines_le (text : List Char) :
    ((lines text).map fun l => l.length + 1).sum ≤ text.length + 1 := by
  let all := (pieces text).1 :: (pieces text).2
  let last := all.getLast?.getD []
  have hall : all.dropLast ++ [last] = all := by
    have hlast : last = all.getLast (List.cons_ne_nil _ _) := by
      simp only [last, List.getLast?_eq_some_getLast (List.cons_ne_nil _ _), Option.getD_some, all]
    rw [hlast, List.dropLast_append_getLast]
  have hreturn : ((all.dropLast.map dropReturn).map fun l => l.length + 1).sum ≤
      (all.dropLast.map fun l => l.length + 1).sum := by
    rw [List.map_map]
    exact List.sum_le_sum fun l _ => Nat.succ_le_succ (dropReturn_isPrefix l).length_le
  have hlast : ((if last.isEmpty then [] else [last]).map fun l => l.length + 1).sum ≤
      last.length + 1 := by
    split
    · exact Nat.zero_le _
    · simp
  have hsum : (all.map fun l => l.length + 1).sum =
      (all.dropLast.map fun l => l.length + 1).sum + (last.length + 1) := by
    conv_lhs => rw [← hall]
    simp
  have htext : text.length + 1 = (all.map fun l => l.length + 1).sum := length_eq_sum_pieces text
  have hlines : lines text =
      all.dropLast.map dropReturn ++ (if last.isEmpty then [] else [last]) := rfl
  rw [hlines, List.map_append, List.sum_append]
  omega

theorem exists_lastLine (text : List Char) :
    ∃ line, '\n' ∉ line ∧ (text = line ∨ ∃ above, text = above ++ '\n' :: line) := by
  by_cases h : '\n' ∈ text
  · obtain ⟨line, above, htext, hline⟩ := List.eq_append_cons_of_mem (List.mem_reverse.2 h)
    refine ⟨line.reverse, by simpa using hline, .inr ⟨above.reverse, ?_⟩⟩
    rw [← List.reverse_reverse text, htext]
    simp
  · exact ⟨text, h, .inl rfl⟩

end Text

namespace Source

variable {line text before after comment : List Char}

/-! ### What is left of a text -/

theorem slashes_infix_append_newline (h : ['/', '/'] <:+: before ++ '\n' :: after) :
    ['/', '/'] <:+: before ∨ ['/', '/'] <:+: after := by
  induction before with
  | nil =>
    rw [List.nil_append, List.infix_cons_iff, slashes_isPrefix_cons_iff] at h
    exact .inr (h.resolve_left fun hfirst => absurd hfirst.1 (by decide))
  | cons c before ih =>
    rw [List.cons_append, List.infix_cons_iff, slashes_isPrefix_cons_iff] at h
    rw [List.infix_cons_iff, slashes_isPrefix_cons_iff]
    rcases h with ⟨hc, hhead⟩ | h
    · cases before with
      | nil => exact absurd hhead (by simp)
      | cons b before => exact .inl (.inl ⟨hc, hhead⟩)
    · rcases ih h with hbefore | hafter
      · exact .inl (.inr hbefore)
      · exact .inr hafter

theorem slashes_not_infix_unlines {ls : List (List Char)} (h : ∀ l ∈ ls, ¬ ['/', '/'] <:+: l) :
    ¬ ['/', '/'] <:+: Text.unlines ls := by
  induction ls with
  | nil => simp [Text.unlines, List.intercalate]
  | cons line ls ih =>
    rw [List.forall_mem_cons] at h
    cases ls with
    | nil =>
      rw [Text.unlines_singleton]
      exact h.1
    | cons next ls =>
      rw [Text.unlines_cons_cons]
      intro hslashes
      rcases slashes_infix_append_newline hslashes with hline | hrest
      · exact h.1 hline
      · exact ih h.2 hrest

/-- **A text without its comments holds no two slashes in a row.** -/
theorem slashes_not_infix_stripChars (text : List Char) : ¬ ['/', '/'] <:+: stripChars text := by
  refine slashes_not_infix_unlines fun l hl => ?_
  obtain ⟨line, -, rfl⟩ := List.mem_map.1 hl
  exact slashes_not_infix_cutComment line

/-- **A text without its comments is not longer.** -/
theorem length_stripChars_le (text : List Char) : (stripChars text).length ≤ text.length := by
  have hcut : (((Text.lines text).map cutComment).map fun l => l.length + 1).sum ≤
      ((Text.lines text).map fun l => l.length + 1).sum := by
    rw [List.map_map]
    exact List.sum_le_sum fun l _ => Nat.succ_le_succ (cutComment_isPrefix l).length_le
  have hlines := Text.sum_lines_le text
  rw [stripChars, Text.length_unlines]
  omega

/-! ### Comments at the ends of lines -/

/-- A line ends before this part of a text. -/
inductive EndsLine : (after : List Char) → Prop
  /-- The text ends here. -/
  | textEnd : EndsLine []
  /-- A newline comes next. -/
  | newline (below : List Char) : EndsLine ('\n' :: below)
  /-- A carriage return that belongs to a newline comes next. -/
  | returned (below : List Char) : EndsLine ('\r' :: '\n' :: below)

theorem words_of_not_mem (h : '\n' ∉ line) : words line = Text.words (cutComment line) := by
  rw [words_eq_flatMap_pieces, Text.pieces_of_not_mem h, List.flatMap_singleton]

/-- What makes no difference at the end of the last line makes none at the end of the text. -/
theorem words_append_of_lines
    (h : ∀ line, '\n' ∉ line → line <:+ text → words (line ++ after) = words line) :
    words (text ++ after) = words text := by
  obtain ⟨line, hline, rfl | ⟨above, rfl⟩⟩ := Text.exists_lastLine text
  · exact h text hline (List.suffix_refl text)
  · have hsuffix : line <:+ above ++ '\n' :: line :=
      (List.suffix_cons '\n' line).trans (List.suffix_append above _)
    rw [List.append_assoc, List.cons_append, words_append_newline, words_append_newline,
      h line hline hsuffix]

theorem words_append_return (text : List Char) : words (text ++ ['\r']) = words text := by
  refine words_append_of_lines fun line hline _ => ?_
  have hdrop : Text.dropReturn (line ++ ['\r']) = line := by
    rw [Text.dropReturn, if_pos List.getLast?_concat, List.dropLast_concat]
  have hreturn : '\n' ∉ line ++ ['\r'] := by simpa using hline
  rw [words_of_not_mem hreturn, words_of_not_mem hline, ← words_cutComment_dropReturn, hdrop]

theorem cutComment_append_comment (hlast : line.getLast? ≠ some '/') (comment : List Char) :
    cutComment (line ++ '/' :: '/' :: comment) = cutComment line := by
  have hline := uncommented_cutComment line
  generalize cutComment line = kept at hline
  cases hline with
  | whole h =>
    refine cutComment_append_slashes (fun hslashes => ?_) comment
    -- two slashes could only be the last character of the line and the first of the comment
    rcases List.infix_concat_iff.1 hslashes with hend | hwithin
    · obtain hnil | ⟨slash, hslash, hend⟩ := List.suffix_concat_iff.1 hend
      · exact absurd hnil (by simp)
      · obtain rfl : ['/'] = slash := (List.append_inj' hslash rfl).1
        obtain ⟨front, rfl⟩ := hend
        exact hlast List.getLast?_concat
    · exact h hwithin
  | @cut kept rest h =>
    rw [List.append_assoc]
    exact cutComment_append_slashes h _

theorem words_append_comment (hlast : text.getLast? ≠ some '/') (hcomment : '\n' ∉ comment) :
    words (text ++ '/' :: '/' :: comment) = words text := by
  refine words_append_of_lines fun line hline hsuffix => ?_
  have hlast : line.getLast? ≠ some '/' := by
    obtain ⟨above, rfl⟩ := hsuffix
    intro hslash
    exact hlast (by rw [List.getLast?_append, hslash, Option.some_or])
  have hwhole : '\n' ∉ line ++ '/' :: '/' :: comment := by simp [hline, hcomment]
  rw [words_of_not_mem hwhole, words_of_not_mem hline, cutComment_append_comment hlast]

/-- **A comment at the end of a line** makes no difference to the words of a text. -/
theorem words_comment (hlast : before.getLast? ≠ some '/') (hcomment : '\n' ∉ comment)
    (hafter : EndsLine after) :
    words (before ++ '/' :: '/' :: comment ++ after) = words (before ++ after) := by
  cases hafter with
  | textEnd => rw [List.append_nil, List.append_nil, words_append_comment hlast hcomment]
  | newline below =>
    rw [words_append_newline, words_append_newline, words_append_comment hlast hcomment]
  | returned below =>
    have hreturn : ∀ text : List Char, words (text ++ '\r' :: '\n' :: below) =
        words (text ++ ['\r']) ++ words below := by
      intro text
      rw [← words_append_newline, List.append_assoc, List.singleton_append]
    rw [hreturn, hreturn, words_append_return, words_append_return,
      words_append_comment hlast hcomment]

end Source

end SpendScript
