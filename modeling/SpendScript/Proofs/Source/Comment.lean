import SpendScript.Proofs.Text.Words
import SpendScript.Source.Assembly

/-!
# Source text without comments

Comments can be taken out of a text once more without effect: what is left of a line holds no two
slashes in a row (`Source.slashes_not_infix_cutComment`).  Only blanks at the ends of lines may go
the second time, so the text still has the same words (`Source.words_stripChars`) and the same code
(`Source.assemble_stripComments`).
-/

namespace SpendScript

namespace Source

variable {line : List Char}

/-! ### One line -/

/-- What is left of a line, and whether the line begins with a slash. -/
def keep (line : List Char) : List Char × Bool :=
  line.foldr
    (fun c (kept, slashNext) =>
      if c = '/' ∧ slashNext then ([], true) else (c :: kept, c = '/'))
    ([], false)

theorem cutComment_eq (line : List Char) : cutComment line = (keep line).1 := rfl

theorem keep_cons (c : Char) (line : List Char) :
    keep (c :: line) =
      if c = '/' ∧ (keep line).2 = true then ([], true)
      else (c :: (keep line).1, decide (c = '/')) := rfl

theorem snd_keep_iff (line : List Char) : (keep line).2 = true ↔ line.head? = some '/' := by
  cases line with
  | nil => simp [keep]
  | cons c line =>
    rw [keep_cons]
    split_ifs with h
    · simp [h.1]
    · simp

@[simp] theorem cutComment_nil : cutComment [] = [] := rfl

theorem cutComment_cons (c : Char) (line : List Char) :
    cutComment (c :: line) =
      if c = '/' ∧ line.head? = some '/' then [] else c :: cutComment line := by
  simp only [cutComment_eq, keep_cons, snd_keep_iff]
  split_ifs <;> rfl

theorem cutComment_isPrefix (line : List Char) : cutComment line <+: line := by
  induction line with
  | nil => exact List.prefix_refl []
  | cons c line ih =>
    rw [cutComment_cons]
    split_ifs with h
    · exact List.nil_prefix
    · exact List.cons_prefix_cons.2 ⟨rfl, ih⟩

/-- **What is left of a line holds no two slashes in a row.** -/
theorem slashes_not_infix_cutComment (line : List Char) : ¬ ['/', '/'] <:+: cutComment line := by
  induction line with
  | nil => simp
  | cons c line ih =>
    rw [cutComment_cons]
    split_ifs with h
    · simp
    · rw [List.infix_cons_iff, not_or]
      refine ⟨?_, ih⟩
      -- what follows the first slash would be a slash of the line already
      intro hslashes
      rw [List.cons_prefix_cons] at hslashes
      obtain ⟨rfl, hsecond⟩ := hslashes
      obtain ⟨tail, htail⟩ := hsecond.trans (cutComment_isPrefix line)
      exact h ⟨rfl, by rw [← htail]; rfl⟩

theorem cutComment_eq_self (h : ¬ ['/', '/'] <:+: line) : cutComment line = line := by
  induction line with
  | nil => rfl
  | cons c line ih =>
    rw [List.infix_cons_iff, not_or] at h
    rw [cutComment_cons, ih h.2, if_neg]
    rintro ⟨rfl, hsecond⟩
    obtain ⟨tail, rfl⟩ := List.head?_eq_some_iff.1 hsecond
    exact h.1 (List.prefix_append ['/', '/'] tail)

/-! ### Whole texts -/

/-- **The words of a text without comments are those of its lines.** -/
theorem words_unlines {ls : List (List Char)} (hslashes : ∀ l ∈ ls, ¬ ['/', '/'] <:+: l)
    (hnewline : ∀ l ∈ ls, '\n' ∉ l) : words (Text.unlines ls) = ls.flatMap Text.words := by
  rw [words, stripChars, Text.words_unlines, List.flatMap_map,
    Text.flatMap_lines_unlines rfl ?_ hnewline]
  · refine List.flatMap_congr fun l hl => ?_
    rw [cutComment_eq_self (hslashes l hl)]
  · intro l hl
    have hreturn : ¬ ['/', '/'] <:+: Text.dropReturn l := fun hwithin =>
      hslashes l hl (hwithin.trans (Text.dropReturn_isPrefix l).isInfix)
    rw [cutComment_eq_self hreturn, cutComment_eq_self (hslashes l hl), Text.words_dropReturn]

/-- **Comments can be taken out of a text again without changing its words.** -/
theorem words_stripChars (text : List Char) : words (stripChars text) = words text := by
  have hslashes : ∀ l ∈ (Text.lines text).map cutComment, ¬ ['/', '/'] <:+: l := by
    rintro l hl
    obtain ⟨line, -, rfl⟩ := List.mem_map.1 hl
    exact slashes_not_infix_cutComment line
  have hnewline : ∀ l ∈ (Text.lines text).map cutComment, '\n' ∉ l := by
    rintro l hl hmem
    obtain ⟨line, hline, rfl⟩ := List.mem_map.1 hl
    exact Text.newline_not_mem_lines text line hline ((cutComment_isPrefix line).subset hmem)
  have hcut : words (stripChars text) = ((Text.lines text).map cutComment).flatMap Text.words :=
    words_unlines hslashes hnewline
  rw [hcut, ← Text.words_unlines]
  rfl

/-- **Comments can be taken out of a text without changing its code.** -/
theorem assemble_stripComments (text : String) : assemble (stripComments text) = assemble text := by
  rw [assemble, assemble, assembleChars, assembleChars, stripComments, String.toList_ofList,
    words_stripChars]

end Source

end SpendScript
