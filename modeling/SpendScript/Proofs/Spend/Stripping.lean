import SpendScript.Proofs.Source.Stripping
import SpendScript.Proofs.Spend.Joined

/-!
# Comments do not count

Comments are taken out of the texts of a spend before their lengths are checked, and once more when
they are compiled.  The second time may still change a text, as a carriage return can lose the
comment behind it and come to stand before a newline, but neither its words nor what comes of it
(`Source.Stripped`, `Spend.compile_of_validate`); and whoever writes a text may end its lines with
comments.

* `Spend.stripping` : so much for all texts and spends.
-/

namespace SpendScript

namespace Source

/-- A text and what is left of it without its comments. -/
structure Stripped (text : String) : Prop where
  /-- No two slashes in a row are left. -/
  slashes_not_infix : ¬ ['/', '/'] <:+: (stripComments text).toList
  /-- There are no more characters than before. -/
  length_le : (stripComments text).length ≤ text.length
  /-- The code is the same, or the word that is no token. -/
  assemble_eq : assemble (stripComments text) = assemble text

theorem stripped (text : String) : Stripped text where
  slashes_not_infix := by
    rw [stripComments, String.toList_ofList]
    exact slashes_not_infix_stripChars text.toList
  length_le := by
    rw [← String.length_toList, ← String.length_toList, stripComments, String.toList_ofList]
    exact length_stripChars_le text.toList
  assemble_eq := assemble_stripComments text

/-- **A comment at the end of a line** makes no difference to the code. -/
theorem assemble_comment {before comment after : String}
    (hlast : before.toList.getLast? ≠ some '/') (hcomment : '\n' ∉ comment.toList)
    (hafter : EndsLine after.toList) :
    assemble (before ++ "//" ++ comment ++ after) = assemble (before ++ after) := by
  have hslashes : "//".toList = ['/', '/'] := rfl
  have hwords := words_comment hlast hcomment hafter
  simp only [assemble, assembleChars, String.toList_append, hslashes, List.append_assoc,
    List.cons_append, List.nil_append] at hwords ⊢
  rw [hwords]

end Source

namespace Spend

variable {spend checked : Spend}

theorem validate_eq_ok_iff : spend.validate = .ok checked ↔ spend.ShortTexts ∧ checked =
    ⟨Source.stripComments spend.scriptSig, Source.stripComments spend.scriptPubKey⟩ := by
  constructor
  · intro h
    rw [validate_eq] at h
    simp only at h
    split_ifs at h with hsig hkey
    exact ⟨⟨Nat.not_lt.1 hsig, Nat.not_lt.1 hkey⟩, (Except.ok.inj h).symm⟩
  · rintro ⟨hshort, rfl⟩
    exact validate_of_short hshort

theorem ShortTexts.stripped (h : spend.ShortTexts) : ShortTexts
    ⟨Source.stripComments spend.scriptSig, Source.stripComments spend.scriptPubKey⟩ where
  length_scriptSig_le := (Source.stripped _).length_le.trans h.length_scriptSig_le
  length_scriptPubKey_le := (Source.stripped _).length_le.trans h.length_scriptPubKey_le

/-- **A spend that was checked compiles as it did before.** -/
theorem compile_of_validate (h : spend.validate = .ok checked) :
    checked.compile = spend.compile := by
  obtain ⟨hshort, rfl⟩ := validate_eq_ok_iff.1 h
  rw [compile_of_short hshort, compile_of_short hshort.stripped, Source.assemble_stripComments,
    Source.assemble_stripComments]

/-- **Comments do not count.**  Without its comments a text is no longer, has no two slashes in a
row and compiles to the same, fault included.  So it does with a comment at the end of any line that
does not end in a slash.  A spend that was checked can be checked again, and compiles to the same as
before. -/
theorem stripping :
    (∀ text : String, Source.Stripped text) ∧
    (∀ before comment after : String, before.toList.getLast? ≠ some '/' →
      '\n' ∉ comment.toList → Source.EndsLine after.toList →
        Source.assemble (before ++ "//" ++ comment ++ after) = Source.assemble (before ++ after)) ∧
    ∀ spend checked : Spend, spend.validate = .ok checked →
      (∃ again, checked.validate = .ok again) ∧ checked.compile = spend.compile ∧
        ∀ c : Compiler, checked.compileWith c = spend.compileWith c := by
  refine ⟨Source.stripped, fun _ _ _ => Source.assemble_comment, fun spend checked h => ?_⟩
  have hcompile := compile_of_validate h
  refine ⟨?_, hcompile, fun c => ?_⟩
  · obtain ⟨hshort, rfl⟩ := validate_eq_ok_iff.1 h
    exact ⟨_, validate_of_short hshort.stripped⟩
  · rw [compileWith_eq, compileWith_eq, hcompile]

/-- A comment behind a carriage return, and slashes in a comment; without the comments the carriage
return comes to stand before the newline. -/
theorem stripping_return : ∃ checked again : Spend,
    Source.assemble ("OP_1\r" ++ "//" ++ "/ two // OP_2" ++ "\nOP_3") =
      Source.assemble ("OP_1\r" ++ "\nOP_3") ∧
    Spend.validate ⟨"OP_1\r//x\nOP_3", ""⟩ = .ok checked ∧
    checked = ⟨"OP_1\r\nOP_3", ""⟩ ∧ checked.validate = .ok again ∧
    again = ⟨"OP_1\nOP_3", ""⟩ ∧ checked.compile = Spend.compile ⟨"OP_1\r//x\nOP_3", ""⟩ := by
  obtain ⟨-, hcomment, hspend⟩ := stripping
  have hvalidate : Spend.validate ⟨"OP_1\r//x\nOP_3", ""⟩ = .ok ⟨"OP_1\r\nOP_3", ""⟩ := by
    decide +kernel
  obtain ⟨⟨again, hagain⟩, hcompile, -⟩ := hspend _ _ hvalidate
  have hsecond : Spend.validate ⟨"OP_1\r\nOP_3", ""⟩ = .ok ⟨"OP_1\nOP_3", ""⟩ := by
    decide +kernel
  refine ⟨_, again, hcomment "OP_1\r" "/ two // OP_2" "\nOP_3" (by decide) (by decide)
    (.newline _), hvalidate, rfl, hagain, ?_, hcompile⟩
  exact Except.ok.inj (hagain.symm.trans hsecond)

end Spend

end SpendScript
