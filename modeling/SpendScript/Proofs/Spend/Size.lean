import SpendScript.Proofs.Source.Size
import SpendScript.Proofs.Spend.Boundary

/-!
# The size of a compiled spend

Compiling never makes a text longer, whatever it says (`Spend.length_compile_le`).  Since both
texts of a spend have a largest length, so has its code.
-/

namespace SpendScript

namespace Spend

variable {spend : Spend} {code : Bytes}

theorem length_le_of_compile (h : spend.compile = .ok code) :
    code.length ≤ 2 * Source.maxLength := by
  obtain ⟨hsig, hkey, unlocking, locking, hunlocking, hlocking, rfl⟩ := compile_eq_ok_iff.1 h
  have hfirst := (Source.length_assemble_le hunlocking).trans (Source.countVisible_le_length _)
  have hsecond := (Source.length_assemble_le hlocking).trans (Source.countVisible_le_length _)
  rw [List.length_append]
  omega

/-- **Compiling makes nothing longer.**  The code of a text is that of its words, each of which
takes up at least one byte and not more bytes than it has characters; the code of the text has no
more bytes than the text without its comments has characters that are not blank; and the code of a
spend has 700,000 bytes at most. -/
theorem length_compile_le :
    (∀ (text : String) (code : Bytes), Source.assemble text = .ok code →
      (∃ tokens, List.Forall₂ (fun word token => Token.read word = .ok token ∧
          1 ≤ token.bytes.length ∧ token.bytes.length ≤ word.length)
          (Source.words text.toList) tokens ∧ code = tokens.flatMap Token.bytes) ∧
        code.length ≤ Source.countVisible text) ∧
      ∀ (spend : Spend) (code : Bytes), spend.compile = .ok code → code.length ≤ 700000 := by
  refine ⟨fun text code h => ⟨?_, Source.length_assemble_le h⟩, fun _ _ => length_le_of_compile⟩
  obtain ⟨tokens, hreads, hcode⟩ := Source.assemble_eq_ok_iff.1 h
  refine ⟨tokens, hreads.imp fun word token hread => ?_, hcode⟩
  exact ⟨hread, Token.length_bytes_pos token, Token.length_bytes_le hread⟩

/-- Numbers of two digits and of three can take up all the space of their words. -/
theorem length_compile_le_numbers :
    Source.assemble "17 128 // ten bits" = .ok [0x01, 0x11, 0x02, 0x80, 0x00] ∧
      Source.countVisible "17 128 // ten bits" = 5 ∧
      (∃ tokens, List.Forall₂ (fun word token => Token.read word = .ok token ∧
          1 ≤ token.bytes.length ∧ token.bytes.length ≤ word.length)
          (Source.words "17 128 // ten bits".toList) tokens ∧
          [0x01, 0x11, 0x02, 0x80, 0x00] = tokens.flatMap Token.bytes) ∧
      Spend.compile ⟨"17", "128 OP_ADD"⟩ = .ok [0x01, 0x11, 0x02, 0x80, 0x00, 0x93] ∧
      ([0x01, 0x11, 0x02, 0x80, 0x00, 0x93] : Bytes).length ≤ 700000 := by
  have htext : Source.assemble "17 128 // ten bits" = .ok [0x01, 0x11, 0x02, 0x80, 0x00] := by
    decide +kernel
  have hspend : Spend.compile ⟨"17", "128 OP_ADD"⟩ =
      .ok [0x01, 0x11, 0x02, 0x80, 0x00, 0x93] := by decide +kernel
  obtain ⟨htexts, hspends⟩ := length_compile_le
  exact ⟨htext, by decide +kernel, (htexts _ _ htext).1, hspend, hspends _ _ hspend⟩

end Spend

end SpendScript
