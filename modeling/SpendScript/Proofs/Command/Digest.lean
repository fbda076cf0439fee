import Mathlib.Data.Bool.AllAny
import SpendScript.Command.Input
import SpendScript.Proofs.Bytes.HexBlame
import SpendScript.Proofs.Crypto.Signing

/-!
# Which texts are digests

A digest is given as sixty-four hexadecimal digits of either case, behind any number of times `0x`.
All other texts are refused, with an error that is about what stands behind the last `0x` in front
(`Command.IsMarked`): that it is not hexadecimal, or else how many bytes it spells.

* `Command.readDigest_eq_ok_iff` : a text is read as the digest that it spells;
* `Command.readDigest_eq_error_iff` : a text is refused with the error that blames it;
* `Command.readDigest_grammar` : so much for all texts, and the hexadecimal forms of all digests.
-/

namespace SpendScript

namespace Hex

theorem ne_mark_of_isEitherDigit {digits : List Char} (h : ∀ c ∈ digits, IsEitherDigit c) :
    ¬ ['0', 'x'] <+: digits := by
  intro hmark
  exact absurd (h 'x' (hmark.subset (by simp))) (by decide)

theorem spells_map_toUpper (bytes : Bytes) : Spells ((digits bytes).map Char.toUpper) bytes := by
  have hdigit : ∀ n < 16, (digit n).toUpper.toLower = digit n := by decide
  rw [Spells, digits_eq_map_halves, List.map_map, List.map_map]
  refine List.map_congr_left fun n hn => ?_
  exact hdigit n (lt_of_mem_halves hn)

end Hex

namespace Command

variable {text : String} {digits rest : List Char} {digest : Digest} {error : Error}

/-- The text is this rest behind any number of times `0x`, and no further one begins the rest. -/
def IsMarked (text : String) (rest : List Char) : Prop :=
  (∃ marks, text.toList = (List.replicate marks ['0', 'x']).flatten ++ rest) ∧
    ¬ ['0', 'x'] <+: rest

/-- What is said about a rest that is no digest. -/
inductive BlamesDigest (rest : List Char) : Error → Prop
  /-- It spells no bytes. -/
  | notHex {error : Hex.Error} (h : Hex.Blames rest error) : BlamesDigest rest (.hex error)
  /-- It spells some bytes, but not as many as a digest has. -/
  | wrongLength {bytes : Bytes} (h : Hex.Spells rest bytes) (hlength : bytes.length ≠ 32) :
      BlamesDigest rest (.digestLength bytes.length)

/-! ### Marks -/

theorem dropMarks_of_not_isPrefix (h : ¬ ['0', 'x'] <+: rest) : dropMarks rest = rest := by
  unfold dropMarks
  split
  · exact absurd (List.prefix_append ['0', 'x'] _) h
  · rfl

theorem dropMarks_append (marks : Nat) (rest : List Char) :
    dropMarks ((List.replicate marks ['0', 'x']).flatten ++ rest) = dropMarks rest := by
  induction marks with
  | zero => rfl
  | succ marks ih =>
    rw [List.replicate_succ, List.flatten_cons, List.append_assoc]
    exact ih

theorem isMarked_dropMarks (text : String) : IsMarked text (dropMarks text.toList) := by
  rw [IsMarked]
  generalize text.toList = chars
  fun_induction dropMarks chars with
  | case1 rest ih =>
    obtain ⟨⟨marks, hmarks⟩, hend⟩ := ih
    -- one more mark is dropped than in the rest
    refine ⟨⟨marks + 1, ?_⟩, hend⟩
    rw [List.replicate_succ, List.flatten_cons, List.append_assoc, ← hmarks]
    rfl
  | case2 rest hrest =>
    refine ⟨⟨0, rfl⟩, ?_⟩
    rintro ⟨behind, rfl⟩
    exact hrest behind rfl

/-- **What is read is the rest of the text.** -/
theorem isMarked_iff : IsMarked text rest ↔ dropMarks text.toList = rest := by
  constructor
  · rintro ⟨⟨marks, hmarks⟩, hend⟩
    rw [hmarks, dropMarks_append, dropMarks_of_not_isPrefix hend]
  · rintro rfl
    exact isMarked_dropMarks text

/-! ### Digests -/

theorem readDigest_of_isMarked (h : IsMarked text rest) :
    readDigest (some text) = match Hex.decode rest with
      | .error e => .error (.hex e)
      | .ok bytes => match Digest.ofBytes? bytes with
        | some digest => .ok digest
        | none => .error (.digestLength bytes.length) := by
  obtain rfl := isMarked_iff.1 h
  rfl

/-- **A text is read as the digest that its rest spells.** -/
theorem readDigest_eq_ok_iff (h : IsMarked text rest) :
    readDigest (some text) = .ok digest ↔ Hex.Spells rest digest.bytes := by
  rw [readDigest_of_isMarked h, ← Hex.decode_eq_ok_iff]
  cases Hex.decode rest with
  | error e => simp
  | ok bytes =>
    rw [Except.ok.injEq, @eq_comm _ bytes, ← Digest.ofBytes?_eq_some_iff]
    cases hbytes : Digest.ofBytes? bytes <;> simp [hbytes]

/-- **A text is refused with the error that blames its rest.** -/
theorem readDigest_eq_error_iff (h : IsMarked text rest) :
    readDigest (some text) = .error error ↔ BlamesDigest rest error := by
  rw [readDigest_of_isMarked h]
  constructor
  · intro herror
    cases hrest : Hex.decode rest with
    | error e =>
      rw [hrest] at herror
      rw [← Except.error.inj herror]
      exact .notHex (Hex.decode_eq_error_iff.1 hrest)
    | ok bytes =>
      rw [hrest] at herror
      simp only at herror
      split at herror
      · exact absurd herror (by simp)
      · rename_i hnone
        rw [← Except.error.inj herror]
        refine .wrongLength (Hex.decode_eq_ok_iff.1 hrest) fun hlength => ?_
        have hsome := Digest.ofBytes?_bytes ⟨bytes, hlength⟩
        exact absurd (hsome.symm.trans hnone) (by simp)
  · intro hblames
    cases hblames with
    | notHex hblames => rw [Hex.decode_eq_error_iff.2 hblames]
    | wrongLength hspells hlength =>
      rw [Hex.decode_eq_ok_iff.2 hspells]
      simp only [Digest.ofBytes?_eq_none hlength]

/-- The digits of a digest are sixty-four, and all texts of so many digits are the digits of one. -/
theorem exists_digest_spells_iff : (∃ digest : Digest, Hex.Spells rest digest.bytes) ↔
    rest.length = 64 ∧ ∀ c ∈ rest, Hex.IsEitherDigit c := by
  constructor
  · rintro ⟨digest, hspells⟩
    have hlength := Hex.length_of_decode (Hex.decode_eq_ok_iff.2 hspells)
    rw [digest.length_bytes] at hlength
    exact ⟨hlength, (Hex.exists_spells_iff.1 ⟨_, hspells⟩).1⟩
  · rintro ⟨hlength, hdigits⟩
    obtain ⟨bytes, hspells⟩ := Hex.exists_spells_iff.2 ⟨hdigits, by omega⟩
    have hbytes := Hex.length_of_decode (Hex.decode_eq_ok_iff.2 hspells)
    exact ⟨⟨bytes, by omega⟩, hspells⟩

/-- The same, for a text with any number of marks in front. -/
theorem readDigest_eq_ok_iff_exists {text : String} : readDigest (some text) = .ok digest ↔
    ∃ marks digits, text.toList = (List.replicate marks ['0', 'x']).flatten ++ digits ∧
      digits.length = 64 ∧ Hex.Spells digits digest.bytes := by
  constructor
  · intro h
    have hmarked := isMarked_dropMarks text
    have hspells := (readDigest_eq_ok_iff hmarked).1 h
    obtain ⟨marks, htext⟩ := hmarked.1
    exact ⟨marks, _, htext, (exists_digest_spells_iff.1 ⟨digest, hspells⟩).1, hspells⟩
  · rintro ⟨marks, digits, htext, -, hspells⟩
    -- digits begin with no mark, so that these are all marks in front
    have hdigits := (exists_digest_spells_iff.1 ⟨digest, hspells⟩).2
    exact (readDigest_eq_ok_iff
      ⟨⟨marks, htext⟩, Hex.ne_mark_of_isEitherDigit hdigits⟩).2 hspells

/-- **The digits of a digest are read**, with a mark or without. -/
theorem readDigest_of_spells {digits : List Char} (h : Hex.Spells digits digest.bytes) :
    readDigest (some (String.ofList digits)) = .ok digest ∧
      readDigest (some ("0x" ++ String.ofList digits)) = .ok digest := by
  have hlength := (exists_digest_spells_iff.1 ⟨digest, h⟩).1
  exact ⟨readDigest_eq_ok_iff_exists.2 ⟨0, digits, by simp, hlength, h⟩,
    readDigest_eq_ok_iff_exists.2 ⟨1, digits, by simp, hlength, h⟩⟩

/-- **Which texts are digests.**  A text is read as a digest iff it spells the digest in sixty-four
digits of either case behind any number of times `0x`, and every such text is.  All other texts are
refused with the error that blames what stands behind the last `0x` in front.  So the hexadecimal
form of a digest, in either case and with or without `0x`, is read as the digest. -/
theorem readDigest_grammar :
    (∀ (text : String) (digest : Digest), readDigest (some text) = .ok digest ↔
      ∃ marks digits, text.toList = (List.replicate marks ['0', 'x']).flatten ++ digits ∧
        digits.length = 64 ∧ Hex.Spells digits digest.bytes) ∧
    (∀ text : String, (∃ digest, readDigest (some text) = .ok digest) ↔
      ∃ marks digits, text.toList = (List.replicate marks ['0', 'x']).flatten ++ digits ∧
        digits.length = 64 ∧ ∀ c ∈ digits, Hex.IsEitherDigit c) ∧
    (∀ text : String, ∃ rest, IsMarked text rest ∧
      ∀ error, readDigest (some text) = .error error ↔ BlamesDigest rest error) ∧
    ∀ digest : Digest,
      ∀ digits ∈ [Hex.digits digest.bytes, (Hex.digits digest.bytes).map Char.toUpper],
        readDigest (some (String.ofList digits)) = .ok digest ∧
          readDigest (some ("0x" ++ String.ofList digits)) = .ok digest := by
  refine ⟨fun text digest => readDigest_eq_ok_iff_exists, fun text => ?_, fun text => ?_,
    fun digest digits hmem => readDigest_of_spells ?_⟩
  · simp only [readDigest_eq_ok_iff_exists]
    constructor
    · rintro ⟨digest, marks, digits, htext, -, hspells⟩
      exact ⟨marks, digits, htext, exists_digest_spells_iff.1 ⟨digest, hspells⟩⟩
    · rintro ⟨marks, digits, htext, hdigits⟩
      obtain ⟨digest, hspells⟩ := exists_digest_spells_iff.2 hdigits
      exact ⟨digest, marks, digits, htext, hdigits.1, hspells⟩
  · have hmarked := isMarked_dropMarks text
    exact ⟨_, hmarked, fun error => readDigest_eq_error_iff hmarked⟩
  · rcases List.mem_pair.1 hmem with rfl | rfl
    · exact Hex.spells_digits digest.bytes
    · exact Hex.spells_map_toUpper digest.bytes

/-- Digits of both cases behind two marks are read; an odd number of bytes that are no digits
either, a letter that is no digit, and a digest that is too short are refused. -/
theorem readDigest_grammar_marks :
    readDigest (some (String.ofList ('0' :: 'x' :: '0' :: 'x' ::
      (List.replicate 32 ['a', 'B']).flatten))) = .ok ⟨List.replicate 32 0xab, rfl⟩ ∧
    readDigest (some "0x0x€é") = .error (.hex .oddLength) ∧
    readDigest (some "0x12é34") = .error (.hex (.badDigit 0xc3 2)) ∧
    readDigest (some "0xabcd") = .error (.digestLength 2) := by
  obtain ⟨hok, -, herror, -⟩ := readDigest_grammar
  have hrefused : ∀ {text error} (rest), dropMarks text.toList = rest → BlamesDigest rest error →
      readDigest (some text) = .error error := by
    intro text error rest hrest hblames
    obtain ⟨rest', hmarked, hiff⟩ := herror text
    obtain rfl := (isMarked_iff.1 hmarked).symm.trans hrest
    exact (hiff error).2 hblames
  refine ⟨(hok _ _).2 ⟨2, (List.replicate 32 ['a', 'B']).flatten, by simp, rfl, by decide⟩,
    hrefused ['€', 'é'] (by decide +kernel) (.notHex (.oddLength (by decide))), ?_, ?_⟩
  · exact hrefused ['1', '2', 'é', '3', '4'] (by decide +kernel)
      (.notHex (@Hex.Blames.badDigit _ [0x31, 0x32] [0xa9, 0x33, 0x34] 0xc3
        (by decide) (by decide) (List.all_iff_forall_prop.1 (by decide)) (by decide)))
  · exact hrefused ['a', 'b', 'c', 'd'] (by decide +kernel)
      (@BlamesDigest.wrongLength _ [0xab, 0xcd] (by decide) (by decide))

end Command

end SpendScript
