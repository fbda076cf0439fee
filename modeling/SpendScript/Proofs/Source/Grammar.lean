import SpendScript.Proofs.Bytes.HexCase
import SpendScript.Proofs.Listing.Reassembly

/-!
# The grammar of tokens

Words of source text are divided into tokens, each with one meaning (`Token.Means`), and the rest,
of which each is blamed in one way (`Token.Blames`).

* `Token.read_eq_ok_iff` : a word is read as what it means;
* `Token.isToken_iff` : the words that mean something are those of the grammar (`Token.IsToken`);
* `Token.read_eq_error_iff` : all others are refused, with the error that blames them.
-/

namespace SpendScript

namespace Token

/-- The word is some decimal digits, perhaps after a minus sign, which spell the number. -/
inductive Decimal : (word : List Char) → (n : Int) → Prop
  /-- Without a sign. -/
  | plain {digits : List Char} (hne : digits ≠ []) (hdigits : ∀ c ∈ digits, c.isDigit = true) :
      Decimal digits (decimalValue digits)
  /-- With a sign. -/
  | minus {digits : List Char} (hne : digits ≠ []) (hdigits : ∀ c ∈ digits, c.isDigit = true) :
      Decimal ('-' :: digits) (-(decimalValue digits : Int))

/-- The word means the token. -/
inductive Means : (word : List Char) → Token → Prop
  /-- Bytes in hexadecimal. -/
  | data {digits : List Char} {bytes : Bytes} (h : Hex.Spells digits bytes) :
      Means ('0' :: 'x' :: digits) (.data bytes)
  /-- A number that source text can name. -/
  | number {word : List Char} {n : Int} (h : Decimal word n) (hmin : minNumber ≤ n)
      (hmax : n ≤ maxNumber) : Means word (.number n)
  /-- An opcode by its name. -/
  | name (op : Opcode) : Means op.name.toList (.opcode op)
  /-- An opcode by another name. -/
  | otherName {name : String} {op : Opcode} (h : (name, op) ∈ Opcode.aliases) :
      Means name.toList (.opcode op)

/-- The words that are tokens. -/
inductive IsToken : (word : List Char) → Prop
  /-- An even number of hexadecimal digits, of either case. -/
  | data {digits : List Char} (hdigits : ∀ c ∈ digits, Hex.IsEitherDigit c)
      (heven : digits.length % 2 = 0) : IsToken ('0' :: 'x' :: digits)
  /-- Decimal digits, perhaps after a minus sign, for a number that is neither too small nor too
  large. -/
  | number {word : List Char} {n : Int} (h : Decimal word n) (hmin : minNumber ≤ n)
      (hmax : n ≤ maxNumber) : IsToken word
  /-- The name of an opcode. -/
  | name (op : Opcode) : IsToken op.name.toList
  /-- One of the other names. -/
  | otherName {name : String} {op : Opcode} (h : (name, op) ∈ Opcode.aliases) : IsToken name.toList

/-- What is said about a word that is no token. -/
inductive Blames : (word : List Char) → SourceError → Prop
  /-- It begins like bytes in hexadecimal. -/
  | badHex {word : List Char} (h : ['0', 'x'] <+: word) : Blames word (.badHex (String.ofList word))
  /-- It is a number. -/
  | badNumber {word : List Char} {n : Int} (h : Decimal word n) :
      Blames word (.badNumber (String.ofList word))
  /-- It is neither. -/
  | unknownOpcode {word : List Char} (hhex : ¬ ['0', 'x'] <+: word)
      (hnumber : ∀ n, ¬ Decimal word n) :
      Blames word (.unknownOpcode (String.ofList word))

variable {word digits : List Char} {token : Token} {n : Int} {e e' : SourceError}

/-! ### Decimal words -/

theorem splitSign_of_ne (h : word.head? ≠ some '-') : splitSign word = (false, word) := by
  unfold splitSign
  split
  · exact absurd rfl h
  · rfl

theorem head?_ne_minus (h : ∀ c ∈ digits, c.isDigit = true) : digits.head? ≠ some '-' := by
  intro hminus
  exact absurd (h '-' (List.mem_of_head? hminus)) (by decide)

theorem isDecimal_iff : isDecimal word = true ↔ ∃ n, Decimal word n := by
  have hsplit : isDecimal word = true ↔
      (splitSign word).2 ≠ [] ∧ ∀ c ∈ (splitSign word).2, c.isDigit = true := by
    simp [isDecimal]
  rw [hsplit]
  constructor
  · rintro ⟨hne, hdigits⟩
    by_cases hminus : word.head? = some '-'
    · obtain ⟨digits, rfl⟩ := List.head?_eq_some_iff.1 hminus
      exact ⟨_, .minus hne hdigits⟩
    · rw [splitSign_of_ne hminus] at hne hdigits
      exact ⟨_, .plain hne hdigits⟩
  · rintro ⟨n, h⟩
    cases h with
    | plain hne hdigits =>
      rw [splitSign_of_ne (head?_ne_minus hdigits)]
      exact ⟨hne, hdigits⟩
    | minus hne hdigits => exact ⟨hne, hdigits⟩

theorem decimal?_eq (h : Decimal word n) :
    decimal? word = if minNumber ≤ n ∧ n ≤ maxNumber then some n else none := by
  cases h with
  | @plain digits hne hdigits =>
    have hrange : minNumber ≤ (decimalValue word : Int) ∧ (decimalValue word : Int) ≤ maxNumber ↔
        decimalValue word ≤ maxNumber.natAbs := by
      simp only [minNumber, maxNumber]
      omega
    rw [decimal?, splitSign_of_ne (head?_ne_minus hdigits)]
    simp only [decimalUpTo?_eq_ite, hrange]
    split_ifs <;> rfl
  | @minus digits hne hdigits =>
    have hrange : minNumber ≤ -(decimalValue digits : Int) ∧
        -(decimalValue digits : Int) ≤ maxNumber ↔ decimalValue digits ≤ minNumber.natAbs := by
      simp only [minNumber, maxNumber]
      omega
    rw [decimal?, splitSign]
    simp only [decimalUpTo?_eq_ite, hrange]
    split_ifs <;> rfl

/-! ### The kinds of words -/

theorem not_isPrefix_of_decimal (h : Decimal word n) : ¬ ['0', 'x'] <+: word := by
  rintro ⟨rest, rfl⟩
  cases h with
  | plain _ hdigits => exact absurd (hdigits 'x' (by simp)) (by decide)

theorem read_data (digits : List Char) :
    read ('0' :: 'x' :: digits) = match Hex.decode digits with
      | .ok bytes => .ok (.data bytes)
      | .error _ => .error (.badHex (String.ofList ('0' :: 'x' :: digits))) := rfl

theorem read_of_not_isPrefix (h : ¬ ['0', 'x'] <+: word) :
    read word =
      if isDecimal word then
        match decimal? word with
        | some n => .ok (.number n)
        | none => .error (.badNumber (String.ofList word))
      else
        match Opcode.ofName? (String.ofList word) with
        | some op => .ok (.opcode op)
        | none => .error (.unknownOpcode (String.ofList word)) := by
  unfold read
  split
  · rename_i digits
    exact absurd (List.prefix_append ['0', 'x'] digits) h
  · rfl

theorem read_of_decimal (h : Decimal word n) :
    read word = if minNumber ≤ n ∧ n ≤ maxNumber then .ok (.number n)
      else .error (.badNumber (String.ofList word)) := by
  rw [read_of_not_isPrefix (not_isPrefix_of_decimal h), if_pos (isDecimal_iff.2 ⟨n, h⟩),
    decimal?_eq h]
  split_ifs <;> rfl

theorem read_of_not_decimal (hhex : ¬ ['0', 'x'] <+: word) (h : ∀ n, ¬ Decimal word n) :
    read word = match Opcode.ofName? (String.ofList word) with
      | some op => .ok (.opcode op)
      | none => .error (.unknownOpcode (String.ofList word)) := by
  have hdecimal : ¬ isDecimal word = true := fun hdecimal => by
    obtain ⟨n, hn⟩ := isDecimal_iff.1 hdecimal
    exact h n hn
  rw [read_of_not_isPrefix hhex, if_neg hdecimal]

theorem kinds (word : List Char) :
    (∃ digits, word = '0' :: 'x' :: digits) ∨ (∃ n, Decimal word n) ∨
      ¬ ['0', 'x'] <+: word ∧ ∀ n, ¬ Decimal word n := by
  by_cases hhex : ['0', 'x'] <+: word
  · obtain ⟨digits, rfl⟩ := hhex
    exact .inl ⟨digits, rfl⟩
  · by_cases hdecimal : ∃ n, Decimal word n
    · exact .inr (.inl hdecimal)
    · exact .inr (.inr ⟨hhex, fun n hn => hdecimal ⟨n, hn⟩⟩)

/-! ### Meanings -/

theorem means_of_ofName? {op : Opcode} (h : Opcode.ofName? (String.ofList word) = some op) :
    Means word (.opcode op) := by
  have hword : word = (String.ofList word).toList := String.toList_ofList.symm
  rw [hword]
  rcases List.mem_append.1 (Opcode.mem_names_of_ofName? h) with hmem | hmem
  · obtain ⟨op, -, heq⟩ := List.mem_map.1 hmem
    obtain ⟨hname, rfl⟩ := Prod.mk.inj heq
    rw [← hname]
    exact .name op
  · exact .otherName hmem

theorem read_alias {name : String} {op : Opcode} (h : (name, op) ∈ Opcode.aliases) :
    read name.toList = .ok (.opcode op) := by
  have hall : ∀ entry ∈ Opcode.aliases, read entry.1.toList = .ok (.opcode entry.2) := by
    decide +kernel
  exact hall _ h

/-- **A word is read as what it means.** -/
theorem read_eq_ok_iff : read word = .ok token ↔ Means word token := by
  constructor
  · intro h
    obtain ⟨digits, rfl⟩ | ⟨n, hn⟩ | ⟨hhex, hnumber⟩ := kinds word
    · rw [read_data] at h
      split at h
      · rename_i bytes hdecode
        rw [← Except.ok.inj h]
        exact .data (Hex.decode_eq_ok_iff.1 hdecode)
      · exact absurd h (by simp)
    · rw [read_of_decimal hn] at h
      split_ifs at h with hrange
      rw [← Except.ok.inj h]
      exact .number hn hrange.1 hrange.2
    · rw [read_of_not_decimal hhex hnumber] at h
      split at h
      · rename_i op hop
        rw [← Except.ok.inj h]
        exact means_of_ofName? hop
      · exact absurd h (by simp)
  · intro h
    cases h with
    | data h => rw [read_data, Hex.decode_eq_ok_iff.2 h]
    | number h hmin hmax => rw [read_of_decimal h, if_pos ⟨hmin, hmax⟩]
    | name op => exact Listing.read_name op
    | otherName h => exact read_alias h

/-- **The words that mean something are those of the grammar.** -/
theorem isToken_iff : IsToken word ↔ ∃ token, Means word token := by
  constructor
  · intro h
    cases h with
    | data hdigits heven =>
      obtain ⟨bytes, hbytes⟩ := Hex.exists_spells_iff.2 ⟨hdigits, heven⟩
      exact ⟨_, .data hbytes⟩
    | number h hmin hmax => exact ⟨_, .number h hmin hmax⟩
    | name op => exact ⟨_, .name op⟩
    | otherName h => exact ⟨_, .otherName h⟩
  · rintro ⟨token, h⟩
    cases h with
    | data h =>
      obtain ⟨hdigits, heven⟩ := Hex.exists_spells_iff.1 ⟨_, h⟩
      exact .data hdigits heven
    | number h hmin hmax => exact .number h hmin hmax
    | name op => exact .name op
    | otherName h => exact .otherName h

theorem isToken_iff_exists_read : IsToken word ↔ ∃ token, read word = .ok token := by
  simp only [isToken_iff, read_eq_ok_iff]

/-! ### Blame -/

/-- A word is blamed in one way at most. -/
theorem Blames.unique (h : Blames word e) (h' : Blames word e') : e = e' := by
  cases h with
  | badHex hhex =>
    cases h' with
    | badHex _ => rfl
    | badNumber h => exact absurd hhex (not_isPrefix_of_decimal h)
    | unknownOpcode h _ => exact absurd hhex h
  | badNumber hnumber =>
    cases h' with
    | badHex h => exact absurd h (not_isPrefix_of_decimal hnumber)
    | badNumber _ => rfl
    | unknownOpcode _ h => exact absurd hnumber (h _)
  | unknownOpcode hhex hnumber =>
    cases h' with
    | badHex h => exact absurd h hhex
    | badNumber h => exact absurd h (hnumber _)
    | unknownOpcode _ _ => rfl

theorem blames_of_read (h : read word = .error e) : Blames word e := by
  obtain ⟨digits, rfl⟩ | ⟨n, hn⟩ | ⟨hhex, hnumber⟩ := kinds word
  · rw [read_data] at h
    split at h
    · exact absurd h (by simp)
    · rw [← Except.error.inj h]
      exact .badHex (List.prefix_append ['0', 'x'] digits)
  · rw [read_of_decimal hn] at h
    split_ifs at h with hrange
    rw [← Except.error.inj h]
    exact .badNumber hn
  · rw [read_of_not_decimal hhex hnumber] at h
    split at h
    · exact absurd h (by simp)
    · rw [← Except.error.inj h]
      exact .unknownOpcode hhex hnumber

/-- **A word that is no token is refused, with the error that blames it.** -/
theorem read_eq_error_iff : read word = .error e ↔ ¬ IsToken word ∧ Blames word e := by
  rw [isToken_iff_exists_read]
  constructor
  · intro h
    refine ⟨?_, blames_of_read h⟩
    rintro ⟨token, htoken⟩
    exact absurd (htoken.symm.trans h) (by simp)
  · rintro ⟨hnot, hblames⟩
    cases hread : read word with
    | ok token => exact absurd ⟨token, hread⟩ hnot
    | error e' => rw [(blames_of_read hread).unique hblames]

end Token

end SpendScript
