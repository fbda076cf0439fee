import SpendScript.Crypto.Multisig
import Mathlib.Data.List.NodupEquivFin

/-!
# Greedy search and assignments in order

The search of `Multisig.search` gives every signature the earliest key it can have and never takes
a choice back.  An *assignment* gives every signature a key so that both come in the same order.

* `Multisig.search_eq_some_decide` : from any pair of cursors inside their lists, the search has
  an answer, and it is yes iff the signatures that are left fit to keys that are left, in order;
* `Multisig.fits_reverse_iff` : both lists may as well be read from their ends;
* `Multisig.accepts_iff_exists_strictMono` : signatures are accepted iff they have an assignment,
  as a strictly increasing map of places.

The order of the signatures and of their keys is `List.SublistForall₂`.  A greedy choice loses
nothing: whoever gives the first signature a later key can give it the first one that fits
(`Multisig.fits_cons_cons_iff`).
-/

namespace SpendScript

namespace Multisig

variable (signedBy : (publicKey signature : Bytes) → Bool)

/-- The signatures belong to some of the keys, in order. -/
def Fits (signatures publicKeys : List Bytes) : Prop :=
  List.SublistForall₂ (fun signature publicKey => signedBy publicKey signature = true)
    signatures publicKeys

variable {signedBy} {signature publicKey : Bytes} {signatures publicKeys : List Bytes}

/-! ### The greedy choice -/

theorem fits_nil : Fits signedBy [] publicKeys := .nil

theorem not_fits_cons_nil : ¬ Fits signedBy (signature :: signatures) [] := by
  rintro ⟨⟩

theorem Fits.length_le (h : Fits signedBy signatures publicKeys) :
    signatures.length ≤ publicKeys.length := by
  obtain ⟨chosen, hall, hsub⟩ := List.sublistForall₂_iff.1 h
  exact hall.length_eq ▸ hsub.length_le

theorem Fits.tail (h : Fits signedBy (signature :: signatures) publicKeys) :
    Fits signedBy signatures publicKeys := by
  induction publicKeys with
  | nil => exact absurd h not_fits_cons_nil
  | cons publicKey publicKeys ih =>
    cases h with
    | cons _ h => exact .cons_right h
    | cons_right h => exact .cons_right (ih h)

theorem fits_cons_cons_iff (h : signedBy publicKey signature = true) :
    Fits signedBy (signature :: signatures) (publicKey :: publicKeys) ↔
      Fits signedBy signatures publicKeys := by
  constructor
  · rintro (_ | ⟨_, hrest⟩ | hrest)
    · exact hrest
    · exact Fits.tail hrest
  · exact .cons h

theorem fits_cons_cons_iff_of_not (h : signedBy publicKey signature = false) :
    Fits signedBy (signature :: signatures) (publicKey :: publicKeys) ↔
      Fits signedBy (signature :: signatures) publicKeys := by
  constructor
  · rintro (_ | ⟨hb, _⟩ | hrest)
    · exact absurd hb (by simp [h])
    · exact hrest
  · exact .cons_right

/-! ### The search -/

theorem left?_eq_some_iff {total cursor n : Nat} :
    left? total cursor = some n ↔ cursor ≤ total ∧ total - cursor = n := by
  simp [left?]

theorem signature_pass_le {c : Cursors} {belongs : Bool} (h : c.signature < signatures.length) :
    (c.pass belongs).signature ≤ signatures.length := by
  simp only [Cursors.pass]
  split <;> omega

theorem fits_drop_pass_iff {c c' : Cursors} (hs : c.signature < signatures.length)
    (hk : c.key < publicKeys.length)
    (hc' : c' = c.pass (signedBy publicKeys[c.key] signatures[c.signature])) :
    Fits signedBy (signatures.drop c.signature) (publicKeys.drop c.key) ↔
      Fits signedBy (signatures.drop c'.signature) (publicKeys.drop c'.key) := by
  subst hc'
  rw [List.drop_eq_getElem_cons hs, List.drop_eq_getElem_cons hk]
  cases hb : signedBy publicKeys[c.key] signatures[c.signature]
  · rw [fits_cons_cons_iff_of_not hb, Cursors.pass, ← List.drop_eq_getElem_cons hs]
    rfl
  · exact fits_cons_cons_iff hb

/-- When one of the lists is used up, the rest fits iff no signature is left. -/
theorem fits_drop_iff_of_end {c : Cursors} (hs : c.signature ≤ signatures.length)
    (hend : ¬ (c.signature < signatures.length ∧ c.key < publicKeys.length)) :
    Fits signedBy (signatures.drop c.signature) (publicKeys.drop c.key) ↔
      c.signature = signatures.length := by
  constructor
  · intro h
    have hle := h.length_le
    simp only [List.length_drop] at hle
    omega
  · intro h
    rw [h, List.drop_length]
    exact fits_nil

open Classical in
/-- **The greedy search is right and always has an answer**: as long as the cursors are inside
their lists, what is left can be counted, and the search finds out whether it fits. -/
theorem search_eq_some_decide {c : Cursors} (hs : c.signature ≤ signatures.length)
    (hk : c.key ≤ publicKeys.length) :
    search signedBy publicKeys signatures c =
      some (decide (Fits signedBy (signatures.drop c.signature) (publicKeys.drop c.key))) := by
  fun_induction search signedBy publicKeys signatures c with
  | case1 c h c' keysLeft signaturesLeft hsignatures hkeys hfew =>
    -- the early end: what is left cannot fit, for there are fewer keys than signatures
    rw [left?_eq_some_iff] at hkeys hsignatures
    have hnot : ¬ Fits signedBy (signatures.drop c.signature) (publicKeys.drop c.key) := by
      intro hfits
      have hle : (signatures.drop c'.signature).length ≤ (publicKeys.drop c'.key).length :=
        ((fits_drop_pass_iff h.1 h.2 rfl).1 hfits).length_le
      simp only [List.length_drop] at hle
      omega
    exact congrArg some (decide_eq_false hnot).symm
  | case2 c h c' keysLeft signaturesLeft hsignatures hkeys hfew ih =>
    rw [left?_eq_some_iff] at hkeys hsignatures
    have hpass : Fits signedBy (signatures.drop c.signature) (publicKeys.drop c.key) ↔
        Fits signedBy (signatures.drop c'.signature) (publicKeys.drop c'.key) :=
      fits_drop_pass_iff h.1 h.2 rfl
    rw [ih hsignatures.1 hkeys.1, hpass]
  | case3 c h c' hnone =>
    have hs' : c'.signature ≤ signatures.length := signature_pass_le h.1
    have hk' : c'.key ≤ publicKeys.length := h.2
    exact absurd (left?_eq_some_iff.2 ⟨hs', rfl⟩) (hnone _ _ (left?_eq_some_iff.2 ⟨hk', rfl⟩))
  | case4 c hend =>
    rw [Bool.beq_eq_decide_eq, decide_eq_decide.2 (fits_drop_iff_of_end hs hend)]

/-! ### Assignments -/

theorem fits_iff_exists_strictMono :
    Fits signedBy signatures publicKeys ↔
      ∃ f : Fin signatures.length → Fin publicKeys.length, StrictMono f ∧
        ∀ i, signedBy publicKeys[f i] signatures[i] = true := by
  rw [Fits, List.sublistForall₂_iff]
  constructor
  · rintro ⟨chosen, hall, hsub⟩
    obtain ⟨f, hf⟩ := List.sublist_iff_exists_fin_orderEmbedding_get_eq.1 hsub
    have hlen := hall.length_eq
    refine ⟨fun i => f (i.cast hlen), fun i j hij => f.strictMono hij, fun i => ?_⟩
    have h := hall.get i.isLt (i.cast hlen).isLt
    rw [show chosen.get ⟨i, _⟩ = _ from hf (i.cast hlen)] at h
    exact h
  · rintro ⟨f, hmono, hf⟩
    have hlen : (List.ofFn fun i => publicKeys[f i]).length = signatures.length :=
      List.length_ofFn
    refine ⟨List.ofFn fun i => publicKeys[f i], List.forall₂_iff_get.2 ⟨hlen.symm, ?_⟩, ?_⟩
    · intro i hi _
      simpa using hf ⟨i, hi⟩
    · refine List.sublist_iff_exists_fin_orderEmbedding_get_eq.2
        ⟨OrderEmbedding.ofStrictMono (fun i => f (i.cast hlen)) fun i j hij => hmono hij,
          fun i => ?_⟩
      simp only [List.get_eq_getElem, List.getElem_ofFn]
      rfl

theorem accepts_iff_fits :
    accepts signedBy publicKeys signatures = true ↔ Fits signedBy signatures publicKeys := by
  classical
  have h : search signedBy publicKeys signatures {} =
      some (decide (Fits signedBy signatures publicKeys)) :=
    search_eq_some_decide (Nat.zero_le _) (Nat.zero_le _)
  rw [accepts, h, Option.getD_some, decide_eq_true_iff]

/-- **Whether signatures fit does not depend on which end both lists are read from.** -/
theorem fits_reverse_iff :
    Fits signedBy signatures.reverse publicKeys.reverse ↔ Fits signedBy signatures publicKeys := by
  have hreverse : ∀ {signatures publicKeys : List Bytes}, Fits signedBy signatures publicKeys →
      Fits signedBy signatures.reverse publicKeys.reverse := by
    intro signatures publicKeys h
    obtain ⟨chosen, hall, hsub⟩ := List.sublistForall₂_iff.1 h
    exact List.sublistForall₂_iff.2
      ⟨chosen.reverse, List.forall₂_reverse_iff.2 hall, List.reverse_sublist.2 hsub⟩
  refine ⟨fun h => ?_, hreverse⟩
  have htwice := hreverse h
  rwa [List.reverse_reverse, List.reverse_reverse] at htwice

/-- **Signatures are accepted iff they have an assignment.**  The search that decides it always has
an answer, so neither cursor ever runs past the end of its list. -/
theorem accepts_iff_exists_strictMono (verify : (publicKey signature digest : Bytes) → Bool)
    (publicKeys signatures : List Bytes) (digest : Bytes) :
    search (verify · · digest) publicKeys signatures {} =
        some (accepts (verify · · digest) publicKeys signatures) ∧
      (accepts (verify · · digest) publicKeys signatures = true ↔
        ∃ f : Fin signatures.length → Fin publicKeys.length, StrictMono f ∧
          ∀ i, verify publicKeys[f i] signatures[i] digest = true) := by
  classical
  have h : search (verify · · digest) publicKeys signatures {} =
      some (decide (Fits (verify · · digest) signatures publicKeys)) :=
    search_eq_some_decide (Nat.zero_le _) (Nat.zero_le _)
  refine ⟨by rw [accepts, h]; rfl, ?_⟩
  rw [accepts, h, Option.getD_some, decide_eq_true_iff, fits_iff_exists_strictMono]

end Multisig

end SpendScript
