import Mathlib.Algebra.BigOperators.Group.List.Lemmas
import Mathlib.Data.List.Prime
import Mathlib.NumberTheory.LucasPrimality
import SpendScript.Crypto.Curve
import SpendScript.Proofs.Crypto.Modular

/-!
# The primes of the curve

The modulus of the coordinates and the order of the group are prime.  A number is prime if some
residue modulo it has the greatest order that a residue can have, and this can be tried out once the
prime factors of the number less one are known (`Primality.Certificate`).  Those are not much
smaller, and are shown to be prime in the same way.

* `Primality.prime_of_mem_primes` : what a list of certificates shows to be prime is prime;
* `Curve.prime_p`, `Curve.prime_n` : so are these two.
-/

namespace SpendScript

namespace Primality

/-- What shows that a number is prime. -/
structure Certificate where
  /-- The number. -/
  number : Nat
  /-- A residue of the greatest order. -/
  root : Nat
  /-- The prime factors of the number less one. -/
  factors : List Nat

/-- Numbers below this are tried out. -/
def small : Nat := 1000000

/-- The root has the greatest order, given numbers that are prime. -/
def Certificate.Holds (primes : List Nat) (c : Certificate) : Prop :=
  1 < c.number ∧ c.factors.prod = c.number - 1 ∧
    Modular.pow c.number c.root (c.number - 1) = 1 ∧
    ∀ q ∈ c.factors, (q ∈ primes ∨ 2 ≤ q ∧ q < small ∧ q.minFac = q) ∧
      Modular.pow c.number c.root ((c.number - 1) / q) ≠ 1

instance (primes : List Nat) (c : Certificate) : Decidable (c.Holds primes) :=
  inferInstanceAs (Decidable (_ ∧ _))

/-- The numbers that a list of certificates shows to be prime, each with those before it. -/
def primes (certificates : List Certificate) : List Nat :=
  certificates.foldl (fun primes c => if c.Holds primes then c.number :: primes else primes) []

/-- **Lucas's test.** -/
theorem prime_of_holds {known : List Nat} {c : Certificate} (hknown : ∀ q ∈ known, q.Prime)
    (h : c.Holds known) : c.number.Prime := by
  obtain ⟨hone, hprod, hfull, hfactors⟩ := h
  have hprime : ∀ q ∈ c.factors, q.Prime := fun q hq =>
    (hfactors q hq).1.elim (hknown q) fun hsmall => Nat.prime_def_minFac.2 ⟨hsmall.1, hsmall.2.2⟩
  refine lucas_primality c.number c.root ?_ fun q hq hdvd hpart => ?_
  · rw [← Modular.cast_pow, hfull, Nat.cast_one]
  · rw [← hprod] at hdvd
    have hmem : q ∈ c.factors := mem_list_primes_of_dvd_prod hq.prime
      (fun r hr => (hprime r hr).prime) hdvd
    refine (hfactors q hmem).2 (Modular.eq_of_cast_eq (Modular.pow_lt (by omega) _ _) hone ?_)
    rw [Modular.cast_pow, hpart, Nat.cast_one]

/-- **What certificates show to be prime is prime.** -/
theorem prime_of_mem_primes {certificates : List Certificate} {q : Nat}
    (h : q ∈ primes certificates) : q.Prime := by
  -- what is known after each certificate is prime
  have hknown : ∀ known : List Nat, (∀ r ∈ known, r.Prime) →
      ∀ r ∈ certificates.foldl
        (fun primes c => if c.Holds primes then c.number :: primes else primes) known,
        r.Prime := by
    clear h
    induction certificates with
    | nil => exact fun known hknown => hknown
    | cons c rest ih =>
      intro known hknown
      rw [List.foldl_cons]
      refine ih _ ?_
      by_cases hc : c.Holds known
      · rw [if_pos hc, List.forall_mem_cons]
        exact ⟨prime_of_holds hknown hc, hknown⟩
      · rwa [if_neg hc]
  exact hknown [] (by simp) q h

end Primality

namespace Curve

open Primality (Certificate)

/-- Certificates for the two primes of the curve. -/
def certificates : List Certificate := [
  ⟨1206781, 10, [2, 2, 3, 5, 20113]⟩,
  ⟨7240687, 3, [2, 3, 1206781]⟩,
  ⟨107590001, 3, [2, 2, 2, 2, 5, 5, 5, 5, 7, 29, 53]⟩,
  ⟨255515944373312847190720520512484175977, 3, [2, 2, 2, 7, 7, 11, 1627, 2657, 4423, 41201,
    96557, 7240687, 107590001]⟩,
  ⟨13331831, 13, [2, 5, 971, 1373]⟩,
  ⟨173378833005251801, 6, [2, 2, 2, 5, 5, 2621, 24809, 13331831]⟩,
  ⟨22149492674086928081353, 5, [2, 2, 2, 3, 5323, 173378833005251801]⟩,
  ⟨132896956044521568488119, 6, [2, 3, 22149492674086928081353]⟩,
  ⟨205115282021455665897114700593932402728804164701536103180137503955397371, 10, [2, 3, 5, 29,
    29, 31, 7723, 132896956044521568488119, 255515944373312847190720520512484175977]⟩,
  ⟨Curve.p, 3, [2, 3, 7, 13441,
    205115282021455665897114700593932402728804164701536103180137503955397371]⟩,
  ⟨44706919, 6, [2, 3, 797, 9349]⟩,
  ⟨174723607534414371449, 3, [2, 2, 2, 17, 59, 4051, 120233, 44706919]⟩,
  ⟨4681609, 23, [2, 2, 2, 3, 97, 2011]⟩,
  ⟨107361793816595537, 3, [2, 2, 2, 2, 16699, 85831, 4681609]⟩,
  ⟨1627771, 3, [2, 3, 5, 29, 1871]⟩,
  ⟨297159362677, 2, [2, 2, 3, 3, 11, 461, 1627771]⟩,
  ⟨545358713, 5, [2, 2, 2, 41, 59, 28181]⟩,
  ⟨29047611873442575647497758179, 2, [2, 293, 305873, 545358713, 297159362677]⟩,
  ⟨341948486974166000522343609283189, 2, [2, 2, 3, 3, 3, 109, 29047611873442575647497758179]⟩,
  ⟨Curve.n, 7, [2, 2, 2, 2, 2, 2, 3, 149, 631, 107361793816595537, 174723607534414371449,
    341948486974166000522343609283189]⟩]

theorem mem_primes_certificates :
    p ∈ Primality.primes certificates ∧ n ∈ Primality.primes certificates := by
  decide +kernel

/-- **The modulus of the coordinates is prime.** -/
theorem prime_p : p.Prime :=
  Primality.prime_of_mem_primes mem_primes_certificates.1

/-- **The order of the group is prime.** -/
theorem prime_n : n.Prime :=
  Primality.prime_of_mem_primes mem_primes_certificates.2

end Curve

end SpendScript
