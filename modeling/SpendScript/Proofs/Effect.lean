import SpendScript.Machine.State

/-!
# Results of effects

Actions on a stack and effects on a state both end in an answer or a fault together with what they
left.  The equations here apply a sequence of steps to what it is started on.

* `Effect.bind_apply` : the second step runs where the first one ended, unless that failed;
* `Effect.bind_eq_ok_iff` : two steps succeed iff each does;
* `Effect.onMain_apply` : an action on the main stack changes nothing else.
-/

namespace SpendScript

namespace Effect

variable {ε σ α β : Type}

theorem bind_apply (x : EStateM ε σ α) (f : α → EStateM ε σ β) (s : σ) :
    (x >>= f) s = match x s with
      | .ok a t => f a t
      | .error fault t => .error fault t := rfl

theorem bind_eq_ok_iff {x : EStateM ε σ α} {f : α → EStateM ε σ β} {s u : σ} {b : β} :
    (x >>= f) s = .ok b u ↔ ∃ a t, x s = .ok a t ∧ f a t = .ok b u := by
  rw [bind_apply]
  cases x s with
  | ok a t =>
    constructor
    · exact fun h => ⟨a, t, rfl, h⟩
    · rintro ⟨_, _, heq, h⟩
      obtain ⟨rfl, rfl⟩ := EStateM.Result.ok.inj heq
      exact h
  | error fault t => simp

@[simp] theorem pure_apply (a : α) (s : σ) : (pure a : EStateM ε σ α) s = .ok a s := rfl

@[simp] theorem throw_apply (fault : ε) (s : σ) :
    (throw fault : EStateM ε σ α) s = .error fault s := rfl

@[simp] theorem get_apply (s : σ) : (get : EStateM ε σ σ) s = .ok s s := rfl

theorem ite_apply (c : Prop) [Decidable c] (x y : EStateM ε σ α) (s : σ) :
    (if c then x else y) s = if c then x s else y s := by
  split <;> rfl

/-- The result of an action on the main stack, for the whole state. -/
def mainResult (s : State) : EStateM.Result Fault Stack α → EStateM.Result Fault State α
  | .ok a main => .ok a { s with main }
  | .error fault main => .error fault { s with main }

theorem onMain_apply (action : Stack.Action α) (s : State) :
    onMain action s = mainResult s (action s.main) := by
  unfold onMain mainResult
  cases action s.main <;> rfl

end Effect

end SpendScript
