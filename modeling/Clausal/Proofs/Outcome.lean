import Clausal.Value.Fault

/-!
# Inverting computations that can fail

When a sequence of steps that can fail ends well, every step ended well.  The lemmas here take such
a sequence apart, for plain results and for results that thread a state.  `SameResult` compares two
sequences whose faults may differ.
-/

namespace Clausal
namespace Outcome

variable {ε σ α β : Type}

/-! ## Plain results -/

theorem bind_eq_ok {x : Except ε α} {f : α → Except ε β} {b : β} :
    (x >>= f) = .ok b ↔ ∃ a, x = .ok a ∧ f a = .ok b := by
  cases x <;> simp [bind, Except.bind]

theorem map_eq_ok {x : Except ε α} {f : α → β} {b : β} :
    x.map f = .ok b ↔ ∃ a, x = .ok a ∧ f a = b := by
  cases x <;> simp [Except.map]

theorem map_eq_error {x : Except ε α} {f : α → β} {e : ε} : x.map f = .error e ↔ x = .error e := by
  cases x <;> simp [Except.map]

@[simp] theorem ok_bind (a : α) (f : α → Except ε β) : ((.ok a : Except ε α) >>= f) = f a := rfl

@[simp] theorem error_bind (e : ε) (f : α → Except ε β) :
    ((.error e : Except ε α) >>= f) = .error e := rfl

/-! ## Results with a state -/

theorem run_bind_eq_ok {x : StateT σ (Except ε) α} {f : α → StateT σ (Except ε) β} {s : σ}
    {r : β × σ} :
    (x >>= f) s = .ok r ↔ ∃ a t, x s = .ok (a, t) ∧ f a t = .ok r := by
  constructor
  · intro h
    rcases bind_eq_ok.mp h with ⟨⟨a, t⟩, hx, hf⟩
    exact ⟨a, t, hx, hf⟩
  · rintro ⟨a, t, hx, hf⟩
    exact bind_eq_ok.mpr ⟨(a, t), hx, hf⟩

theorem run_bind_of_ok {x : StateT σ (Except ε) α} {f : α → StateT σ (Except ε) β} {s t : σ}
    {a : α} (h : x s = .ok (a, t)) : (x >>= f) s = f a t := by
  change (x s >>= fun r => f r.1 r.2) = f a t
  rw [h]
  rfl

theorem run_bind_of_error {x : StateT σ (Except ε) α} {f : α → StateT σ (Except ε) β} {s : σ}
    {e : ε} (h : x s = .error e) : (x >>= f) s = .error e := by
  change (x s >>= fun r => f r.1 r.2) = .error e
  rw [h]
  rfl

theorem run_throw_ne_ok {e : ε} {s : σ} {r : α × σ} :
    (throw e : StateT σ (Except ε) α) s ≠ .ok r := by
  intro h
  cases h

theorem run_tryCatch (x : StateT σ (Except ε) α) (handle : ε → StateT σ (Except ε) α) (s : σ) :
    (tryCatch x handle) s = match x s with
      | .ok r => .ok r
      | .error e => handle e s := by
  change (Except.tryCatch (x s) fun e => handle e s) = _
  cases x s <;> rfl

/-! ## Results that differ at most in their faults -/

/-- Both results are the same value, or both are faults. -/
def SameResult (x y : Except ε α) : Prop := ∀ a, x = .ok a ↔ y = .ok a

namespace SameResult

variable {x y z : Except ε α}

theorem refl (x : Except ε α) : SameResult x x := fun _ => Iff.rfl

theorem trans (first : SameResult x y) (second : SameResult y z) : SameResult x z :=
  fun a => (first a).trans (second a)

theorem symm (same : SameResult x y) : SameResult y x := fun a => (same a).symm

theorem error (e e' : ε) : SameResult (.error e : Except ε α) (.error e') := by
  intro a
  constructor <;> nofun

/-- Going on in the same way from the same results gives the same results. -/
theorem bind {f g : α → Except ε β} (first : SameResult x y)
    (next : ∀ a, SameResult (f a) (g a)) : SameResult (x >>= f) (y >>= g) := by
  intro b
  rw [bind_eq_ok, bind_eq_ok]
  exact exists_congr fun a => and_congr (first a) (next a b)

theorem run_bind {x y : StateT σ (Except ε) α} {f g : α → StateT σ (Except ε) β} {s : σ}
    (first : SameResult (x s) (y s)) (next : ∀ a t, SameResult (f a t) (g a t)) :
    SameResult ((x >>= f) s) ((y >>= g) s) :=
  first.bind fun r => next r.1 r.2

end SameResult

end Outcome
end Clausal
