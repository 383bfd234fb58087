import Mathlib.Data.Nat.Notation

/-!
# Loops whose number of rounds an invariant bounds

`run body fuel s` makes at most `fuel` rounds of a loop from the state `s`; a round goes on with a new state, or leaves
the loop with a result.  `rounds body fuel s` are the states in front of the rounds it makes.  An invariant that counts
the rounds, and cannot hold with a count as large as the fuel, shows that the loop is left (`run_of_inv`).
-/

namespace Fr8012haLock.Loops

variable {σ ρ : Type*}

/-- The result with which a loop is left; `none` if it is not left in `fuel` rounds. -/
def run (body : σ → σ ⊕ ρ) : ℕ → σ → Option ρ
  | 0, _ => none
  | fuel + 1, s =>
    match body s with
    | .inl s' => run body fuel s'
    | .inr r => some r

/-- The states in front of the rounds. -/
def rounds (body : σ → σ ⊕ ρ) : ℕ → σ → List σ
  | 0, _ => []
  | fuel + 1, s =>
    s :: match body s with
      | .inl s' => rounds body fuel s'
      | .inr _ => []

variable {body : σ → σ ⊕ ρ} {fuel k : ℕ} {s : σ}

theorem run_inl {s' : σ} (h : body s = .inl s') : run body (fuel + 1) s = run body fuel s' := by rw [run, h]

theorem run_inr {r : ρ} (h : body s = .inr r) : run body (fuel + 1) s = some r := by rw [run, h]

variable {Inv : ℕ → σ → Prop} {Post : ρ → Prop}

/-- **The rule for loops.** -/
theorem run_of_inv (hnext : ∀ k s s', Inv k s → body s = .inl s' → Inv (k + 1) s')
    (hstop : ∀ k s r, Inv k s → body s = .inr r → Post r) (hbound : ∀ s, ¬ Inv (k + fuel) s) (h : Inv k s) :
    ∃ r, run body fuel s = some r ∧ Post r := by
  induction fuel generalizing k s with
  | zero => exact absurd h (hbound s)
  | succ fuel ih =>
    cases hb : body s with
    | inl s' =>
      rw [run_inl hb]
      have hbound' : ∀ t, ¬ Inv (k + 1 + fuel) t := by
        intro t ht
        rw [Nat.add_right_comm] at ht
        exact hbound t ht
      exact ih hbound' (hnext k s s' h hb)
    | inr r => exact ⟨r, run_inr hb, hstop k s r h hb⟩

/-- What the invariant says holds in front of every round. -/
theorem inv_of_mem_rounds (hnext : ∀ k s s', Inv k s → body s = .inl s' → Inv (k + 1) s') (h : Inv k s) {t : σ}
    (ht : t ∈ rounds body fuel s) : ∃ k, Inv k t := by
  induction fuel generalizing k s with
  | zero => cases ht
  | succ fuel ih =>
    rw [rounds] at ht
    rcases List.mem_cons.mp ht with rfl | ht
    · exact ⟨k, h⟩
    · cases hb : body s with
      | inl s' =>
        rw [hb] at ht
        exact ih (hnext k s s' h hb) ht
      | inr r =>
        rw [hb] at ht
        cases ht

end Fr8012haLock.Loops
