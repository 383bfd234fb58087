import Mathlib.Data.List.Basic

/-!
# Runs of a step function that may get stuck

`run step s es` feeds the events `es` to `step` one after another; it is `none` when one of them gets stuck.
`Admits step ok s es` says that every event meets a state in which `ok` allows it.  The rules below turn what one
step keeps into what a whole run keeps (`run_keeps`), and what one step of two systems keeps of a relation between
them into what two runs keep of it, where the second run may leave events out (`run_related`).
-/

namespace Fr8012haLock.Runs

variable {σ τ ε : Type*}

/-- The state after the events of a list; `none` when a step gets stuck. -/
def run (step : σ → ε → Option σ) : σ → List ε → Option σ
  | s, [] => some s
  | s, e :: es => (step s e).bind fun s' => run step s' es

/-- Every event of the list is allowed by `ok` in the state it meets. -/
def Admits (step : σ → ε → Option σ) (ok : σ → ε → Prop) : σ → List ε → Prop
  | _, [] => True
  | s, e :: es => ok s e ∧ ∀ s', step s e = some s' → Admits step ok s' es

variable {step : σ → ε → Option σ} {ok : σ → ε → Prop}

@[simp] theorem run_nil (s : σ) : run step s [] = some s := rfl

theorem run_cons {s s' : σ} {e : ε} (h : step s e = some s') (es : List ε) :
    run step s (e :: es) = run step s' es := by
  simp [run, h]

theorem run_append {s s' : σ} {es : List ε} (h : run step s es = some s') (fs : List ε) :
    run step s (es ++ fs) = run step s' fs := by
  induction es generalizing s with
  | nil => simp_all
  | cons e es ih =>
    cases hs : step s e with
    | none => simp [run, hs] at h
    | some s₁ =>
      rw [run_cons hs] at h
      rw [List.cons_append, run_cons hs, ih h]

theorem run_append_eq_some {s s' : σ} {es fs : List ε} :
    run step s (es ++ fs) = some s' ↔ ∃ t, run step s es = some t ∧ run step t fs = some s' := by
  have hbind : run step s (es ++ fs) = (run step s es).bind fun t => run step t fs := by
    induction es generalizing s with
    | nil => rfl
    | cons e es ih => simp only [List.cons_append, run, Option.bind_assoc, ih]
  rw [hbind, Option.bind_eq_some_iff]

theorem admits_cons {s s' : σ} {e : ε} {es : List ε} (h : step s e = some s') :
    Admits step ok s (e :: es) ↔ ok s e ∧ Admits step ok s' es := by
  simp [Admits, h]

theorem Admits.append {s t : σ} {es fs : List ε} (h : Admits step ok s (es ++ fs)) (hr : run step s es = some t) :
    Admits step ok s es ∧ Admits step ok t fs := by
  induction es generalizing s with
  | nil =>
    cases hr
    exact ⟨trivial, h⟩
  | cons e es ih =>
    cases hs : step s e with
    | none => simp [run, hs] at hr
    | some s₁ =>
      rw [List.cons_append, admits_cons hs] at h
      rw [run_cons hs] at hr
      obtain ⟨h₁, h₂⟩ := ih h.2 hr
      exact ⟨(admits_cons hs).mpr ⟨h.1, h₁⟩, h₂⟩

instance decidableAdmits [∀ s e, Decidable (ok s e)] : ∀ (s : σ) (es : List ε), Decidable (Admits step ok s es)
  | _, [] => isTrue trivial
  | s, e :: es =>
    match h : step s e with
    | some s' =>
      haveI := decidableAdmits s' es
      decidable_of_iff (ok s e ∧ Admits step ok s' es) (admits_cons h).symm
    | none => decidable_of_iff (ok s e) (by simp [Admits, h])

theorem admits_of_forall (h : ∀ s e, ok s e) (s : σ) (es : List ε) : Admits step ok s es := by
  induction es generalizing s with
  | nil => trivial
  | cons e es ih => exact ⟨h s e, fun s' _ => ih s'⟩

/-- **What every step keeps, a run keeps.**  The invariant may speak of the events so far; that no step gets
stuck is part of it. -/
theorem run_keeps {Inv : List ε → σ → Prop}
    (hstep : ∀ es s e, Inv es s → ok s e → ∃ s', step s e = some s' ∧ Inv (es ++ [e]) s')
    {s : σ} {es : List ε} (past : List ε) (h0 : Inv past s) (ha : Admits step ok s es) :
    ∃ s', run step s es = some s' ∧ Inv (past ++ es) s' := by
  induction es generalizing s past with
  | nil => exact ⟨s, rfl, by simpa using h0⟩
  | cons e es ih =>
    obtain ⟨s₁, hs₁, hi₁⟩ := hstep past s e h0 ha.1
    obtain ⟨s', hr, hi⟩ := ih (past ++ [e]) hi₁ (ha.2 s₁ hs₁)
    exact ⟨s', by rw [run_cons hs₁, hr], by simpa using hi⟩

theorem run_invariant {I : List ε → σ → Prop}
    (hstep : ∀ es s e s', I es s → ok s e → step s e = some s' → I (es ++ [e]) s')
    {s s' : σ} {es : List ε} (past : List ε) (h0 : I past s) (ha : Admits step ok s es)
    (hr : run step s es = some s') : I (past ++ es) s' := by
  induction es generalizing s past with
  | nil =>
    cases hr
    simpa using h0
  | cons e es ih =>
    cases hs : step s e with
    | none => simp [run, hs] at hr
    | some s₁ =>
      rw [run_cons hs] at hr
      have := ih (past ++ [e]) (hstep past s e s₁ h0 ha.1 hs) (ha.2 s₁ hs) hr
      simpa using this

theorem run_always {I : σ → Prop} (hstep : ∀ s e s', I s → step s e = some s' → I s') {s s' : σ} {es : List ε}
    (h0 : I s) (hr : run step s es = some s') : I s' := by
  have ha : Admits step (fun _ _ => True) s es := admits_of_forall (fun _ _ => trivial) s es
  exact run_invariant (I := fun _ => I) (fun _ s e s' hi _ hs => hstep s e s' hi hs) [] h0 ha hr

theorem admits_of_invariant {I : σ → Prop} (hok : ∀ s e, I s → ok s e)
    (hstep : ∀ s e s', I s → step s e = some s' → I s') {s : σ} (h0 : I s) (es : List ε) : Admits step ok s es := by
  induction es generalizing s with
  | nil => trivial
  | cons e es ih => exact ⟨hok s e h0, fun s' hs => ih (hstep s e s' h0 hs)⟩

/-- **What every step of two systems keeps of a relation, two runs keep.**  The second system is not given the
events that `keep` leaves out. -/
theorem run_related {stepB : τ → ε → Option τ} {okB : τ → ε → Prop} {R : σ → τ → Prop} {keep : ε → Bool}
    (hkeep : ∀ s t e, keep e = true → R s t → ok s e → okB t e →
      ∃ s' t', step s e = some s' ∧ stepB t e = some t' ∧ R s' t')
    (hdrop : ∀ s t e, keep e = false → R s t → ok s e → ∃ s', step s e = some s' ∧ R s' t)
    {s : σ} {t : τ} {es : List ε} (h0 : R s t) (ha : Admits step ok s es)
    (hb : Admits stepB okB t (es.filter keep)) :
    ∃ s' t', run step s es = some s' ∧ run stepB t (es.filter keep) = some t' ∧ R s' t' := by
  induction es generalizing s t with
  | nil => exact ⟨s, t, rfl, rfl, h0⟩
  | cons e es ih =>
    cases hk : keep e with
    | true =>
      rw [List.filter_cons_of_pos hk] at hb ⊢
      obtain ⟨s₁, t₁, hs₁, ht₁, h₁⟩ := hkeep s t e hk h0 ha.1 hb.1
      obtain ⟨s', t', hs, ht, h⟩ := ih h₁ (ha.2 s₁ hs₁) (hb.2 t₁ ht₁)
      exact ⟨s', t', by rw [run_cons hs₁, hs], by rw [run_cons ht₁, ht], h⟩
    | false =>
      rw [List.filter_cons_of_neg (by simp [hk])] at hb ⊢
      obtain ⟨s₁, hs₁, h₁⟩ := hdrop s t e hk h0 ha.1
      obtain ⟨s', t', hs, ht, h⟩ := ih h₁ (ha.2 s₁ hs₁) hb
      exact ⟨s', t', by rw [run_cons hs₁, hs], ht, h⟩

theorem run_together {stepB : τ → ε → Option τ} {okB : τ → ε → Prop} {R : σ → τ → Prop}
    (hstep : ∀ s t e, R s t → ok s e → okB t e → ∃ s' t', step s e = some s' ∧ stepB t e = some t' ∧ R s' t')
    {s : σ} {t : τ} {es : List ε} (h0 : R s t) (ha : Admits step ok s es) (hb : Admits stepB okB t es) :
    ∃ s' t', run step s es = some s' ∧ run stepB t es = some t' ∧ R s' t' := by
  have hall : es.filter (fun _ => true) = es := List.filter_eq_self.mpr fun _ _ => rfl
  have hb' : Admits stepB okB t (es.filter fun _ => true) := hall.symm ▸ hb
  have := run_related (fun s t e _ => hstep s t e) (fun _ _ _ hk => by cases hk) h0 ha hb'
  rwa [hall] at this

end Fr8012haLock.Runs
