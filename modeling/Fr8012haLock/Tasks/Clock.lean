import Fr8012haLock.Tasks.Periodic
import Mathlib.Data.List.Dedup

/-!
# Tasks and the clock

The calls of `task_run` read `system_get_curr_time`.  A pass takes place only in a call whose reading differs from the
one in `tick`, so at least a millisecond after the call that `tick` is from; and `tick` is never from a call before the
one of the last pass.  So there are never more passes than milliseconds since the first call, however often the clock
has looped back (`run_clock`), and no task is called too often (`not_called_too_often`).
-/

namespace Fr8012haLock.Tasks

open LinkedList Common Runs

variable {l : List (ℕ × Task)}

theorem count_called {x : ℕ × Task} (hnd : (addrs l).Nodup) (hx : x ∈ l) (h0 : x.2.intervalCnt = 0) (n : ℕ) :
    ((List.range n).map fun k => dueCells (after k l)).flatten.count x.1 = n / x.2.period := by
  induction n with
  | zero => simp
  | succ n ih =>
    have hlast : (dueCells (after n l)).count x.1 = if x.2.period ∣ n + 1 then 1 else 0 := by
      rw [((dueCells_after_sublist n l).nodup hnd).count]
      simp only [mem_dueCells_after hnd hx, Task.due_iterate h0]
    rw [List.range_succ, List.map_append, List.flatten_append, List.count_append, ih, Nat.succ_div, ← hlast]
    simp

/-- A call of `task_run` at the true time `t`. -/
def clockStep (fuel : ℕ) (g : Log) (t : ℕ) : Option Log := logStep fuel g (systemGetCurrTime t)

/-- `tick` is from a call up to the time `u`, and at least as many milliseconds after `t0` as there were passes. -/
def Log.Paced (t0 u : ℕ) (g : Log) : Prop :=
  ∃ r, t0 + g.passes.length ≤ r ∧ r ≤ u ∧ g.c.tick = systemGetCurrTime r

theorem Log.Paced.step {g : Log} {t0 u t fuel : ℕ} (h : g.From l) (hp : g.Paced t0 u) (hf : l.length ≤ fuel)
    (hut : u ≤ t) : ∃ g', clockStep fuel g t = some g' ∧ g'.From l ∧ g'.Paced t0 t := by
  obtain ⟨g', hr, hfrom, htick, hlen⟩ := h.step hf (systemGetCurrTime t)
  obtain ⟨r, hr0, hru, hreading⟩ := hp
  refine ⟨g', hr, hfrom, ?_⟩
  rcases appCommTimeIsUp_tick g.c.tick 1 (systemGetCurrTime t) with hms | ⟨hno, hold⟩
  · rw [hms] at htick
    refine ⟨t, ?_, le_rfl, htick⟩
    by_cases hup : (appCommTimeIsUp g.c.tick 1 (systemGetCurrTime t)).1
    · -- the readings differ, so the times do
      have hne : r ≠ t := by
        rintro rfl
        rw [← hreading, appCommTimeIsUp_self] at hup
        cases hup
      rw [hlen, if_pos hup]
      omega
    · rw [hlen, if_neg hup]
      omega
  · rw [hold, hreading] at htick
    rw [hno] at hlen
    exact ⟨r, by simpa [hlen] using hr0, hru.trans hut, htick⟩

/-- **A run of calls at times that do not decrease** has at most as many passes as milliseconds. -/
theorem run_clock {g : Log} {t0 u fuel : ℕ} {times : List ℕ} (h : g.From l) (hp : g.Paced t0 u)
    (hf : l.length ≤ fuel) (hmono : (u :: times).Pairwise (· ≤ ·)) :
    ∃ g', run (clockStep fuel) g times = some g' ∧ g'.From l ∧ ∃ u' ∈ u :: times, g'.Paced t0 u' := by
  induction times generalizing g u with
  | nil => exact ⟨g, rfl, h, u, List.mem_cons_self, hp⟩
  | cons t times ih =>
    obtain ⟨hu, hrest⟩ := List.pairwise_cons.mp hmono
    obtain ⟨g₁, hs, h₁, hp₁⟩ := hp.step h hf (hu t List.mem_cons_self)
    obtain ⟨g', hr, h', u', hu', hp'⟩ := ih h₁ hp₁ hrest
    exact ⟨g', by rw [run_cons hs, hr], h', u', List.mem_cons_of_mem u hu', hp'⟩

/-- **No task is called too often.**  Let tasks be registered, and then `task_run` be called at true times that do not
decrease, the first time at `t0`.  By a time `t` a task has been called at most once for each `max interval 1` whole
milliseconds since `t0`. -/
theorem not_called_too_often (ts : List (ℕ × UInt32)) (fuel : ℕ) (hf : ts.length ≤ fuel) (t0 : ℕ) (times : List ℕ)
    (hmono : (t0 :: times).Pairwise (· ≤ ·)) :
    ∃ s new g, execOps Store.empty (registerAll ts) = .ok s ∧ s.Holds new ∧
      new.map Prod.snd = ts.map (fun t => ⟨t.2, 0, t.1⟩) ∧
      run (clockStep fuel) ⟨⟨s, 0⟩, []⟩ (t0 :: times) = some g ∧
      ∀ t, (∀ u ∈ t0 :: times, u ≤ t) → ∀ x ∈ new,
        g.passes.flatten.count x.1 ≤ (t - t0) / max x.2.interval.toNat 1 := by
  obtain ⟨s, new, hr, hs, hnew⟩ := registerAll_spec holds_empty ts
  rw [List.nil_append] at hs
  have hlen : new.length ≤ fuel := by
    rwa [length_registered hnew]
  -- the first call only sets `tick`
  obtain ⟨g₁, hs₁, h₁, htick, hno⟩ := (log_from_nil hs 0).step hlen (systemGetCurrTime t0)
  have hp₁ : g₁.Paced t0 t0 := ⟨t0, by rw [hno]; rfl, le_rfl, htick⟩
  obtain ⟨g, hg, ⟨-, hpasses⟩, u, hu, r, hr0, hru, -⟩ := run_clock h₁ hp₁ hlen hmono
  refine ⟨s, new, g, hr, hs, hnew, ?_, ?_⟩
  · rw [run_cons (show clockStep fuel _ t0 = some g₁ from hs₁), hg]
  · intro t ht x hx
    have hzero := registered_zero hnew hx
    rw [hpasses, count_called hs.nodup hx hzero]
    have := ht u hu
    exact Nat.div_le_div_right (by omega)

/-- A call at which the clock reads `0`, one behind it, and one after more than a period. -/
theorem not_called_too_often_stalled : ∃ s new g, execOps Store.empty (registerAll [(1, 0), (2, 1000)]) = .ok s ∧
    s.Holds new ∧ new.map Prod.snd = [⟨0, 0, 1⟩, ⟨1000, 0, 2⟩] ∧
    run (clockStep 2) ⟨⟨s, 0⟩, []⟩ (7 :: [8, clockPeriod, clockPeriod + 1, 2 * clockPeriod + 5]) = some g ∧
    ∀ t, (∀ u ∈ 7 :: [8, clockPeriod, clockPeriod + 1, 2 * clockPeriod + 5], u ≤ t) → ∀ x ∈ new,
      g.passes.flatten.count x.1 ≤ (t - 7) / max x.2.interval.toNat 1 :=
  not_called_too_often [(1, 0), (2, 1000)] 2 (by decide) 7 [8, clockPeriod, clockPeriod + 1, 2 * clockPeriod + 5]
    (by decide)

end Fr8012haLock.Tasks
