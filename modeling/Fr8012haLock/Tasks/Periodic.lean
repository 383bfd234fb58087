import Fr8012haLock.Tasks.Pass

/-!
# Passes that leave the list of tasks as it is

If the functions called change nothing, a pass visits every task in order (`visits_quiet`), and after `n` passes the
counter of a task is `n` modulo its interval.  So a task is called in the passes whose number its interval divides
(`exactly_periodic`), an interval of `0` counting as `1`.  The passes are the calls of `task_run` that find that time has
passed, as many as `timesUp` counts.
-/

namespace Fr8012haLock.Tasks

open LinkedList Common Runs

/-- Functions that change nothing. -/
def quiet : ℕ → List TaskOp := fun _ => []

variable {l rest : List (ℕ × Task)}

/-- The cells of the tasks that are due. -/
def dueCells (l : List (ℕ × Task)) : List ℕ := addrs (l.filter fun x => x.2.due)

/-- The tasks after a pass. -/
def tickAll (l : List (ℕ × Task)) : List (ℕ × Task) := l.map fun x => (x.1, x.2.tick)

theorem visits_quiet (before : List (ℕ × Task)) {p : Pass} (hs : p.store.Holds (before ++ rest))
    (ht : p.temp = first rest) :
    ∃ s', visits quiet rest.length p = .ok ⟨s', none, p.visited ++ addrs rest, p.called ++ dueCells rest⟩ ∧
      s'.Holds (before ++ tickAll rest) := by
  induction rest generalizing p before with
  | nil =>
    obtain ⟨s, temp, visited, called⟩ := p
    obtain rfl : temp = none := ht
    exact ⟨s, by simp [visits, dueCells], hs⟩
  | cons x rest ih =>
    have hset := hs.tick
    have hvisit : visit quiet p =
        .ok ⟨p.store.tick x.1, first rest, p.visited ++ [x.1], p.called ++ dueCells [x]⟩ := by
      rw [visit, ht]
      simp only [first_cons, readTask_eq hs.cell_eq, ok_bind]
      by_cases hd : x.2.due
      · rw [if_pos hd]
        show (readTask (p.store.tick x.1).heap x.1 >>= _) = _
        rw [readTask_eq hset.cell_eq]
        simp [dueCells, hd]
      · rw [if_neg hd]
        simp only [ok_bind, readTask_eq hset.cell_eq]
        simp [dueCells, hd]
    have hs' : (p.store.tick x.1).Holds ((before ++ [(x.1, x.2.tick)]) ++ rest) := by
      rw [List.append_assoc]
      exact hset
    obtain ⟨s', hr, hs''⟩ := ih _
      (p := ⟨p.store.tick x.1, first rest, p.visited ++ [x.1], p.called ++ dueCells [x]⟩) hs' rfl
    refine ⟨s', ?_, ?_⟩
    · rw [List.length_cons, visits, hvisit, ok_bind, hr]
      by_cases hd : x.2.due <;> simp [dueCells, hd]
    · rwa [List.append_assoc] at hs''

theorem taskRun_quiet {s : Store} (hs : s.Holds l) {fuel : ℕ} (hf : l.length ≤ fuel) (tick ms : UInt32) :
    ∃ s', taskRun quiet fuel ⟨s, tick⟩ ms = .ok (⟨s', (appCommTimeIsUp tick 1 ms).2⟩,
        if (appCommTimeIsUp tick 1 ms).1 then some (dueCells l) else none) ∧
      s'.Holds (if (appCommTimeIsUp tick 1 ms).1 then tickAll l else l) := by
  rw [taskRun]
  obtain ⟨up, tick'⟩ := appCommTimeIsUp tick 1 ms
  cases up with
  | false => exact ⟨s, rfl, hs⟩
  | true =>
    obtain ⟨s', hr, hs'⟩ := visits_quiet [] (p := Pass.start s) hs hs.first_eq
    refine ⟨s', ?_, hs'⟩
    simp only [if_true, visits_of_done hr rfl hf, ok_bind]
    rfl

/-! ### The counter of a task -/

/-- The number of passes from one call to the next. -/
def Task.period (t : Task) : ℕ := max t.interval.toNat 1

namespace Task

variable {t : Task} {n : ℕ}

theorem period_pos (t : Task) : 0 < t.period := Nat.lt_of_lt_of_le Nat.one_pos (Nat.le_max_right ..)

theorem period_lt (t : Task) : t.period < 2 ^ 32 := max_lt t.interval.toNat_lt (by decide)

theorem toNat_intervalCnt_add_one (h : t.intervalCnt.toNat = n % t.period) :
    (t.intervalCnt + 1).toNat = n % t.period + 1 := by
  have hmod := Nat.mod_lt n t.period_pos
  have hlt := t.period_lt
  rw [UInt32.toNat_add, h, UInt32.toNat_one]
  exact Nat.mod_eq_of_lt (by omega)

theorem due_iff (h : t.intervalCnt.toNat = n % t.period) : t.due ↔ t.period ∣ n + 1 := by
  have hmod := Nat.mod_lt n t.period_pos
  have hmax : t.period = max t.interval.toNat 1 := rfl
  rw [due, ge_iff_le, UInt32.le_iff_toNat_le, toNat_intervalCnt_add_one h, Nat.dvd_iff_mod_eq_zero, ← Nat.mod_add_mod]
  constructor
  · intro hle
    rw [show n % t.period + 1 = t.period by omega, Nat.mod_self]
  · intro h0
    by_contra hgt
    rw [Nat.mod_eq_of_lt (by omega)] at h0
    omega

theorem toNat_tick (h : t.intervalCnt.toNat = n % t.period) : t.tick.intervalCnt.toNat = (n + 1) % t.period := by
  have hmod := Nat.mod_lt n t.period_pos
  by_cases hd : t.due
  · rw [tick, if_pos hd, Nat.mod_eq_zero_of_dvd ((due_iff h).mp hd)]
    rfl
  · have hne : n % t.period + 1 ≠ t.period := by
      intro heq
      refine hd ((due_iff h).mpr ?_)
      rw [Nat.dvd_iff_mod_eq_zero, ← Nat.mod_add_mod, heq, Nat.mod_self]
    have hsucc : (n % t.period + 1) % t.period = n % t.period + 1 := Nat.mod_eq_of_lt (by omega)
    rw [tick, if_neg hd, toNat_intervalCnt_add_one h, ← hsucc, Nat.mod_add_mod]

theorem interval_iterate (t : Task) (n : ℕ) : (tick^[n] t).interval = t.interval := by
  induction n with
  | zero => rfl
  | succ n ih => rw [Function.iterate_succ_apply', ← ih, tick]

theorem period_iterate (t : Task) (n : ℕ) : (tick^[n] t).period = t.period := by
  rw [period, interval_iterate, period]

theorem toNat_iterate (h : t.intervalCnt = 0) (n : ℕ) : (tick^[n] t).intervalCnt.toNat = n % t.period := by
  induction n with
  | zero =>
    rw [Function.iterate_zero_apply, h, Nat.zero_mod]
    rfl
  | succ n ih =>
    rw [← t.period_iterate n] at ih ⊢
    rw [Function.iterate_succ_apply', toNat_tick ih]

theorem due_iterate (h : t.intervalCnt = 0) (n : ℕ) : (tick^[n] t).due ↔ t.period ∣ n + 1 := by
  have hn := toNat_iterate h n
  rw [← t.period_iterate n] at hn ⊢
  exact due_iff hn

end Task

/-! ### Runs -/

/-- The scheduler, and the cells called in each pass so far. -/
structure Log where
  c : Scheduler
  passes : List (List ℕ)

/-- A call of `task_run` with the reading `ms` of the clock. -/
def logStep (fuel : ℕ) (g : Log) (ms : UInt32) : Option Log :=
  match taskRun quiet fuel g.c ms with
  | .ok (c, some called) => some ⟨c, g.passes ++ [called]⟩
  | .ok (c, none) => some ⟨c, g.passes⟩
  | .error _ => none

/-- How many of the calls with the readings `mss` find that time has passed, when `tick` is in the variable before. -/
def timesUp : UInt32 → List UInt32 → ℕ
  | _, [] => 0
  | tick, ms :: mss =>
    (if (appCommTimeIsUp tick 1 ms).1 then 1 else 0) + timesUp (appCommTimeIsUp tick 1 ms).2 mss

/-- The tasks after `n` passes. -/
def after (n : ℕ) (l : List (ℕ × Task)) : List (ℕ × Task) := l.map fun x => (x.1, Task.tick^[n] x.2)

theorem tickAll_after (n : ℕ) (l : List (ℕ × Task)) : tickAll (after n l) = after (n + 1) l := by
  simp only [tickAll, after, List.map_map, Function.comp_def, Function.iterate_succ_apply']

theorem addrs_after (n : ℕ) (l : List (ℕ × Task)) : addrs (after n l) = addrs l := by
  rw [addrs, after, List.map_map]
  rfl

/-- The log of a scheduler whose tasks were `l` before the first pass. -/
def Log.From (l : List (ℕ × Task)) (g : Log) : Prop :=
  g.c.store.Holds (after g.passes.length l) ∧
    g.passes = (List.range g.passes.length).map fun k => dueCells (after k l)

theorem log_from_nil {s : Store} (hs : s.Holds l) (tick : UInt32) : Log.From l ⟨⟨s, tick⟩, []⟩ := by
  refine ⟨?_, rfl⟩
  rw [after, List.length_nil]
  simpa using hs

theorem Log.From.step {g : Log} (h : g.From l) {fuel : ℕ} (hf : l.length ≤ fuel) (ms : UInt32) :
    ∃ g', logStep fuel g ms = some g' ∧ g'.From l ∧ g'.c.tick = (appCommTimeIsUp g.c.tick 1 ms).2 ∧
      g'.passes.length = g.passes.length + if (appCommTimeIsUp g.c.tick 1 ms).1 then 1 else 0 := by
  obtain ⟨hs, hp⟩ := h
  have hlen : (after g.passes.length l).length ≤ fuel := by rwa [after, List.length_map]
  obtain ⟨s', hr, hs'⟩ := taskRun_quiet hs hlen g.c.tick ms
  rw [logStep, hr]
  cases hup : (appCommTimeIsUp g.c.tick 1 ms).1 with
  | false =>
    rw [hup] at hs'
    exact ⟨_, rfl, ⟨hs', hp⟩, rfl, rfl⟩
  | true =>
    rw [hup, if_pos rfl, tickAll_after] at hs'
    refine ⟨_, rfl, ⟨?_, ?_⟩, rfl, ?_⟩
    · rwa [List.length_append]
    · rw [List.length_append, List.length_singleton, List.range_succ, List.map_append, ← hp]
      rfl
    · rw [List.length_append, if_pos rfl]
      rfl

theorem mem_dueCells_after {x : ℕ × Task} (hnd : (addrs l).Nodup) (hx : x ∈ l) (k : ℕ) :
    x.1 ∈ dueCells (after k l) ↔ (Task.tick^[k] x.2).due := by
  constructor
  · intro hm
    obtain ⟨y, hy, hyx⟩ := List.mem_map.mp hm
    obtain ⟨hy, hdue⟩ := List.mem_filter.mp hy
    obtain ⟨z, hz, rfl⟩ := List.mem_map.mp hy
    obtain rfl : z = x := List.inj_on_of_nodup_map hnd hz hx hyx
    exact of_decide_eq_true hdue
  · intro hdue
    refine List.mem_map.mpr ⟨(x.1, Task.tick^[k] x.2), List.mem_filter.mpr ⟨?_, decide_eq_true hdue⟩, rfl⟩
    exact List.mem_map.mpr ⟨x, hx, rfl⟩

theorem dueCells_after_sublist (k : ℕ) (l : List (ℕ × Task)) : (dueCells (after k l)).Sublist (addrs l) := by
  rw [← addrs_after k l]
  exact List.filter_sublist.map _

/-- **A run of calls** keeps the log of the tasks there were before it, and adds a pass for each call that finds that
time has passed. -/
theorem run_log {g : Log} (h : g.From l) {fuel : ℕ} (hf : l.length ≤ fuel) (mss : List UInt32) :
    ∃ g', run (logStep fuel) g mss = some g' ∧ g'.From l ∧
      g'.passes.length = g.passes.length + timesUp g.c.tick mss := by
  induction mss generalizing g with
  | nil => exact ⟨g, rfl, h, rfl⟩
  | cons ms mss ih =>
    obtain ⟨g₁, hs, h₁, htick, hlen⟩ := h.step hf ms
    obtain ⟨g', hr, h', hlen'⟩ := ih h₁
    refine ⟨g', by rw [run_cons hs, hr], h', ?_⟩
    rw [hlen', hlen, htick, Nat.add_assoc]
    rfl

theorem Log.From.called_sublist {g : Log} (h : g.From l) (hnd : (addrs l).Nodup) {called : List ℕ}
    (hc : called ∈ g.passes) : called.Sublist (addrs l) ∧ called.Nodup := by
  rw [h.2] at hc
  obtain ⟨k, -, rfl⟩ := List.mem_map.mp hc
  have hsub := dueCells_after_sublist k l
  exact ⟨hsub, hsub.nodup hnd⟩

theorem Log.From.mem_called {g : Log} (h : g.From l) (hnd : (addrs l).Nodup) {x : ℕ × Task} (hx : x ∈ l)
    (h0 : x.2.intervalCnt = 0) {k : ℕ} {called : List ℕ} (hk : g.passes[k]? = some called) :
    x.1 ∈ called ↔ x.2.period ∣ k + 1 := by
  rw [h.2, List.getElem?_map, Option.map_eq_some_iff] at hk
  obtain ⟨i, hi, rfl⟩ := hk
  obtain ⟨-, rfl⟩ := List.getElem?_eq_some_iff.mp hi
  rw [List.getElem_range, mem_dueCells_after hnd hx, Task.due_iterate h0]

theorem Log.From.counter {g : Log} (h : g.From l) {x : ℕ × Task} (hx : x ∈ l) (h0 : x.2.intervalCnt = 0) :
    ∃ c, g.c.store.heap.cell x.1 = some c ∧ c.val.interval = x.2.interval ∧
      c.val.intervalCnt ≤ c.val.interval ∧ c.val.intervalCnt.toNat + 1 < 2 ^ 32 := by
  have hafter : (x.1, Task.tick^[g.passes.length] x.2) ∈ after g.passes.length l := List.mem_map.mpr ⟨x, hx, rfl⟩
  obtain ⟨pre, post, he⟩ := List.append_of_mem hafter
  have hholds := h.1
  rw [he] at hholds
  have hcnt := Task.toNat_iterate h0 g.passes.length
  have hint := x.2.interval_iterate g.passes.length
  have hmod := Nat.mod_lt g.passes.length x.2.period_pos
  have hlt := x.2.period_lt
  have hmax : x.2.period = max x.2.interval.toNat 1 := rfl
  refine ⟨_, hholds.cell_eq, hint, ?_, ?_⟩
  · rw [UInt32.le_iff_toNat_le, hint, hcnt]
    omega
  · rw [hcnt]
    omega

/-! ### Tasks just registered -/

/-- `task_register` for each of a list of functions and intervals. -/
def registerAll (ts : List (ℕ × UInt32)) : List TaskOp := ts.map fun t => .register t.1 t.2

theorem registerAll_spec {s : Store} (hs : s.Holds l) (ts : List (ℕ × UInt32)) :
    ∃ s' new, execOps s (registerAll ts) = .ok s' ∧ s'.Holds (l ++ new) ∧
      new.map Prod.snd = ts.map fun t => ⟨t.2, 0, t.1⟩ := by
  induction ts generalizing s l with
  | nil => exact ⟨s, [], rfl, by simpa using hs, rfl⟩
  | cons t ts ih =>
    obtain ⟨s₁, hr, hs₁, -⟩ := taskRegister_spec hs t.1 t.2
    obtain ⟨s', new, hr', hs', hnew⟩ := ih hs₁
    refine ⟨s', (s.heap.top, ⟨t.2, 0, t.1⟩) :: new, ?_, ?_, ?_⟩
    · rw [registerAll, List.map_cons, execOps_cons, TaskOp.exec, hr, ok_bind]
      exact hr'
    · rwa [List.append_assoc] at hs'
    · rw [List.map_cons, hnew]
      rfl

section

variable {ts : List (ℕ × UInt32)} {new : List (ℕ × Task)}

theorem length_registered (hnew : new.map Prod.snd = ts.map fun t => ⟨t.2, 0, t.1⟩) : new.length = ts.length := by
  have hlen := congrArg List.length hnew
  rwa [List.length_map, List.length_map] at hlen

theorem registered_zero (hnew : new.map Prod.snd = ts.map fun t => ⟨t.2, 0, t.1⟩) {x : ℕ × Task} (hx : x ∈ new) :
    x.2.intervalCnt = 0 := by
  have hmem : x.2 ∈ new.map Prod.snd := List.mem_map_of_mem hx
  rw [hnew] at hmem
  obtain ⟨t, -, ht⟩ := List.mem_map.mp hmem
  rw [← ht]

end

/-- **Exact periodicity.**  Let any tasks be in the list, with any counters, and let tasks be registered behind them.
Of the calls that follow just those make a pass in which `app_comm_time_is_up` returns 1.  A task registered is called
exactly in the passes whose number is a multiple of its interval (of `1` for the interval `0`), whatever the other tasks
are; in a pass the cells called are in the order of the list, each once; and after the passes the counter is at most the
interval, so that adding one does not wrap. -/
theorem exactly_periodic (s : Store) (l : List (ℕ × Task)) (hs : s.Holds l) (ts : List (ℕ × UInt32)) (fuel : ℕ)
    (hf : l.length + ts.length ≤ fuel) (tick : UInt32) (mss : List UInt32) :
    ∃ s' new g, execOps s (registerAll ts) = .ok s' ∧ s'.Holds (l ++ new) ∧
      new.map Prod.snd = ts.map (fun t => ⟨t.2, 0, t.1⟩) ∧
      run (logStep fuel) ⟨⟨s', tick⟩, []⟩ mss = some g ∧ g.passes.length = timesUp tick mss ∧
      (∀ called ∈ g.passes, called.Sublist (addrs (l ++ new)) ∧ called.Nodup) ∧
      ∀ x ∈ new,
        (∀ k called, g.passes[k]? = some called → (x.1 ∈ called ↔ max x.2.interval.toNat 1 ∣ k + 1)) ∧
        ∃ c, g.c.store.heap.cell x.1 = some c ∧ c.val.interval = x.2.interval ∧
          c.val.intervalCnt ≤ c.val.interval ∧ c.val.intervalCnt.toNat + 1 < 2 ^ 32 := by
  obtain ⟨s', new, hr, hs', hnew⟩ := registerAll_spec hs ts
  have hlen : (l ++ new).length ≤ fuel := by
    rwa [List.length_append, length_registered hnew]
  obtain ⟨g, hg, hlog, hpasses⟩ := run_log (log_from_nil hs' tick) hlen mss
  refine ⟨s', new, g, hr, hs', hnew, hg, ?_, ?_, ?_⟩
  · rw [hpasses]
    exact Nat.zero_add _
  · intro called hc
    exact hlog.called_sublist hs'.nodup hc
  · intro x hx
    have hmem : x ∈ l ++ new := List.mem_append_right l hx
    have hzero := registered_zero hnew hx
    constructor
    · intro k called hk
      exact hlog.mem_called hs'.nodup hmem hzero hk
    · exact hlog.counter hmem hzero

/-- A task that is called every third pass, one every pass, and one whose interval is the largest; of the five calls
three make a pass. -/
theorem exactly_periodic_three : ∃ s' new g,
    execOps Store.empty (registerAll [(1, 3), (2, 0), (3, 0xffffffff)]) = .ok s' ∧ s'.Holds ([] ++ new) ∧
    new.map Prod.snd = [⟨3, 0, 1⟩, ⟨0, 0, 2⟩, ⟨0xffffffff, 0, 3⟩] ∧
    run (logStep 3) ⟨⟨s', 0⟩, []⟩ [5, 6, 6, 7, 9] = some g ∧ g.passes.length = 3 ∧
    (∀ called ∈ g.passes, called.Sublist (addrs ([] ++ new)) ∧ called.Nodup) ∧
    ∀ x ∈ new,
      (∀ k called, g.passes[k]? = some called → (x.1 ∈ called ↔ max x.2.interval.toNat 1 ∣ k + 1)) ∧
      ∃ c, g.c.store.heap.cell x.1 = some c ∧ c.val.interval = x.2.interval ∧
        c.val.intervalCnt ≤ c.val.interval ∧ c.val.intervalCnt.toNat + 1 < 2 ^ 32 :=
  exactly_periodic Store.empty [] holds_empty [(1, 3), (2, 0), (3, 0xffffffff)] 3 (by decide) 0 [5, 6, 6, 7, 9]

end Fr8012haLock.Tasks
