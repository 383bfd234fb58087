import Fr8012haLock.Tasks.Lists

/-!
# A pass while the list of tasks changes

The functions called in a pass may register and unregister tasks.  A visit goes on with the cell behind the one visited
as long as that is still there; it is, unless the function called from it has unregistered it (`visit_spec`).  So a pass
reads no freed cell and visits every task that stays in the list once, exactly when no function called unregisters the
task it is called from (`pass_sound_iff`).
-/

namespace Fr8012haLock.Tasks

open LinkedList

/-! ### Calls while a cell is visited -/

/-- `l'` is what is left of `l`, and behind it entries with addresses from `top` on. -/
def Grown (top : ℕ) (l l' : List (ℕ × Task)) : Prop :=
  ∃ old new, l' = old ++ new ∧ old.Sublist l ∧ ∀ y ∈ new, top ≤ y.1

variable {top top' : ℕ} {l l' l'' before after : List (ℕ × Task)} {x : ℕ × Task}

theorem Grown.refl (top : ℕ) (l : List (ℕ × Task)) : Grown top l l := ⟨l, [], by simp, .refl l, by simp⟩

theorem grown_of_sublist (h : l'.Sublist l) : Grown top l l' := ⟨l', [], by simp, h, by simp⟩

theorem Grown.trans (h : Grown top l l') (h' : Grown top' l' l'') (ht : top ≤ top') : Grown top l l'' := by
  obtain ⟨old, new, rfl, hold, hnew⟩ := h
  obtain ⟨old', new', rfl, hold', hnew'⟩ := h'
  obtain ⟨o, n, rfl, ho, hn⟩ := List.sublist_append_iff.mp hold'
  refine ⟨o, n ++ new', by simp, ho.trans hold, ?_⟩
  intro y hy
  rcases List.mem_append.mp hy with hy | hy
  · exact hnew y (hn.subset hy)
  · exact ht.trans (hnew' y hy)

theorem Grown.tail (h : Grown top l (x :: after)) : Grown top l.tail after := by
  obtain ⟨old, new, he, hold, hnew⟩ := h
  cases old with
  | nil =>
    rw [List.nil_append] at he
    exact ⟨[], after, rfl, List.nil_sublist _, fun y hy => hnew y (he ▸ List.mem_cons_of_mem _ hy)⟩
  | cons z old =>
    injection he with hz he
    exact ⟨old, new, he, hold.tail, hnew⟩

theorem TaskOp.grown_onList (op : TaskOp) (a : ℕ) (l : List (ℕ × Task)) : Grown a l (op.onList a l) := by
  cases op with
  | register func interval => exact ⟨l, _, rfl, .refl l, by simp⟩
  | unregister func => exact grown_of_sublist (List.eraseP_sublist ..)

theorem exec_of_not_asserts {s : Store} {op : TaskOp} (h : ¬ Asserts s op) : op.exec s = .error .assertion := by
  cases op with
  | register func interval => exact absurd trivial h
  | unregister func =>
    rw [TaskOp.exec, taskUnregister]
    by_cases hf : func = 0
    · rw [if_pos hf]
    · have hhead : s.taskHead = none := by
        by_contra hne
        exact h ⟨hf, hne⟩
      rw [if_neg hf, hhead]

theorem execOps_cons (s : Store) (op : TaskOp) (ops : List TaskOp) :
    execOps s (op :: ops) = op.exec s >>= fun s' => execOps s' ops := rfl

theorem execOps_spec {s : Store} (hs : s.Holds l) (ops : List TaskOp) :
    execOps s ops = .error .assertion ∨
      ∃ s' l', execOps s ops = .ok s' ∧ s'.Holds l' ∧ Grown s.heap.top l l' ∧ s.heap.top ≤ s'.heap.top := by
  induction ops generalizing s l with
  | nil => exact Or.inr ⟨s, l, rfl, hs, .refl _ l, le_rfl⟩
  | cons op ops ih =>
    rw [execOps_cons]
    by_cases ha : Asserts s op
    · obtain ⟨s₁, hr, hs₁, ht₁⟩ := execOp_spec hs ha
      rw [hr, ok_bind]
      rcases ih hs₁ with he | ⟨s', l', he, hs', hg, ht⟩
      · exact Or.inl he
      · exact Or.inr ⟨s', l', he, hs', (op.grown_onList _ l).trans hg ht₁, ht₁.trans ht⟩
    · rw [exec_of_not_asserts ha]
      exact Or.inl rfl

/-- A cell that is not in the list, though its address was given out, does not come back. -/
theorem execOps_gone {s : Store} (hs : s.Holds l) {a : ℕ} (hgone : a ∉ addrs l) (ha : a < s.heap.top)
    (ops : List TaskOp) : execOps s ops = .error .assertion ∨
      ∃ s', execOps s ops = .ok s' ∧ s.heap.top ≤ s'.heap.top ∧ s'.heap.cell a = none := by
  rcases execOps_spec hs ops with hf | ⟨s', l', hr, hs', ⟨old, new, rfl, hold, hnew⟩, ht⟩
  · exact Or.inl hf
  · refine Or.inr ⟨s', hr, ht, ?_⟩
    by_contra hne
    have hm := hs'.covers a hne
    rw [addrs, List.map_append, List.mem_append] at hm
    rcases hm with hm | hm
    · exact hgone ((hold.map Prod.fst).subset hm)
    · obtain ⟨y, hy, hya⟩ := List.mem_map.mp hm
      have hge := hnew y hy
      omega

/-- How often a function is registered. -/
def occurrences (func : ℕ) (l : List (ℕ × Task)) : ℕ := l.countP fun x => x.2.taskProcess = func

/-- A call does not take the cell of `x` out, unless it unregisters its function and that is not registered in front
of it. -/
theorem onList_cursor (op : TaskOp) (a : ℕ) (after : List (ℕ × Task))
    (h : op = .unregister x.2.taskProcess → occurrences x.2.taskProcess before ≠ 0) :
    ∃ before' after', op.onList a (before ++ x :: after) = before' ++ x :: after' ∧ before'.Sublist before ∧
      Grown a after after' ∧ occurrences x.2.taskProcess before =
        occurrences x.2.taskProcess before' + if op = .unregister x.2.taskProcess then 1 else 0 := by
  cases op with
  | register func interval =>
    refine ⟨before, after ++ [(a, ⟨interval, 0, func⟩)], by simp [TaskOp.onList], .refl _, ?_, rfl⟩
    exact ⟨after, _, rfl, .refl _, by simp⟩
  | unregister func =>
    rw [TaskOp.onList]
    by_cases hex : ∃ y ∈ before, y.2.taskProcess = func
    · obtain ⟨y, hy, hpy⟩ := hex
      have hpy' : decide (y.2.taskProcess = func) = true := decide_eq_true hpy
      obtain ⟨z, pre, post, -, hz, rfl, he⟩ := List.exists_of_eraseP (p := fun x : ℕ × Task =>
        decide (x.2.taskProcess = func)) hy hpy'
      refine ⟨pre ++ post, after, ?_, ?_, .refl _ _, ?_⟩
      · rw [List.eraseP_append_left (p := fun x : ℕ × Task => decide (x.2.taskProcess = func)) hpy' _ hy, he]
      · exact (List.Sublist.refl pre).append (List.sublist_cons_self z post)
      · have hzf : z.2.taskProcess = func := of_decide_eq_true hz
        simp [occurrences, List.countP_cons, hzf, Nat.add_assoc, eq_comm]
    · have hno : ∀ y ∈ before, ¬ decide (y.2.taskProcess = func) = true := fun y hy hpy =>
        hex ⟨y, hy, of_decide_eq_true hpy⟩
      have hx : x.2.taskProcess ≠ func := by
        rintro rfl
        refine h rfl (List.countP_eq_zero.mpr hno)
      refine ⟨before, after.eraseP fun y => y.2.taskProcess = func, ?_, .refl _, grown_of_sublist
        (List.eraseP_sublist ..), ?_⟩
      · rw [List.eraseP_append_right _ hno, List.eraseP_cons_of_neg (by simp [hx])]
      · simp [hx.symm]

theorem onList_own (hnd : (addrs (before ++ x :: after)).Nodup) (a : ℕ)
    (h : occurrences x.2.taskProcess before = 0) :
    x.1 ∉ addrs ((TaskOp.unregister x.2.taskProcess).onList a (before ++ x :: after)) := by
  have hno : ∀ y ∈ before, ¬ decide (y.2.taskProcess = x.2.taskProcess) = true := List.countP_eq_zero.mp h
  rw [TaskOp.onList, List.eraseP_append_right _ hno, List.eraseP_cons_of_pos (by simp)]
  rw [addrs, List.map_append, List.map_cons, List.nodup_append] at hnd
  obtain ⟨-, hx, hdis⟩ := hnd
  rw [addrs, List.map_append, List.mem_append]
  rintro (hm | hm)
  · exact hdis _ hm _ List.mem_cons_self rfl
  · exact (List.nodup_cons.mp hx).1 hm

/-- **Calls made while the cell of `x` is visited** take it out if and only if they unregister its function more often
than it is registered in front of it. -/
theorem execOps_cursor {s : Store} (hs : s.Holds (before ++ x :: after)) (ops : List TaskOp) :
    execOps s ops = .error .assertion ∨ ∃ s', execOps s ops = .ok s' ∧ s.heap.top ≤ s'.heap.top ∧
      if ops.count (.unregister x.2.taskProcess) ≤ occurrences x.2.taskProcess before then
        ∃ before' after', s'.Holds (before' ++ x :: after') ∧ before'.Sublist before ∧ Grown s.heap.top after after'
      else s'.heap.cell x.1 = none := by
  induction ops generalizing s before after with
  | nil => exact Or.inr ⟨s, rfl, le_rfl, before, after, hs, .refl _, .refl _ _⟩
  | cons op ops ih =>
    rw [execOps_cons]
    by_cases ha : Asserts s op
    · obtain ⟨s₁, hr, hs₁, ht₁⟩ := execOp_spec hs ha
      rw [hr, ok_bind]
      by_cases hown : op = .unregister x.2.taskProcess → occurrences x.2.taskProcess before ≠ 0
      · obtain ⟨before₁, after₁, he, hb, hg, hocc⟩ := onList_cursor op s.heap.top after hown
        rw [he] at hs₁
        rcases ih hs₁ with hf | ⟨s', hr', ht', h⟩
        · exact Or.inl hf
        · refine Or.inr ⟨s', hr', ht₁.trans ht', ?_⟩
          have hcount : (op :: ops).count (.unregister x.2.taskProcess) ≤ occurrences x.2.taskProcess before ↔
              ops.count (.unregister x.2.taskProcess) ≤ occurrences x.2.taskProcess before₁ := by
            rw [List.count_cons, hocc]
            by_cases hop : op = .unregister x.2.taskProcess
            · simp [hop]
            · simp [hop]
          simp only [hcount]
          split at h
          · obtain ⟨before', after', hs', hb', hg'⟩ := h
            rw [if_pos ‹_›]
            exact ⟨before', after', hs', hb'.trans hb, hg.trans hg' ht₁⟩
          · rwa [if_neg ‹_›]
      · -- the call takes the cell out, and no later one can bring it back
        rw [Classical.not_imp, not_not] at hown
        obtain ⟨rfl, hzero⟩ := hown
        have hgone := onList_own hs.nodup s.heap.top hzero
        have hx : x.1 < s.heap.top := hs.lt_top (by simp)
        rcases execOps_gone hs₁ hgone (hx.trans_le ht₁) ops with hf | ⟨s', hr', ht', hcell⟩
        · exact Or.inl hf
        · refine Or.inr ⟨s', hr', ht₁.trans ht', ?_⟩
          rwa [if_neg (by rw [List.count_cons_self, hzero]; omega)]
    · rw [exec_of_not_asserts ha]
      exact Or.inl rfl

/-! ### One visit -/

/-- The function called in the next visit, if one is, unregisters itself at most as often as it is registered in front
of the cell it is called from.  A function registered only once does not unregister itself. -/
def KeepsOwn (acts : ℕ → List TaskOp) (p : Pass) : Prop :=
  ∀ before x after, p.store.Holds (before ++ x :: after) → p.temp = some x.1 → x.2.due →
    (acts p.called.length).count (.unregister x.2.taskProcess) ≤ occurrences x.2.taskProcess before

variable {acts : ℕ → List TaskOp} {p : Pass}

theorem keepsOwn_iff (hs : p.store.Holds (before ++ x :: after)) (ht : p.temp = some x.1) : KeepsOwn acts p ↔
    (x.2.due → (acts p.called.length).count (.unregister x.2.taskProcess) ≤ occurrences x.2.taskProcess before) := by
  constructor
  · intro h
    exact h before x after hs ht
  · intro h before' y after' hs' ht'
    have hxy : x.1 = y.1 := Option.some.inj (ht.symm.trans ht')
    have hne : ∀ {l m : List (ℕ × Task)} {z : ℕ × Task}, p.store.Holds (l ++ z :: m) →
        (l ++ z :: m).takeWhile (fun w => w.1 ≠ z.1) = l := by
      intro l m z hz
      have hl : ∀ w ∈ l, decide (w.1 ≠ z.1) = true := fun w hw =>
        decide_eq_true (hz.ne_of_mem.1 w.1 (List.mem_map_of_mem hw))
      rw [List.takeWhile_append_of_pos hl, List.takeWhile_cons_of_neg (by simp), List.append_nil]
    have hlist := hs.unique hs'
    obtain rfl : before = before' := by rw [← hne hs, ← hne hs', hlist, hxy]
    have hxy' : x = y := by
      have := List.append_cancel_left hlist
      injection this
    exact hxy' ▸ h

/-- **What a visit does.**  It goes on with the cell behind, as it then is; or it reads the freed cell, exactly when the
function called has unregistered itself. -/
theorem visit_spec (acts : ℕ → List TaskOp) (hs : p.store.Holds (before ++ x :: after)) (ht : p.temp = some x.1) :
    visit acts p = .error .assertion ∨
    (KeepsOwn acts p ∧ ∃ s' before' after' called,
      visit acts p = .ok ⟨s', first after', p.visited ++ [x.1], called⟩ ∧
      s'.Holds (before' ++ (x.1, x.2.tick) :: after') ∧ before'.Sublist before ∧
      Grown p.store.heap.top after after' ∧ p.store.heap.top ≤ s'.heap.top) ∨
    (¬ KeepsOwn acts p ∧ visit acts p = .error .freed) := by
  have hset := hs.tick
  have hcell : p.store.heap.cell x.1 = some ⟨x.2, first after⟩ := hs.cell_eq
  rw [keepsOwn_iff hs ht, visit, ht]
  simp only [readTask_eq hcell, ok_bind]
  by_cases hd : x.2.due
  · rw [if_pos hd]
    rcases execOps_cursor (x := (x.1, x.2.tick)) hset (acts p.called.length) with he | ⟨s', he, htop, h⟩
    · exact Or.inl (by rw [he]; rfl)
    · rw [he]
      simp only [ok_bind]
      split at h
      · obtain ⟨before', after', hs', hb, hg⟩ := h
        refine Or.inr (Or.inl ⟨fun _ => ‹_›, s', before', after', p.called ++ [x.1], ?_, hs', hb, hg, htop⟩)
        rw [readTask_eq hs'.cell_eq]
        rfl
      · refine Or.inr (Or.inr ⟨fun hk => ‹¬ _› (hk hd), ?_⟩)
        rw [readTask, h]
        rfl
  · rw [if_neg hd]
    refine Or.inr (Or.inl ⟨fun h => absurd h hd, _, before, after, p.called, ?_, hset, .refl _, .refl _ _, le_rfl⟩)
    simp only [ok_bind, readTask_eq hset.cell_eq]

/-! ### A whole pass -/

/-- After `n` visits of a pass over `l`: the cells of the list before `temp` have been visited once, the others not, and
of those that were in the list at the beginning only the ones from the index `n` on are left among them. -/
def Progress (l : List (ℕ × Task)) (top n : ℕ) (p : Pass) : Prop :=
  ∃ before rest, p.store.Holds (before ++ rest) ∧ p.temp = first rest ∧ (∀ a ∈ addrs before, p.visited.count a = 1) ∧
    (∀ a ∈ addrs rest, p.visited.count a = 0) ∧ (∀ a ∈ p.visited, a < p.store.heap.top) ∧
    Grown top (l.drop n) rest ∧ top ≤ p.store.heap.top

theorem progress_start {s : Store} (hs : s.Holds l) : Progress l s.heap.top 0 (Pass.start s) :=
  ⟨[], l, hs, hs.first_eq, by simp, by simp [Pass.start], by simp [Pass.start], .refl _ _, le_rfl⟩

section Counts

variable {s : Store} {visited : List ℕ} {before' after' : List (ℕ × Task)}

theorem count_before (hs : s.Holds (before ++ x :: after)) (hb : ∀ a ∈ addrs before, visited.count a = 1)
    (hr : ∀ a ∈ addrs (x :: after), visited.count a = 0) (hsub : before'.Sublist before) (t : Task) :
    ∀ a ∈ addrs (before' ++ [(x.1, t)]), (visited ++ [x.1]).count a = 1 := by
  intro a ha
  rw [List.count_append]
  rw [addrs, List.map_append, List.mem_append] at ha
  rcases ha with ha | ha
  · have hmem : a ∈ addrs before := (hsub.map Prod.fst).subset ha
    have hne : a ≠ x.1 := hs.ne_of_mem.1 a hmem
    rw [hb a hmem, List.count_singleton, if_neg (by simpa using hne.symm)]
  · obtain rfl : a = x.1 := by simpa using ha
    rw [hr x.1 (by simp), List.count_singleton_self]

theorem count_after (hs : s.Holds (before ++ x :: after)) (hr : ∀ a ∈ addrs (x :: after), visited.count a = 0)
    (hv : ∀ a ∈ visited, a < s.heap.top) (hg : Grown s.heap.top after after') :
    ∀ a ∈ addrs after', (visited ++ [x.1]).count a = 0 := by
  intro a ha
  have hx : x.1 < s.heap.top := hs.lt_top (by simp)
  obtain ⟨old, new, rfl, hold, hnew⟩ := hg
  rw [List.count_append, Nat.add_eq_zero_iff]
  rw [addrs, List.map_append, List.mem_append] at ha
  rcases ha with ha | ha
  · have hmem : a ∈ addrs after := (hold.map Prod.fst).subset ha
    have hne : a ≠ x.1 := hs.ne_of_mem.2 a hmem
    refine ⟨hr a (List.mem_cons_of_mem _ hmem), ?_⟩
    rw [List.count_singleton, if_neg (by simpa using hne.symm)]
  · obtain ⟨y, hy, rfl⟩ := List.mem_map.mp ha
    have hge := hnew y hy
    rw [List.count_eq_zero, List.count_eq_zero]
    constructor
    · intro hmem
      have := hv y.1 hmem
      omega
    · intro hmem
      have := List.mem_singleton.mp hmem
      omega

end Counts

theorem Progress.visit {n : ℕ} (h : Progress l top n p) (acts : ℕ → List TaskOp) :
    Tasks.visit acts p = .error .assertion ∨
    (KeepsOwn acts p ∧ ∃ p', Tasks.visit acts p = .ok p' ∧ Progress l top (n + 1) p') ∨
    (¬ KeepsOwn acts p ∧ Tasks.visit acts p = .error .freed) := by
  obtain ⟨before, rest, hs, ht, hb, hr, hv, hg, htop⟩ := h
  cases rest with
  | nil =>
    refine Or.inr (Or.inl ⟨?_, p, ?_, before, [], hs, ht, hb, hr, hv, ?_, htop⟩)
    · intro before x after _ hx
      rw [ht] at hx
      cases hx
    · rw [Tasks.visit, ht]
      rfl
    · exact ⟨[], [], rfl, List.nil_sublist _, by simp⟩
  | cons x after =>
    rcases visit_spec acts hs ht with he | ⟨hk, s', before', after', called, he, hs', hb', hg', ht'⟩ | hf
    · exact Or.inl he
    · have hcount := count_before hs hb hr hb' x.2.tick
      have hzero := count_after hs hr hv hg'
      refine Or.inr (Or.inl ⟨hk, _, he, before' ++ [(x.1, x.2.tick)], after', ?_, rfl, hcount, hzero, ?_, ?_,
        htop.trans ht'⟩)
      · rwa [List.append_assoc]
      · intro a ha
        rcases List.mem_append.mp ha with ha | ha
        · exact (hv a ha).trans_le ht'
        · rw [List.mem_singleton.mp ha]
          exact (hs.lt_top (by simp)).trans_le ht'
      · have htail := hg.tail
        rw [List.tail_drop] at htail
        exact htail.trans hg' htop
    · exact Or.inr (Or.inr hf)

/-- The visited cells that were in the list at the beginning, and still are, have been visited once. -/
theorem Progress.count {s : Store} {n i : ℕ} (hs : s.Holds l) (h : Progress l s.heap.top n p) (hi : i < n)
    (hx : l[i]? = some x) (hc : p.store.heap.cell x.1 ≠ none) : p.visited.count x.1 = 1 := by
  obtain ⟨before, rest, hs', -, hb, -, -, ⟨old, new, rfl, hold, hnew⟩, -⟩ := h
  have hmem := hs'.covers x.1 hc
  rw [addrs, List.map_append, List.mem_append] at hmem
  rcases hmem with hm | hm
  · exact hb x.1 hm
  · exfalso
    rw [List.map_append, List.mem_append] at hm
    rcases hm with hm | hm
    · -- the cells left of the list are behind the index `n`
      have hdrop : x.1 ∈ (addrs l).drop n := by
        rw [addrs, ← List.map_drop]
        exact (hold.map Prod.fst).subset hm
      have htake : x.1 ∈ (addrs l).take n := by
        refine List.mem_of_getElem? (i := i) ?_
        rw [List.getElem?_take_of_lt hi, List.getElem?_map, hx]
        rfl
      have hnd := hs.nodup
      rw [← List.take_append_drop n (addrs l), List.nodup_append] at hnd
      exact hnd.2.2 _ htake _ hdrop rfl
    · obtain ⟨y, hy, hyx⟩ := List.mem_map.mp hm
      have hge := hnew y hy
      have hlt := hs.lt_top (List.mem_map_of_mem (List.mem_of_getElem? hx))
      omega

theorem visits_succ (acts : ℕ → List TaskOp) (n : ℕ) (p : Pass) :
    visits acts (n + 1) p = visits acts n p >>= visit acts := by
  induction n generalizing p with
  | zero =>
    show (Tasks.visit acts p >>= fun p' => .ok p') = Tasks.visit acts p
    cases Tasks.visit acts p <;> rfl
  | succ n ih =>
    rw [visits]
    cases hv : Tasks.visit acts p with
    | error e => rw [visits, hv]; rfl
    | ok p' => rw [ok_bind, ih, visits, hv]; rfl

theorem visits_of_done {p' : Pass} {n m : ℕ} (h : visits acts n p = .ok p') (ht : p'.temp = none) (hle : n ≤ m) :
    visits acts m p = .ok p' := by
  induction m, hle using Nat.le_induction with
  | base => exact h
  | succ m _ ih => rw [visits_succ, ih, ok_bind, Tasks.visit, ht]

theorem progress_of_visits {s : Store} (hs : s.Holds l) {n : ℕ} (hp : visits acts n (Pass.start s) = .ok p) :
    Progress l s.heap.top n p := by
  induction n generalizing p with
  | zero =>
    injection hp with hp
    exact hp ▸ progress_start hs
  | succ n ih =>
    rw [visits_succ] at hp
    cases hn : visits acts n (Pass.start s) with
    | error e =>
      rw [hn] at hp
      cases hp
    | ok p₀ =>
      rw [hn, ok_bind] at hp
      rcases (ih hn).visit acts with he | ⟨-, p', he, hpr⟩ | ⟨-, he⟩
      · cases he.symm.trans hp
      · injection he.symm.trans hp with heq
        exact heq ▸ hpr
      · cases he.symm.trans hp

/-- **When a pass is sound.**  If the functions called never run into an assertion, a pass reads no freed cell, and has
visited every task of the list once that is still there when its turn has come, exactly when each function called keeps
the cell it is called from. -/
theorem pass_sound_iff (s : Store) (l : List (ℕ × Task)) (hs : s.Holds l) (acts : ℕ → List TaskOp)
    (ha : ∀ n, visits acts n (Pass.start s) ≠ .error .assertion) :
    (∀ n, ∃ p, visits acts n (Pass.start s) = .ok p ∧
      ∀ i < n, ∀ x, l[i]? = some x → p.store.heap.cell x.1 ≠ none → p.visited.count x.1 = 1) ↔
    ∀ n p, visits acts n (Pass.start s) = .ok p → KeepsOwn acts p := by
  have hnext : ∀ {n p}, visits acts n (Pass.start s) = .ok p →
      visits acts (n + 1) (Pass.start s) = Tasks.visit acts p := fun {n p} hp => by rw [visits_succ, hp, ok_bind]
  constructor
  · intro h n p hp
    obtain ⟨p', hp', -⟩ := h (n + 1)
    rw [hnext hp] at hp'
    rcases (progress_of_visits hs hp).visit acts with he | ⟨hk, -⟩ | ⟨-, he⟩
    · cases he.symm.trans hp'
    · exact hk
    · cases he.symm.trans hp'
  · intro h n
    have hok : ∃ p, visits acts n (Pass.start s) = .ok p := by
      induction n with
      | zero => exact ⟨_, rfl⟩
      | succ n ih =>
        obtain ⟨p, hp⟩ := ih
        rcases (progress_of_visits hs hp).visit acts with he | ⟨-, p', he, -⟩ | ⟨hk, -⟩
        · exact absurd ((hnext hp).trans he) (ha (n + 1))
        · exact ⟨p', (hnext hp).trans he⟩
        · exact absurd (h n p hp) hk
    obtain ⟨p, hp⟩ := hok
    exact ⟨p, hp, fun i hi x hx hc => (progress_of_visits hs hp).count hs hi hx hc⟩

/-- Two tasks, of which the first is due every pass. -/
def twoTasks : List TaskOp := [.register 1 0, .register 2 0]

/-- A function that unregisters its successor. -/
theorem pass_sound_iff_successor : ∃ s l, execOps Store.empty twoTasks = .ok s ∧ s.Holds l ∧
    ((∀ n, ∃ p, visits (fun _ => [.unregister 2]) n (Pass.start s) = .ok p ∧
      ∀ i < n, ∀ x, l[i]? = some x → p.store.heap.cell x.1 ≠ none → p.visited.count x.1 = 1) ↔
    ∀ n p, visits (fun _ => [.unregister 2]) n (Pass.start s) = .ok p → KeepsOwn (fun _ => [.unregister 2]) p) := by
  obtain ⟨s₁, hr₁, hs₁, -⟩ := taskRegister_spec holds_empty 1 0
  obtain ⟨s, hr, hs, -⟩ := taskRegister_spec hs₁ 2 0
  have hexec : execOps Store.empty twoTasks = .ok s := by
    rw [twoTasks, execOps_cons, TaskOp.exec, hr₁, ok_bind, execOps_cons, TaskOp.exec, hr]
    rfl
  have hdone : (execOps Store.empty twoTasks >>= fun s =>
      (visits (fun _ => [.unregister 2]) 1 (Pass.start s)).map Pass.temp) = .ok none := rfl
  rw [hexec, ok_bind] at hdone
  refine ⟨s, _, hexec, hs, pass_sound_iff s _ hs _ ?_⟩
  intro n hn
  cases hp : visits (fun _ => [.unregister 2]) 1 (Pass.start s) with
  | error e =>
    rw [hp] at hdone
    cases hdone
  | ok p =>
    rw [hp] at hdone
    injection hdone with ht
    cases n with
    | zero => cases hn
    | succ n => cases hn.symm.trans (visits_of_done hp ht (Nat.le_add_left 1 n))

/-- A function that unregisters itself: the visit goes on from the freed cell. -/
theorem unregisters_itself :
    (execOps Store.empty twoTasks >>= fun s => visits (fun _ => [.unregister 1]) 1 (Pass.start s)) = .error .freed := by
  rfl

end Fr8012haLock.Tasks
