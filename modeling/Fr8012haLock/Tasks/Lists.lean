import Fr8012haLock.Tasks.Defs

/-!
# The list of tasks

`s.Holds l` says that the cells of the heap are those of the list `l` that starts at `task_head`.  Registering appends
a task and unregistering removes the first one with the function (`execOp_spec`), in any order and number
(`task_ops_refine`).
-/

namespace Fr8012haLock.Tasks

open LinkedList Runs

/-- The cells allocated are those of the list, in order. -/
def Store.Holds (s : Store) (l : List (ℕ × Task)) : Prop := Lists s.heap s.taskHead l

theorem holds_empty : Store.empty.Holds [] := lists_empty

theorem Store.Holds.tick {s : Store} {l m : List (ℕ × Task)} {x : ℕ × Task} (hs : s.Holds (l ++ x :: m)) :
    (s.tick x.1).Holds (l ++ (x.1, x.2.tick) :: m) := hs.mapVal Task.tick

/-- What a call does to the list; `a` is the address of a new cell. -/
def TaskOp.onList (a : ℕ) (l : List (ℕ × Task)) : TaskOp → List (ℕ × Task)
  | .register func interval => l ++ [(a, ⟨interval, 0, func⟩)]
  | .unregister func => l.eraseP fun x => x.2.taskProcess = func

/-- What a call is for: a list of tasks, without their addresses. -/
def TaskOp.onTasks (ts : List Task) : TaskOp → List Task
  | .register func interval => ts ++ [⟨interval, 0, func⟩]
  | .unregister func => ts.eraseP fun t => t.taskProcess = func

theorem TaskOp.map_onList (op : TaskOp) (a : ℕ) (l : List (ℕ × Task)) :
    (op.onList a l).map Prod.snd = op.onTasks (l.map Prod.snd) := by
  cases op with
  | register func interval => simp [onList, onTasks]
  | unregister func => rw [onList, onTasks, List.eraseP_map]; rfl

@[simp] theorem ok_bind {β γ : Type} (b : β) (f : β → Except Fault γ) : (Except.ok b >>= f) = f b := rfl

section Loops

variable {h : Heap Task} {l m : List (ℕ × Task)} {x y : ℕ × Task} {q : Option ℕ}

theorem readTask_eq {a : ℕ} {c : Cell Task} (hc : h.cell a = some c) : readTask h a = .ok c := by rw [readTask, hc]

theorem lastTask_spec {a : ℕ} (fuel : ℕ) (hs : Seg h (some a) (l ++ [x]) none) (hf : l.length < fuel) :
    lastTask h fuel a = .ok x.1 := by
  induction fuel generalizing a l with
  | zero => omega
  | succ fuel ih =>
    cases l with
    | nil =>
      obtain ⟨ha, n, hn, rfl⟩ := hs
      injection ha with ha
      subst ha
      rw [lastTask, readTask_eq hn]
      rfl
    | cons y l =>
      obtain ⟨ha, n, hn, hl⟩ := hs
      injection ha with ha
      subst ha
      obtain ⟨b, rfl⟩ : ∃ b, n = some b := by
        rw [hl.first_eq]
        cases l <;> exact ⟨_, rfl⟩
      rw [lastTask, readTask_eq hn]
      exact ih hl (by simp at hf; omega)

theorem findBefore_spec {a fuel : ℕ} (func : ℕ) (hs : Seg h (some a) (l ++ x :: m) none) (hf : l.length < fuel)
    (hl : ∀ y ∈ (l ++ [x]).tail, y.2.taskProcess ≠ func) (hm : ∀ y ∈ m.head?, y.2.taskProcess = func) :
    findBefore h func fuel a = .ok x.1 := by
  induction fuel generalizing a l with
  | zero => omega
  | succ fuel ih =>
    cases l with
    | nil =>
      obtain ⟨ha, n, hn, hn'⟩ := hs
      injection ha with ha
      subst ha
      rw [findBefore, readTask_eq hn]
      cases m with
      | nil =>
        subst hn'
        rfl
      | cons z m =>
        obtain ⟨rfl, n', hn', -⟩ := hn'
        have hz := hm z rfl
        rw [ok_bind]
        simp only [readTask_eq hn', ok_bind, hz, ne_eq, not_true_eq_false, if_false]
    | cons y l =>
      obtain ⟨ha, n, hn, hrest⟩ := hs
      injection ha with ha
      subst ha
      have hseg : Seg h n (l ++ x :: m) none := hrest
      rw [findBefore, readTask_eq hn, ok_bind]
      -- the next cell has another function, so the loop goes on there
      obtain ⟨z, t, hz, hfun⟩ : ∃ z t, l ++ x :: m = z :: t ∧ z.2.taskProcess ≠ func := by
        cases l with
        | nil => exact ⟨x, m, rfl, hl x (by simp)⟩
        | cons z l => exact ⟨z, l ++ x :: m, rfl, hl z (by simp)⟩
      rw [hz] at hseg
      obtain ⟨rfl, n', hn', -⟩ := hseg
      simp only [readTask_eq hn', ok_bind, if_pos hfun]
      refine ih hrest (by simp at hf; omega) fun w hw => hl w ?_
      exact List.mem_of_mem_tail hw

end Loops

variable {s : Store} {l : List (ℕ × Task)}

theorem taskRegister_spec (hs : s.Holds l) (func : ℕ) (interval : UInt32) :
    ∃ s', taskRegister s func interval = .ok s' ∧ s'.Holds (l ++ [(s.heap.top, ⟨interval, 0, func⟩)]) ∧
      s'.heap.top = s.heap.top + 1 := by
  have hfirst := hs.first_eq
  rcases List.eq_nil_or_concat' l with rfl | ⟨l, x, rfl⟩
  · rw [taskRegister, hfirst]
    exact ⟨_, rfl, hs.push_first _, rfl⟩
  · obtain ⟨a, ha⟩ : ∃ a, first (l ++ [x]) = some a := by cases l <;> exact ⟨_, rfl⟩
    rw [ha] at hfirst
    have hlen := hs.length_le
    rw [List.length_append, List.length_singleton] at hlen
    have hseg : Seg (s.heap.alloc ⟨⟨interval, 0, func⟩, none⟩).1 (some a) (l ++ [x]) none := by
      rw [← hfirst]
      exact hs.seg.frame fun b hb => s.heap.cell_alloc_of_ne _ (hs.lt_top hb).ne
    have hlast := lastTask_spec (s.heap.top + 1) hseg (by omega)
    have hpush := hs.push ⟨interval, 0, func⟩
    rw [show l ++ [x, (s.heap.top, ⟨interval, 0, func⟩)] = l ++ [x] ++ [(s.heap.top, ⟨interval, 0, func⟩)] by simp]
      at hpush
    refine ⟨⟨_, s.taskHead⟩, ?_, hpush, rfl⟩
    rw [taskRegister, hfirst]
    simp only [Heap.top_alloc, Heap.alloc_snd, hlast, ok_bind]
    rfl

theorem exists_eraseP_split {β : Type} (p : β → Bool) (l : List β) :
    ∃ pre post, l = pre ++ post ∧ (∀ y ∈ pre, ¬ p y) ∧ (∀ y ∈ post.head?, p y) ∧ l.eraseP p = pre ++ post.tail := by
  by_cases hex : ∃ y ∈ l, p y
  · obtain ⟨y, hy, hpy⟩ := hex
    obtain ⟨z, pre, post, hpre, hz, hl, he⟩ := List.exists_of_eraseP hy hpy
    exact ⟨pre, z :: post, hl, hpre, by simpa using hz, he⟩
  · have hno : ∀ y ∈ l, ¬ p y := fun y hy hpy => hex ⟨y, hy, hpy⟩
    exact ⟨l, [], by simp, hno, by simp, by rw [List.eraseP_of_forall_not hno]; simp⟩

section Unregister

variable {func : ℕ} {x : ℕ × Task} {pre post : List (ℕ × Task)}

theorem taskUnregister_head (hs : s.Holds (x :: l)) (hf : func ≠ 0) (hx : x.2.taskProcess = func) :
    ∃ s', taskUnregister s func = .ok s' ∧ s'.Holds l ∧ s'.heap.top = s.heap.top := by
  have hhead : s.taskHead = some x.1 := hs.first_eq
  have hcell : s.heap.cell x.1 = some ⟨x.2, first l⟩ := Lists.cell_eq (l := []) hs
  refine ⟨⟨s.heap.free x.1, first l⟩, ?_, hs.unlink_head, rfl⟩
  rw [taskUnregister, if_neg hf, hhead]
  simp only [readTask_eq hcell, ok_bind]
  rw [if_pos hx]

theorem taskUnregister_behind (hs : s.Holds (x :: (pre ++ post))) (hf : func ≠ 0) (hx : x.2.taskProcess ≠ func)
    (hpre : ∀ y ∈ pre, y.2.taskProcess ≠ func) (hpost : ∀ y ∈ post.head?, y.2.taskProcess = func) :
    ∃ s', taskUnregister s func = .ok s' ∧ s'.Holds (x :: (pre ++ post.tail)) ∧ s'.heap.top = s.heap.top := by
  have hhead : s.taskHead = some x.1 := hs.first_eq
  have hcell : s.heap.cell x.1 = some ⟨x.2, first (pre ++ post)⟩ := Lists.cell_eq (l := []) hs
  -- `y` is the cell in front of the first with the function
  obtain ⟨t, y, hy⟩ : ∃ t y, x :: pre = t ++ [y] :=
    (List.eq_nil_or_concat' (x :: pre)).resolve_left (List.cons_ne_nil _ _)
  have hsplit : ∀ rest, x :: (pre ++ rest) = t ++ y :: rest := by
    intro rest
    rw [← List.cons_append, hy, List.append_assoc]
    rfl
  have hs' : Lists s.heap s.taskHead (t ++ y :: post) := hsplit post ▸ hs
  have hseg : Seg s.heap (some x.1) (t ++ y :: post) none := hhead ▸ hs'.seg
  have ht : t.length < s.heap.top := by
    have hlen := hs'.length_le
    rw [List.length_append, List.length_cons] at hlen
    omega
  have hfind := findBefore_spec func hseg ht (by rwa [← hy, List.tail_cons]) hpost
  rw [taskUnregister, if_neg hf, hhead]
  simp only [readTask_eq hcell, ok_bind]
  rw [if_neg hx, hfind, ok_bind, readTask_eq hs'.cell_eq, ok_bind]
  cases post with
  | nil => exact ⟨s, rfl, hs, rfl⟩
  | cons z m =>
    have hz : s.heap.cell z.1 = some ⟨z.2, first m⟩ := by
      have hs'' : Lists s.heap s.taskHead ((t ++ [y]) ++ z :: m) := by rwa [List.append_assoc]
      exact hs''.cell_eq
    have hun := hs'.unlink
    rw [← hsplit m] at hun
    refine ⟨⟨_, s.taskHead⟩, ?_, hun, rfl⟩
    simp only [first_cons, readTask_eq hz, ok_bind, hhead]
    rfl

end Unregister

theorem taskUnregister_spec (hs : s.Holds l) {func : ℕ} (hf : func ≠ 0) (hne : s.taskHead ≠ none) :
    ∃ s', taskUnregister s func = .ok s' ∧ s'.Holds (l.eraseP fun x => x.2.taskProcess = func) ∧
      s'.heap.top = s.heap.top := by
  cases l with
  | nil => exact absurd hs.first_eq hne
  | cons x l =>
    by_cases hx : x.2.taskProcess = func
    · rw [List.eraseP_cons_of_pos (by simp [hx])]
      exact taskUnregister_head hs hf hx
    · rw [List.eraseP_cons_of_neg (by simp [hx])]
      obtain ⟨pre, post, rfl, hpre, hpost, he⟩ := exists_eraseP_split (fun x => x.2.taskProcess = func) l
      rw [he]
      exact taskUnregister_behind hs hf hx (by simpa using hpre) (by simpa using hpost)

/-- The assertions of a call hold: a function is unregistered only while the list is not empty, and is none that is
null. -/
def Asserts (s : Store) : TaskOp → Prop
  | .register _ _ => True
  | .unregister func => func ≠ 0 ∧ s.taskHead ≠ none

instance (s : Store) : ∀ op : TaskOp, Decidable (Asserts s op)
  | .register _ _ => isTrue trivial
  | .unregister func => inferInstanceAs (Decidable (func ≠ 0 ∧ s.taskHead ≠ none))

/-- **A call does to the list what it is for.** -/
theorem execOp_spec (hs : s.Holds l) {op : TaskOp} (ha : Asserts s op) :
    ∃ s', op.exec s = .ok s' ∧ s'.Holds (op.onList s.heap.top l) ∧ s.heap.top ≤ s'.heap.top := by
  cases op with
  | register func interval =>
    obtain ⟨s', hr, hs', ht⟩ := taskRegister_spec hs func interval
    exact ⟨s', hr, hs', by omega⟩
  | unregister func =>
    obtain ⟨s', hr, hs', ht⟩ := taskUnregister_spec hs ha.1 ha.2
    exact ⟨s', hr, hs', by omega⟩

/-- A call as a step; `none` when it does not return. -/
def taskStep (s : Store) (op : TaskOp) : Option Store := (op.exec s).toOption

/-- **The list of tasks.**  Before any call the list is empty; and any calls whose assertions hold, made on a list of
tasks whatever their counters, return, and leave the list that they are for: the chain from `task_head` meets the tasks
of that list in order, no cell twice, and no cell is allocated that is not on it. -/
theorem task_ops_refine : Store.empty.Holds [] ∧
    ∀ (s : Store) (l : List (ℕ × Task)) (ops : List TaskOp), s.Holds l → Admits taskStep Asserts s ops →
      ∃ s' l', run taskStep s ops = some s' ∧ s'.Holds l' ∧
        l'.map Prod.snd = ops.foldl TaskOp.onTasks (l.map Prod.snd) := by
  refine ⟨holds_empty, ?_⟩
  intro s l ops hs ha
  have hstep : ∀ (past : List TaskOp) (s' : Store) (op : TaskOp),
      (∃ l', s'.Holds l' ∧ l'.map Prod.snd = past.foldl TaskOp.onTasks (l.map Prod.snd)) → Asserts s' op →
      ∃ s'', taskStep s' op = some s'' ∧
        ∃ l', s''.Holds l' ∧ l'.map Prod.snd = (past ++ [op]).foldl TaskOp.onTasks (l.map Prod.snd) := by
    rintro past s' op ⟨l', hs', hl'⟩ hop
    obtain ⟨s'', hr, hs'', -⟩ := execOp_spec hs' hop
    refine ⟨s'', by rw [taskStep, hr]; rfl, _, hs'', ?_⟩
    rw [op.map_onList, hl', List.foldl_append]
    rfl
  obtain ⟨s', hr, l', hs', hl'⟩ := run_keeps hstep [] ⟨l, hs, rfl⟩ ha
  exact ⟨s', l', hr, hs', hl'⟩

/-- A function registered twice, and unregistered once. -/
theorem task_ops_refine_twice : ∃ s' l', run taskStep Store.empty
    [.register 1 5, .register 2 0, .register 1 7, .unregister 1] = some s' ∧ s'.Holds l' ∧
      l'.map Prod.snd = [⟨0, 0, 2⟩, ⟨7, 0, 1⟩] :=
  task_ops_refine.2 Store.empty [] [.register 1 5, .register 2 0, .register 1 7, .unregister 1]
    task_ops_refine.1 (by decide +kernel)

end Fr8012haLock.Tasks
