import Fr8012haLock.Lib.LinkedList
import Fr8012haLock.Common.Time

/-!
# The scheduler (`app_task.c`)

A `task_t` is a cell of a heap: `os_malloc` returns a cell that was never used before, `os_free` removes it, and a read
of a cell that is not there is a fault.  A loop along the pointers `next` makes at most as many rounds as addresses were
given out; more would mean a circle.

`task_run` is a loop of visits (`visit`).  What the functions registered do is a parameter: `acts k` is what the `k`-th
one called in a pass does to the list of tasks.  The console messages and `task_print` are left out.
-/

namespace Fr8012haLock.Tasks

open LinkedList Common

/-- `task_t`, up to its pointer `next`.  A function is its address, `0` for a null pointer. -/
structure Task where
  interval : UInt32
  intervalCnt : UInt32
  taskProcess : ℕ
  deriving DecidableEq, Repr

/-- Why a function does not return: an assertion loops, a field of a cell that is not there is read, or a loop along
the pointers does not end. -/
inductive Fault where
  | assertion
  | freed
  | stuck
  deriving DecidableEq, Repr

/-- The heap, and `task_head`. -/
structure Store where
  heap : Heap Task
  taskHead : Option ℕ

/-- Before any call. -/
def Store.empty : Store := ⟨Heap.empty, none⟩

/-- A cell, for reading its fields. -/
def readTask (h : Heap Task) (a : ℕ) : Except Fault (Cell Task) :=
  match h.cell a with
  | some c => .ok c
  | none => .error .freed

/-- The loop of `task_register`: the last cell from `temp` on. -/
def lastTask (h : Heap Task) : ℕ → ℕ → Except Fault ℕ
  | 0, _ => .error .stuck
  | fuel + 1, temp => do
    let task ← readTask h temp
    match task.next with
    | none => .ok temp
    | some next => lastTask h fuel next

/-- `task_new` and `task_register` -/
def taskRegister (s : Store) (func : ℕ) (interval : UInt32) : Except Fault Store :=
  let (heap, new) := s.heap.alloc ⟨⟨interval, 0, func⟩, none⟩
  match s.taskHead with
  | none => .ok ⟨heap, some new⟩
  | some temp => do
    let temp ← lastTask heap heap.top temp
    .ok ⟨heap.modify temp fun c => { c with next := some new }, s.taskHead⟩

/-- The loop of `task_unregister`: from `temp` on, the last cell or the one in front of the first with `func`. -/
def findBefore (h : Heap Task) (func : ℕ) : ℕ → ℕ → Except Fault ℕ
  | 0, _ => .error .stuck
  | fuel + 1, temp => do
    let task ← readTask h temp
    match task.next with
    | none => .ok temp
    | some next => do
      let task ← readTask h next
      if task.val.taskProcess ≠ func then findBefore h func fuel next else .ok temp

/-- `task_unregister` -/
def taskUnregister (s : Store) (func : ℕ) : Except Fault Store :=
  if func = 0 then .error .assertion
  else
    match s.taskHead with
    | none => .error .assertion
    | some temp => do
      let task ← readTask s.heap temp
      if task.val.taskProcess = func then .ok ⟨s.heap.free temp, task.next⟩
      else
        let temp ← findBefore s.heap func s.heap.top temp
        let task ← readTask s.heap temp
        match task.next with
        | some find => do
          let found ← readTask s.heap find
          .ok ⟨(s.heap.modify temp fun c => { c with next := found.next }).free find, s.taskHead⟩
        | none => .ok s

/-- A call that changes the list of tasks. -/
inductive TaskOp where
  | register (func : ℕ) (interval : UInt32)
  | unregister (func : ℕ)
  deriving DecidableEq, Repr

/-- The call. -/
def TaskOp.exec (s : Store) : TaskOp → Except Fault Store
  | .register func interval => taskRegister s func interval
  | .unregister func => taskUnregister s func

/-- A number of calls, one after another. -/
def execOps (s : Store) (ops : List TaskOp) : Except Fault Store := ops.foldlM TaskOp.exec s

/-! ### `task_run` -/

/-- Whether a task is due when it is visited: `++(temp->interval_cnt) >= temp->interval` -/
def Task.due (t : Task) : Prop := t.intervalCnt + 1 ≥ t.interval

instance (t : Task) : Decidable t.due := by unfold Task.due; infer_instance

/-- A task after a visit. -/
def Task.tick (t : Task) : Task := { t with intervalCnt := if t.due then 0 else t.intervalCnt + 1 }

/-- `++(temp->interval_cnt)`, and `temp->interval_cnt = 0` if the task is due. -/
def Store.tick (s : Store) (temp : ℕ) : Store :=
  { s with heap := s.heap.modify temp fun c => { c with val := c.val.tick } }

/-- A pass of `task_run`: the local variable `temp`, the cells visited so far, and those whose function was called. -/
structure Pass where
  store : Store
  temp : Option ℕ
  visited : List ℕ
  called : List ℕ

/-- Before the first visit. -/
def Pass.start (s : Store) : Pass := ⟨s, s.taskHead, [], []⟩

/-- A round of the loop, if there is one. -/
def visit (acts : ℕ → List TaskOp) (p : Pass) : Except Fault Pass :=
  match p.temp with
  | none => .ok p
  | some temp => do
    let task ← readTask p.store.heap temp
    let s := p.store.tick temp
    let (s, called) ←
      if task.val.due then do
        let s ← execOps s (acts p.called.length)
        .ok (s, p.called ++ [temp])
      else .ok (s, p.called)
    -- `temp = temp->next`
    let task ← readTask s.heap temp
    .ok ⟨s, task.next, p.visited ++ [temp], called⟩

/-- `n` rounds of the loop, or fewer if it ends before. -/
def visits (acts : ℕ → List TaskOp) : ℕ → Pass → Except Fault Pass
  | 0, p => .ok p
  | n + 1, p => do visits acts n (← visit acts p)

/-- The list of tasks, and the static variable `tick` of `task_run`. -/
structure Scheduler where
  store : Store
  tick : UInt32

/-- `task_run` with the reading `ms` of the clock.  The second component is the cells whose function was called, in
order, or `none` where no time has passed; a loop of more than `fuel` rounds is a fault. -/
def taskRun (acts : ℕ → List TaskOp) (fuel : ℕ) (c : Scheduler) (ms : UInt32) :
    Except Fault (Scheduler × Option (List ℕ)) :=
  let (up, tick) := appCommTimeIsUp c.tick 1 ms
  if up then do
    let p ← visits acts fuel (Pass.start c.store)
    match p.temp with
    | none => .ok (⟨p.store, tick⟩, some p.called)
    | some _ => .error .stuck
  else .ok (⟨c.store, tick⟩, none)

end Fr8012haLock.Tasks
