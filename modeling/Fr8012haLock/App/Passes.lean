import Fr8012haLock.App.Defs

/-!
# What the passes of the firmware come to

The events that the BLE side sees are given by the callbacks and the calls of `app_loop` alone (`View`): each pass of
`task_run` is a call of `ble_protocol_process`, whatever the UART does meanwhile.  `Stands` says where the firmware is
with respect to them, and one event keeps it (`Stands.step`).
-/

namespace Fr8012haLock.App

open LinkedList Buffer Common Receive Tasks Ble Uart Runs

/-! ### The view of the BLE side -/

/-- What the scheduler and the BLE side see of a run: `tick`, the passes begun, and the events of the device. -/
structure View where
  tick : UInt32
  passes : ℕ
  device : List DeviceEvent

/-- An event, as it is seen. -/
def View.step (v : View) : FirmwareEvent → View
  | .interrupt .. => v
  | .gatt msg => { v with device := v.device ++ [.gatt msg] }
  | .gap e => { v with device := v.device ++ [.gap e] }
  | .loop ms =>
    let (up, tick) := appCommTimeIsUp v.tick 1 ms
    if up then ⟨tick, v.passes + 1, v.device ++ [.process]⟩ else { v with tick := tick }
  | .advance => v

/-- A run, as it is seen from the start on. -/
def view (es : List FirmwareEvent) : View := es.foldl View.step ⟨0, 0, []⟩

@[simp] theorem foldl_step_append (v : View) (es : List FirmwareEvent) (e : FirmwareEvent) :
    (es ++ [e]).foldl View.step v = (es.foldl View.step v).step e := by
  rw [List.foldl_append, List.foldl_cons, List.foldl_nil]

/-! ### The tasks in the middle of a pass -/

/-- The three tasks in the cells `a`, `b` and `c`, after `p`, `q` and `r` visits. -/
def visited (a b c p q r : ℕ) : List (ℕ × Task) :=
  [(a, Task.tick^[p] ⟨0, 0, uartProtocolProcessAddr⟩), (b, Task.tick^[q] ⟨0, 0, bleProtocolProcessAddr⟩),
    (c, Task.tick^[r] ⟨5000, 0, taskIdleAddr⟩)]

theorem taskProcess_iterate (t : Task) (n : ℕ) : (Task.tick^[n] t).taskProcess = t.taskProcess := by
  induction n with
  | zero => rfl
  | succ n ih => rw [Function.iterate_succ_apply', Task.tick, ih]

theorem due_always (func n : ℕ) : (Task.tick^[n] ⟨0, 0, func⟩).due :=
  (Task.due_iterate rfl n).mpr (one_dvd (n + 1))

theorem due_idle (n : ℕ) : (Task.tick^[n] ⟨5000, 0, taskIdleAddr⟩).due ↔ 5000 ∣ n + 1 := Task.due_iterate rfl n

section Cells

variable {s : Store} {a b c p q r : ℕ}

theorem visited_first (h : s.Holds (visited a b c p q r)) :
    s.heap.cell a = some ⟨Task.tick^[p] ⟨0, 0, uartProtocolProcessAddr⟩, some b⟩ ∧
      (s.tick a).Holds (visited a b c (p + 1) q r) := by
  have h' : s.Holds ([] ++ (a, Task.tick^[p] ⟨0, 0, uartProtocolProcessAddr⟩) ::
    (visited a b c p q r).tail) := h
  refine ⟨h'.cell_eq, ?_⟩
  rw [visited, Function.iterate_succ_apply']
  exact h'.tick

theorem visited_second (h : s.Holds (visited a b c p q r)) :
    s.heap.cell b = some ⟨Task.tick^[q] ⟨0, 0, bleProtocolProcessAddr⟩, some c⟩ ∧
      (s.tick b).Holds (visited a b c p (q + 1) r) := by
  have h' : s.Holds ((visited a b c p q r).take 1 ++ (b, Task.tick^[q] ⟨0, 0, bleProtocolProcessAddr⟩) ::
    (visited a b c p q r).drop 2) := h
  refine ⟨h'.cell_eq, ?_⟩
  rw [visited, Function.iterate_succ_apply']
  exact h'.tick

theorem visited_third (h : s.Holds (visited a b c p q r)) :
    s.heap.cell c = some ⟨Task.tick^[r] ⟨5000, 0, taskIdleAddr⟩, none⟩ ∧
      (s.tick c).Holds (visited a b c p q (r + 1)) := by
  have h' : s.Holds ((visited a b c p q r).take 2 ++ (c, Task.tick^[r] ⟨5000, 0, taskIdleAddr⟩) :: []) := h
  refine ⟨h'.cell_eq, ?_⟩
  rw [visited, Function.iterate_succ_apply']
  exact h'.tick

end Cells

/-! ### Where the firmware stands -/

/-- How many visits the tasks have had at a position, when `n` passes were begun. -/
def AtPosition (a b c n p q r : ℕ) : Position → Prop
  | .between => p = n ∧ q = n ∧ r = n
  | .visiting none => p = n ∧ q = n ∧ r = n
  | .visiting (some temp) =>
    (temp = a ∧ p + 1 = n ∧ q + 1 = n ∧ r + 1 = n) ∨ (temp = b ∧ p = n ∧ q + 1 = n ∧ r + 1 = n) ∨
      (temp = c ∧ p = n ∧ q = n ∧ r + 1 = n)
  | .inUart temp => temp = a ∧ p = n ∧ q + 1 = n ∧ r + 1 = n

/-- After `q` visits of its task the BLE side, which was `d₀` at first, has been given the events of the view, up to the
call of the pass that is going on. -/
def Given (d₀ : Device RingBuffer) (v : View) (q : ℕ) (ble : Device RingBuffer) : Prop :=
  (q = v.passes ∧ run Device.step d₀ v.device = some ble) ∨
    (q + 1 = v.passes ∧ ∃ ds, v.device = ds ++ [.process] ∧ run Device.step d₀ ds = some ble)

/-- Where the firmware stands, as far as the tasks in the cells `a`, `b` and `c` and the BLE side are concerned. -/
structure Stands (a b c : ℕ) (d₀ : Device RingBuffer) (v : View) (f : Firmware) : Prop where
  tick : f.tasks.tick = v.tick
  lawful : Lawful bleProtocol bleFraming f.ble.parser
  tasks : ∃ p q r, f.tasks.store.Holds (visited a b c p q r) ∧ AtPosition a b c v.passes p q r f.position ∧
    f.idleCalls = r / 5000 ∧ Given d₀ v q f.ble
  place : (∀ temp, f.position ≠ .inUart temp) → f.uart.place = .idle

section Stands

variable {a b c : ℕ} {d₀ : Device RingBuffer} {v : View} {f : Firmware}

theorem Stands.place_idle (h : Stands a b c d₀ v f) {position : Position} (hpos : f.position = position)
    (hout : ∀ temp, position ≠ .inUart temp) : f.uart.place = .idle := by
  apply h.place
  intro temp
  rw [hpos]
  exact hout temp

theorem Stands.device (h : Stands a b c d₀ v f) (hpos : f.position = .between) {e : DeviceEvent} :
    ∃ ble, f.ble.step e = some ble ∧
      Stands a b c d₀ { v with device := v.device ++ [e] } { f with ble := ble } := by
  obtain ⟨htick, hl, ⟨p, q, r, hs, hat, hidle, hgiven⟩, hplace⟩ := h
  obtain ⟨ble, hble, hl'⟩ := Device.step_lawful hl e
  refine ⟨ble, hble, htick, hl', ⟨p, q, r, hs, hat, hidle, Or.inl ?_⟩, hplace⟩
  rw [hpos] at hat
  obtain ⟨-, hq, -⟩ := hat
  rcases hgiven with ⟨-, hrun⟩ | ⟨hq', -⟩
  · exact ⟨hq, by rw [run_append hrun, run_cons hble, run_nil]⟩
  · omega

theorem Stands.loop (h : Stands a b c d₀ v f) (hpos : f.position = .between) (ms : UInt32) :
    Stands a b c d₀ (v.step (.loop ms)) (appLoop f ms) := by
  have hplace' : f.uart.place = .idle := by
    apply h.place_idle hpos
    simp
  obtain ⟨htick, hl, ⟨p, q, r, hs, hat, hidle, hgiven⟩, hplace⟩ := h
  rw [hpos] at hat
  obtain ⟨rfl, hq, rfl⟩ := hat
  obtain ⟨-, hrun⟩ | ⟨hq', -⟩ := hgiven
  · simp only [View.step, appLoop, htick]
    obtain ⟨up, tick⟩ := appCommTimeIsUp v.tick 1 ms
    cases up with
    | false => exact ⟨rfl, hl, ⟨_, _, _, hs, by rw [hpos]; exact ⟨rfl, hq, rfl⟩, hidle, Or.inl ⟨hq, hrun⟩⟩, hplace⟩
    | true =>
      refine ⟨rfl, hl, ⟨_, _, _, hs, ?_, hidle, Or.inr ⟨congrArg (· + 1) hq, _, rfl, hrun⟩⟩, fun _ => hplace'⟩
      have hfirst : f.tasks.store.taskHead = some a := hs.first_eq
      show AtPosition a b c (v.passes + 1) _ _ _ (.visiting f.tasks.store.taskHead)
      rw [hfirst]
      exact Or.inl ⟨rfl, rfl, congrArg (· + 1) hq, rfl⟩
  · omega

theorem callTask_uart (f : Firmware) (temp : ℕ) :
    callTask f temp uartProtocolProcessAddr = some { f with position := .inUart temp } := rfl

theorem callTask_ble (f : Firmware) (temp : ℕ) : callTask f temp bleProtocolProcessAddr =
    (f.ble.step .process).bind fun ble => moveOn { f with ble := ble } temp := rfl

theorem callTask_idle (f : Firmware) (temp : ℕ) :
    callTask f temp taskIdleAddr = moveOn { f with idleCalls := f.idleCalls + 1 } temp := rfl

section Visits

variable {p q r : ℕ} (hs : f.tasks.store.Holds (visited a b c p q r))
include hs

theorem advance_first (hpos : f.position = .visiting (some a)) :
    advance f = some { f with tasks.store := f.tasks.store.tick a, position := .inUart a } := by
  obtain ⟨hcell, -⟩ := visited_first hs
  have hproc : (Task.tick^[p] ⟨0, 0, uartProtocolProcessAddr⟩).taskProcess = uartProtocolProcessAddr :=
    taskProcess_iterate _ p
  simp only [advance, hpos, hcell, Option.bind_some, if_pos (due_always _ p), hproc, callTask_uart]

theorem advance_second (hpos : f.position = .visiting (some b)) {ble : Device RingBuffer}
    (hble : f.ble.step .process = some ble) :
    advance f = some { f with tasks.store := f.tasks.store.tick b, position := .visiting (some c), ble := ble } := by
  obtain ⟨hcell, hs'⟩ := visited_second hs
  obtain ⟨hcell', -⟩ := visited_second hs'
  have hproc : (Task.tick^[q] ⟨0, 0, bleProtocolProcessAddr⟩).taskProcess = bleProtocolProcessAddr :=
    taskProcess_iterate _ q
  simp only [advance, hpos, hcell, Option.bind_some, if_pos (due_always _ q), hproc, callTask_ble, hble, moveOn, hcell']
  rfl

theorem advance_third (hpos : f.position = .visiting (some c)) (hidle : f.idleCalls = r / 5000) :
    advance f = some { f with tasks.store := f.tasks.store.tick c, position := .visiting none,
                              idleCalls := (r + 1) / 5000 } := by
  obtain ⟨hcell, hs'⟩ := visited_third hs
  obtain ⟨hcell', -⟩ := visited_third hs'
  have hproc : (Task.tick^[r] ⟨5000, 0, taskIdleAddr⟩).taskProcess = taskIdleAddr := taskProcess_iterate _ r
  by_cases hdue : (Task.tick^[r] ⟨5000, 0, taskIdleAddr⟩).due
  · have hsucc : (r + 1) / 5000 = f.idleCalls + 1 := by rw [hidle, Nat.succ_div_of_dvd ((due_idle r).mp hdue)]
    simp only [advance, hpos, hcell, Option.bind_some, if_pos hdue, hproc, callTask_idle, moveOn, hcell', hsucc]
    rfl
  · have hsame : (r + 1) / 5000 = f.idleCalls := by
      rw [hidle, Nat.succ_div_of_not_dvd fun hd => hdue ((due_idle r).mpr hd)]
    simp only [advance, hpos, hcell, Option.bind_some, if_neg hdue, moveOn, hcell', hsame]
    rfl

theorem advance_returns (hpos : f.position = .inUart a) (hplace : (Receive.advance uartProtocol f.uart).place = .idle) :
    advance f = some { f with uart := Receive.advance uartProtocol f.uart, position := .visiting (some b) } := by
  obtain ⟨hcell, -⟩ := visited_first hs
  simp only [advance, hpos, hplace, moveOn, hcell, Option.map_some]

omit hs in
theorem advance_stays (hpos : f.position = .inUart a) (hplace : (Receive.advance uartProtocol f.uart).place ≠ .idle) :
    advance f = some { f with uart := Receive.advance uartProtocol f.uart } := by
  simp only [advance, hpos]

end Visits

theorem Stands.visit_first (h : Stands a b c d₀ v f) (hpos : f.position = .visiting (some a)) {p q r : ℕ}
    (hs : f.tasks.store.Holds (visited a b c p q r)) (hp : p + 1 = v.passes) (hq : q + 1 = v.passes)
    (hr : r + 1 = v.passes) (hidle : f.idleCalls = r / 5000) (hg : Given d₀ v q f.ble) :
    ∃ f', advance f = some f' ∧ Stands a b c d₀ v f' := by
  obtain ⟨-, hs'⟩ := visited_first hs
  refine ⟨_, advance_first hs hpos, h.tick, h.lawful, ⟨_, _, _, hs', ⟨rfl, hp, hq, hr⟩, hidle, hg⟩, ?_⟩
  intro hno
  exact absurd rfl (hno a)

theorem Stands.visit_second (h : Stands a b c d₀ v f) (hpos : f.position = .visiting (some b)) {p q r : ℕ}
    (hs : f.tasks.store.Holds (visited a b c p q r)) (hp : p = v.passes) (hq : q + 1 = v.passes)
    (hr : r + 1 = v.passes) (hidle : f.idleCalls = r / 5000) (hg : Given d₀ v q f.ble) :
    ∃ f', advance f = some f' ∧ Stands a b c d₀ v f' := by
  obtain ⟨-, hs'⟩ := visited_second hs
  obtain ⟨ble, hble, hl'⟩ := Device.step_lawful h.lawful .process
  have hplace : f.uart.place = .idle := by
    apply h.place_idle hpos
    simp
  refine ⟨_, advance_second hs hpos hble, h.tick, hl',
    ⟨_, _, _, hs', Or.inr (Or.inr ⟨rfl, hp, hq, hr⟩), hidle, Or.inl ⟨hq, ?_⟩⟩, fun _ => hplace⟩
  rcases hg with ⟨hq', -⟩ | ⟨-, ds, hds, hrun⟩
  · omega
  · rw [hds, run_append hrun, run_cons hble, run_nil]

theorem Stands.visit_third (h : Stands a b c d₀ v f) (hpos : f.position = .visiting (some c)) {p q r : ℕ}
    (hs : f.tasks.store.Holds (visited a b c p q r)) (hp : p = v.passes) (hq : q = v.passes)
    (hr : r + 1 = v.passes) (hidle : f.idleCalls = r / 5000) (hg : Given d₀ v q f.ble) :
    ∃ f', advance f = some f' ∧ Stands a b c d₀ v f' := by
  obtain ⟨-, hs'⟩ := visited_third hs
  have hplace : f.uart.place = .idle := by
    apply h.place_idle hpos
    simp
  exact ⟨_, advance_third hs hpos hidle, h.tick, h.lawful, ⟨_, _, _, hs', ⟨hp, hq, hr⟩, rfl, hg⟩, fun _ => hplace⟩

theorem Stands.inUart (h : Stands a b c d₀ v f) (hpos : f.position = .inUart a) {p q r : ℕ}
    (hs : f.tasks.store.Holds (visited a b c p q r)) (hp : p = v.passes) (hq : q + 1 = v.passes)
    (hr : r + 1 = v.passes) (hidle : f.idleCalls = r / 5000) (hg : Given d₀ v q f.ble) :
    ∃ f', advance f = some f' ∧ Stands a b c d₀ v f' := by
  by_cases hplace : (Receive.advance uartProtocol f.uart).place = .idle
  · exact ⟨_, advance_returns hs hpos hplace, h.tick, h.lawful,
      ⟨_, _, _, hs, Or.inr (Or.inl ⟨rfl, hp, hq, hr⟩), hidle, hg⟩, fun _ => hplace⟩
  · refine ⟨_, advance_stays hpos hplace, h.tick, h.lawful,
      ⟨_, _, _, hs, by rw [hpos]; exact ⟨rfl, hp, hq, hr⟩, hidle, hg⟩, ?_⟩
    intro hno
    exact absurd hpos (hno a)

/-- **The processor goes on**, and does not fault. -/
theorem Stands.advance (h : Stands a b c d₀ v f) : ∃ f', advance f = some f' ∧ Stands a b c d₀ v f' := by
  obtain ⟨p, q, r, hs, hat, hidle, hg⟩ := h.tasks
  cases hpos : f.position with
  | between => exact ⟨f, by rw [App.advance, hpos], h⟩
  | inUart temp =>
    rw [hpos] at hat
    obtain ⟨rfl, hp, hq, hr⟩ := hat
    exact h.inUart hpos hs hp hq hr hidle hg
  | visiting temp =>
    rw [hpos] at hat
    cases temp with
    | none =>
      have hplace : f.uart.place = .idle := by
        apply h.place_idle hpos
        simp
      exact ⟨{ f with position := .between }, by rw [App.advance, hpos], h.tick, h.lawful,
        ⟨p, q, r, hs, hat, hidle, hg⟩, fun _ => hplace⟩
    | some temp =>
      rcases hat with ⟨rfl, hp, hq, hr⟩ | ⟨rfl, hp, hq, hr⟩ | ⟨rfl, hp, hq, hr⟩
      · exact h.visit_first hpos hs hp hq hr hidle hg
      · exact h.visit_second hpos hs hp hq hr hidle hg
      · exact h.visit_third hpos hs hp hq hr hidle hg

/-- **One event keeps the firmware where the view says.** -/
theorem Stands.step (h : Stands a b c d₀ v f) {e : FirmwareEvent} (hok : Scheduled f e) :
    ∃ f', f.step e = some f' ∧ Stands a b c d₀ (v.step e) f' := by
  cases e with
  | interrupt intId fifo => exact ⟨_, rfl, h.tick, h.lawful, h.tasks, h.place⟩
  | gatt msg =>
    obtain ⟨ble, hble, h'⟩ := h.device hok (e := .gatt msg)
    exact ⟨_, by rw [Firmware.step, hble, Option.map_some], h'⟩
  | gap e =>
    obtain ⟨ble, hble, h'⟩ := h.device hok (e := .gap e)
    exact ⟨_, by rw [Firmware.step, hble, Option.map_some], h'⟩
  | loop ms => exact ⟨_, rfl, h.loop hok ms⟩
  | advance => exact h.advance

/-- **A scheduled run does not fault**, and its end is where its view says. -/
theorem stands_run (h : Stands a b c d₀ v f) {es : List FirmwareEvent} (ha : Admits Firmware.step Scheduled f es) :
    ∃ f', run Firmware.step f es = some f' ∧ Stands a b c d₀ (es.foldl View.step v) f' := by
  have hstep : ∀ (past : List FirmwareEvent) (f : Firmware) (e : FirmwareEvent),
      Stands a b c d₀ (past.foldl View.step v) f → Scheduled f e →
      ∃ f', f.step e = some f' ∧ Stands a b c d₀ ((past ++ [e]).foldl View.step v) f' := by
    intro past f e hf hok
    rw [foldl_step_append]
    exact hf.step hok
  exact run_keeps hstep [] h ha

/-- Between two passes all the tasks have had their visits. -/
theorem Stands.between (h : Stands a b c d₀ v f) (hpos : f.position = .between) :
    f.tasks.store.Holds (visited a b c v.passes v.passes v.passes) ∧ run Device.step d₀ v.device = some f.ble ∧
      f.idleCalls = v.passes / 5000 ∧ f.uart.place = .idle := by
  obtain ⟨p, q, r, hs, hat, hidle, hg⟩ := h.tasks
  have hplace : f.uart.place = .idle := by
    apply h.place_idle hpos
    simp
  rw [hpos] at hat
  obtain ⟨rfl, hq, rfl⟩ := hat
  rcases hg with ⟨-, hrun⟩ | ⟨hq', -⟩
  · rw [hq] at hs
    exact ⟨hs, hrun, hidle, hplace⟩
  · omega

end Stands

/-- `app_init` returns, with the same tasks whatever is in the blocks allocated, and the firmware stands at its
beginning. -/
theorem stands_init : ∃ a b c s, ∀ memUart memBle, ∃ f, appInit memUart memBle = .ok f ∧ f.tasks = ⟨s, 0⟩ ∧
    f.position = .between ∧ f.uart = uartProtocolInit memUart ∧ f.ble = deviceInit memBle ∧
    Stands a b c (deviceInit memBle) ⟨0, 0, []⟩ f := by
  obtain ⟨s, new, hr, hs, hnew⟩ := registerAll_spec holds_empty registrations
  rw [List.nil_append] at hs
  match new, hnew with
  | [(a, _), (b, _), (c, _)], hnew =>
    obtain ⟨rfl, rfl, rfl⟩ : _ ∧ _ ∧ _ := by simpa [registrations] using hnew
    refine ⟨a, b, c, s, ?_⟩
    intro memUart memBle
    refine ⟨⟨⟨s, 0⟩, .between, deviceInit memBle, uartProtocolInit memUart, 0⟩, ?_, rfl, rfl, rfl, rfl, rfl,
      lawful_init memBle, ⟨0, 0, 0, hs, ⟨rfl, rfl, rfl⟩, rfl, Or.inl ⟨rfl, rfl⟩⟩, fun _ => rfl⟩
    rw [appInit, hr]
    rfl

end Fr8012haLock.App
