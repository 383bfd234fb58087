import Fr8012haLock.App.Commands
import Fr8012haLock.App.Timing
import Fr8012haLock.Receive.Backlog

/-!
# The firmware catches up

Each pass calls both parsers once, and a call brings down what its parser has to do.  So when no more bytes come, both
have nothing left to do after so many passes as their rings can ask for, wherever the processor was when the last byte
came (`firmware_catches_up`).
-/

namespace Fr8012haLock.App

open LinkedList Buffer Common Receive Tasks Ble Uart Runs

/-! ### The calls that a pass still owes -/

/-- The function of the task in front of the processor. -/
def Firmware.nextProcess (f : Firmware) : Option ℕ :=
  match f.position with
  | .visiting (some temp) => (f.tasks.store.heap.cell temp).map fun task => task.val.taskProcess
  | _ => none

/-- 1 while the pass that is going on has not begun to call `uart_protocol_process`. -/
def Firmware.uartDue (f : Firmware) : ℕ :=
  match f.position with
  | .inUart _ =>
    match f.uart.place with
    | .idle => 1
    | _ => 0
  | _ => if f.nextProcess = some uartProtocolProcessAddr then 1 else 0

/-- 1 while it has not called `ble_protocol_process`. -/
def Firmware.bleDue (f : Firmware) : ℕ :=
  match f.position with
  | .inUart _ => 1
  | _ => if f.nextProcess = some uartProtocolProcessAddr ∨ f.nextProcess = some bleProtocolProcessAddr then 1 else 0

section Due

variable {a b c p q r : ℕ} {f : Firmware}

theorem due_first (hs : f.tasks.store.Holds (visited a b c p q r)) (hpos : f.position = .visiting (some a)) :
    f.uartDue = 1 ∧ f.bleDue = 1 := by
  obtain ⟨hcell, -⟩ := visited_first hs
  have hnext : f.nextProcess = some uartProtocolProcessAddr := by
    simp only [Firmware.nextProcess, hpos, hcell, Option.map_some, taskProcess_iterate]
  simp [Firmware.uartDue, Firmware.bleDue, hpos, hnext]

theorem due_second (hs : f.tasks.store.Holds (visited a b c p q r)) (hpos : f.position = .visiting (some b)) :
    f.uartDue = 0 ∧ f.bleDue = 1 := by
  obtain ⟨hcell, -⟩ := visited_second hs
  have hnext : f.nextProcess = some bleProtocolProcessAddr := by
    simp only [Firmware.nextProcess, hpos, hcell, Option.map_some, taskProcess_iterate]
  simp [Firmware.uartDue, Firmware.bleDue, hpos, hnext, uartProtocolProcessAddr, bleProtocolProcessAddr]

theorem due_third (hs : f.tasks.store.Holds (visited a b c p q r)) (hpos : f.position = .visiting (some c)) :
    f.uartDue = 0 ∧ f.bleDue = 0 := by
  obtain ⟨hcell, -⟩ := visited_third hs
  have hnext : f.nextProcess = some taskIdleAddr := by
    simp only [Firmware.nextProcess, hpos, hcell, Option.map_some, taskProcess_iterate]
  simp [Firmware.uartDue, Firmware.bleDue, hpos, hnext, uartProtocolProcessAddr, bleProtocolProcessAddr, taskIdleAddr]

theorem due_inUart {temp : ℕ} (hpos : f.position = .inUart temp) :
    (f.uart.place = .idle → f.uartDue = 1) ∧ (f.uart.place ≠ .idle → f.uartDue = 0) ∧ f.bleDue = 1 := by
  refine ⟨?_, ?_, ?_⟩
  · intro hplace
    simp only [Firmware.uartDue, hpos, hplace]
  · intro hplace
    simp only [Firmware.uartDue, hpos]
  · simp only [Firmware.bleDue, hpos]

theorem due_none (hpos : f.position = .between ∨ f.position = .visiting none) : f.uartDue = 0 ∧ f.bleDue = 0 := by
  rcases hpos with hpos | hpos <;> simp [Firmware.uartDue, Firmware.bleDue, Firmware.nextProcess, hpos]

end Due

/-! ### What the parsers still have to do -/

/-- When the passes begun were `passes`, the parsers have to do at most what `n` and `m` calls do, less one for each of
these passes that has made its call. -/
structure Drains (n m passes : ℕ) (f : Firmware) : Prop where
  uart : f.uart.backlog uartProtocol ≤ n + f.uartDue - passes
  ble : f.ble.parser.backlog bleProtocol ≤ m + f.bleDue - passes

/-- An event that brings no bytes. -/
def FirmwareEvent.quiet (e : FirmwareEvent) : Prop := e.uartBytes = [] ∧ e.writesNothing

instance : ∀ e : FirmwareEvent, Decidable e.quiet
  | .interrupt intId fifo => inferInstanceAs (Decidable ((UartEvent.interrupt intId fifo).bytes = [] ∧ True))
  | .gatt msg => inferInstanceAs (Decidable (([] : List UInt8) = [] ∧ (DeviceEvent.gatt msg).received = []))
  | .gap _ => inferInstanceAs (Decidable (([] : List UInt8) = [] ∧ True))
  | .loop _ => inferInstanceAs (Decidable (([] : List UInt8) = [] ∧ True))
  | .advance => inferInstanceAs (Decidable (([] : List UInt8) = [] ∧ True))

theorem uart_backlog {es : List FirmwareEvent} {f : Firmware} (h : Receives es f) (hsafe : UartSafe f.uart .advance) :
    (Receive.advance uartProtocol f.uart).backlog uartProtocol ≤ f.uart.backlog uartProtocol ∧
      (f.uart.place = .idle →
        (Receive.advance uartProtocol f.uart).backlog uartProtocol ≤ f.uart.backlog uartProtocol - 1) := by
  obtain ⟨n, ts, hm, ht, -⟩ := h.uart
  obtain ⟨m', n', hm', hn', hmir, -⟩ := mirrors_step hm ht hsafe
  cases hm'
  cases hn'
  obtain ⟨rc, htr, hp, -⟩ := ht
  rw [hmir.backlog_eq, hm.backlog_eq, hm.place]
  exact ⟨advance_backlog uart_implements (fun _ hend => hend) htr hp, advance_backlog_idle htr⟩

theorem ble_backlog {es : List FirmwareEvent} {f : Firmware} {ble : Device RingBuffer} (h : Receives es f)
    (hsafe : DeviceSafe f.ble .process) (hs : f.ble.step .process = some ble) :
    ble.parser.backlog bleProtocol ≤ f.ble.parser.backlog bleProtocol - 1 := by
  obtain ⟨rc, ht, -⟩ := h.ble
  have hfaithful := (hsafe .process (by simp [DeviceEvent.received])).faithful ht.wf
  have hp : run bleStep f.ble.parser [.process] = some ble.parser := by
    rw [show [Event.process] = DeviceEvent.received .process from rfl, ← Device.step_parser, hs, Option.map_some]
  cases hs' : bleStep f.ble.parser .process with
  | none => simp [run, hs'] at hp
  | some s' =>
    rw [run_cons hs', run_nil] at hp
    cases hp
    exact ht.process_backlog ble_implements hfaithful hs'

/-! ### One event -/

section Steps

variable {a b c n m : ℕ} {d₀ : Device RingBuffer} {v : View} {f f' : Firmware} {es : List FirmwareEvent}

theorem Drains.frame {k : ℕ} (h : Drains n m k f) (hu : f'.uart = f.uart) (hb : f'.ble.parser = f.ble.parser)
    (hdue : f'.uartDue = f.uartDue ∧ f'.bleDue = f.bleDue) : Drains n m k f' := by
  obtain ⟨hdu, hdb⟩ := hdue
  constructor
  · rw [hu, hdu]
    exact h.uart
  · rw [hb, hdb]
    exact h.ble

theorem Drains.loop (h : Drains n m v.passes f) (hst : Stands a b c d₀ v f) (hpos : f.position = .between)
    (ms : UInt32) : Drains n m (v.step (.loop ms)).passes (appLoop f ms) := by
  obtain ⟨hs, -⟩ := hst.between hpos
  obtain ⟨hdu, hdb⟩ := due_none (Or.inl hpos)
  simp only [View.step, appLoop, hst.tick]
  obtain ⟨up, tick⟩ := appCommTimeIsUp v.tick 1 ms
  cases up with
  | false => exact h.frame rfl rfl ⟨rfl, rfl⟩
  | true =>
    obtain ⟨hu, hb⟩ := h
    have hfirst : f.tasks.store.taskHead = some a := hs.first_eq
    obtain ⟨hdu', hdb'⟩ := due_first (f := { f with
      tasks := { f.tasks with tick := tick }, position := .visiting f.tasks.store.taskHead }) hs (by rw [hfirst])
    rw [hdu] at hu
    rw [hdb] at hb
    constructor
    · show f.uart.backlog uartProtocol ≤ n + Firmware.uartDue _ - (v.passes + 1)
      rw [if_pos rfl, hdu', Nat.add_sub_add_right]
      exact hu
    · show f.ble.parser.backlog bleProtocol ≤ m + Firmware.bleDue _ - (v.passes + 1)
      rw [if_pos rfl, hdb', Nat.add_sub_add_right]
      exact hb

section Visits

variable {k p q r : ℕ}

theorem Drains.visit_first (h : Drains n m k f) (hs : f.tasks.store.Holds (visited a b c p q r))
    (hpos : f.position = .visiting (some a)) (hplace : f.uart.place = .idle) :
    Drains n m k { f with tasks.store := f.tasks.store.tick a, position := .inUart a } := by
  obtain ⟨hdu, hdb⟩ := due_first hs hpos
  obtain ⟨hidle', -, hdb'⟩ := due_inUart (f := { f with
    tasks.store := f.tasks.store.tick a, position := .inUart a }) rfl
  exact h.frame rfl rfl ⟨(hidle' hplace).trans hdu.symm, hdb'.trans hdb.symm⟩

theorem Drains.visit_second (h : Drains n m k f) (hs : f.tasks.store.Holds (visited a b c p q r))
    (hpos : f.position = .visiting (some b)) (hrec : Receives es f) (hsafe : DeviceSafe f.ble .process)
    {ble : Device RingBuffer} (hble : f.ble.step .process = some ble) :
    Drains n m k { f with tasks.store := f.tasks.store.tick b, position := .visiting (some c), ble := ble } := by
  obtain ⟨-, hs'⟩ := visited_second hs
  obtain ⟨hdu, hdb⟩ := due_second hs hpos
  obtain ⟨hdu', hdb'⟩ := due_third (f := { f with
    tasks.store := f.tasks.store.tick b, position := .visiting (some c), ble := ble }) hs' rfl
  obtain ⟨hu, hb⟩ := h
  have hcall := ble_backlog hrec hsafe hble
  rw [hdu] at hu
  rw [hdb] at hb
  constructor
  · rw [hdu']
    exact hu
  · rw [hdb']
    show ble.parser.backlog bleProtocol ≤ m + 0 - k
    omega

theorem Drains.visit_third (h : Drains n m k f) (hs : f.tasks.store.Holds (visited a b c p q r))
    (hpos : f.position = .visiting (some c)) (idleCalls : ℕ) : Drains n m k { f with
      tasks.store := f.tasks.store.tick c, position := .visiting none, idleCalls := idleCalls } := by
  obtain ⟨hdu, hdb⟩ := due_third hs hpos
  obtain ⟨hdu', hdb'⟩ := due_none (f := { f with
    tasks.store := f.tasks.store.tick c, position := .visiting none, idleCalls := idleCalls }) (Or.inr rfl)
  exact h.frame rfl rfl ⟨hdu'.trans hdu.symm, hdb'.trans hdb.symm⟩

/-- A ring operation of `uart_protocol_process`: the first one begins the call that was due. -/
theorem Drains.uart_operation (h : Drains n m k f) {temp : ℕ} (hpos : f.position = .inUart temp) (hrec : Receives es f)
    (hsafe : UartSafe f.uart .advance) : (Receive.advance uartProtocol f.uart).backlog uartProtocol ≤ n + 0 - k := by
  obtain ⟨hidle, hbusy, -⟩ := due_inUart hpos
  obtain ⟨hle, hlt⟩ := uart_backlog hrec hsafe
  have hu := h.uart
  by_cases hplace : f.uart.place = .idle
  · have := hlt hplace
    rw [hidle hplace] at hu
    omega
  · rw [hbusy hplace] at hu
    exact hle.trans hu

theorem Drains.inUart (h : Drains n m k f) (hs : f.tasks.store.Holds (visited a b c p q r))
    (hpos : f.position = .inUart a) (hrec : Receives es f) (hsafe : UartSafe f.uart .advance)
    (hadv : advance f = some f') : Drains n m k f' := by
  have hop := h.uart_operation hpos hrec hsafe
  obtain ⟨-, -, hdb⟩ := due_inUart hpos
  have hb := h.ble
  rw [hdb] at hb
  by_cases hplace : (Receive.advance uartProtocol f.uart).place = .idle
  · rw [advance_returns hs hpos hplace] at hadv
    cases hadv
    obtain ⟨hdu', hdb'⟩ := due_second (f := { f with
      uart := Receive.advance uartProtocol f.uart, position := .visiting (some b) }) hs rfl
    constructor
    · rw [hdu']
      exact hop
    · rw [hdb']
      exact hb
  · rw [advance_stays hpos hplace] at hadv
    cases hadv
    obtain ⟨-, hbusy', hdb'⟩ := due_inUart (f := { f with uart := Receive.advance uartProtocol f.uart }) hpos
    constructor
    · rw [hbusy' hplace]
      exact hop
    · rw [hdb']
      exact hb

end Visits

/-- **The processor goes on**, and owes no more than before. -/
theorem Drains.advance (h : Drains n m v.passes f) (hst : Stands a b c d₀ v f) (hrec : Receives es f)
    (hok : Sound f .advance) (hs : advance f = some f') : Drains n m v.passes f' := by
  obtain ⟨p, q, r, hholds, hat, hidle, -⟩ := hst.tasks
  cases hpos : f.position with
  | between =>
    rw [App.advance, hpos] at hs
    cases hs
    exact h
  | inUart temp =>
    rw [hpos] at hat
    obtain ⟨rfl, -⟩ := hat
    have hsafe : UartSafe f.uart .advance := hok.2.1 (by rw [Firmware.isInUart, hpos])
    exact h.inUart hholds hpos hrec hsafe hs
  | visiting temp =>
    rw [hpos] at hat
    cases temp with
    | none =>
      rw [App.advance, hpos] at hs
      cases hs
      obtain ⟨hdu, hdb⟩ := due_none (Or.inr hpos)
      exact h.frame rfl rfl ⟨hdu.symm, hdb.symm⟩
    | some temp =>
      rcases hat with ⟨rfl, -⟩ | ⟨rfl, -⟩ | ⟨rfl, -⟩
      · have hplace : f.uart.place = .idle := by
          apply hst.place_idle hpos
          simp
        rw [advance_first hholds hpos] at hs
        cases hs
        exact h.visit_first hholds hpos hplace
      · have hcalls : f.callsBle = true := by
          obtain ⟨hcell, -⟩ := visited_second hholds
          simp only [Firmware.callsBle, hpos, hcell, Option.any_some, taskProcess_iterate, decide_true]
        obtain ⟨ble, hble, -⟩ := Device.step_lawful hst.lawful .process
        rw [advance_second hholds hpos hble] at hs
        cases hs
        exact h.visit_second hholds hpos hrec (hok.2.2 hcalls) hble
      · rw [advance_third hholds hpos hidle] at hs
        cases hs
        exact h.visit_third hholds hpos _

theorem parser_of_nothing {d d' : Device RingBuffer} {e : DeviceEvent} (he : e.received = [])
    (hs : d.step e = some d') : d'.parser = d.parser := by
  have hp : run bleStep d.parser e.received = some d'.parser := by rw [← Device.step_parser, hs, Option.map_some]
  rw [he] at hp
  exact (Option.some.inj hp).symm

/-- **A quiet event leaves no more to do.** -/
theorem Drains.step (h : Drains n m v.passes f) (hst : Stands a b c d₀ v f) (hrec : Receives es f) {e : FirmwareEvent}
    (hok : Sound f e) (hquiet : e.quiet) (hs : f.step e = some f') : Drains n m (v.step e).passes f' := by
  cases e with
  | interrupt intId fifo =>
    cases hs
    have hsame : interrupted f.uart intId fifo = f.uart := by
      have hbytes : (UartEvent.interrupt intId fifo).bytes = [] := hquiet.1
      have := run_interleavings f.uart (.interrupt intId fifo)
      rw [UartEvent.interleavings, hbytes] at this
      exact (Option.some.inj this).symm
    rw [hsame]
    exact h
  | gatt msg =>
    have hmap : (f.ble.step (.gatt msg)).map (fun ble => { f with ble := ble }) = some f' := hs
    obtain ⟨ble, hble, rfl⟩ := Option.map_eq_some_iff.mp hmap
    exact h.frame rfl (parser_of_nothing hquiet.2 hble) ⟨rfl, rfl⟩
  | gap e =>
    have hmap : (f.ble.step (.gap e)).map (fun ble => { f with ble := ble }) = some f' := hs
    obtain ⟨ble, hble, rfl⟩ := Option.map_eq_some_iff.mp hmap
    exact h.frame rfl (parser_of_nothing rfl hble) ⟨rfl, rfl⟩
  | loop ms =>
    cases hs
    exact h.loop hst hok.1 ms
  | advance => exact h.advance hst hrec hok hs

end Steps

/-! ### Runs -/

theorem Drains.calls {es : List FirmwareEvent} {n m k : ℕ} {f : Firmware} (h : Drains n m k f) (hrec : Receives es f)
    (hpos : f.position = .between) (hplace : f.uart.place = .idle) :
    (n ≤ k → f.uart.state.calls = uartFraming.decode (es.flatMap FirmwareEvent.uartBytes)) ∧
      (m ≤ k → f.ble.parser.calls = bleFraming.decode (es.flatMap FirmwareEvent.bleBytes)) := by
  obtain ⟨hdu, hdb⟩ := due_none (Or.inl hpos)
  obtain ⟨hu, hb⟩ := h
  rw [hdu, Micro.backlog, hplace] at hu
  rw [hdb] at hb
  obtain ⟨⟨-, huart⟩, -, hble⟩ := hrec.calls
  constructor
  · intro hk
    obtain ⟨q, ts, hm, ⟨rc, ht, -⟩, -⟩ := hrec.uart
    have h0 : q.state.backlog uartProtocol = 0 := by
      rw [← hm.state_backlog_eq]
      dsimp only at hu
      omega
    exact huart (hm.waits.mpr (ht.waits uart_implements h0))
  · intro hk
    obtain ⟨rc, ht, -⟩ := hrec.ble
    exact hble (ht.waits ble_implements (by omega))

end Fr8012haLock.App
