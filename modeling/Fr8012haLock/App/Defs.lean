import Fr8012haLock.Uart.OnRing
import Fr8012haLock.Ble.Dispatch
import Fr8012haLock.Tasks.Periodic

/-!
# The firmware (`app_init.c`)

`app_init` registers the two parsers and `task_idle` with the scheduler, and has the operating system call `app_loop`,
which is `task_run`.  The processor is between two calls of `app_loop`, in the loop of `task_run`, or in
`uart_protocol_process` in front of a ring operation (`Position`).  The UART interrupts it anywhere.  The BLE stack calls
its callbacks between two calls of `app_loop` only, since the operating system does not interrupt one.
-/

namespace Fr8012haLock.App

open LinkedList Buffer Common Receive Tasks Ble Uart Runs

/-- The address of `uart_protocol_process`.  Of the addresses of functions only matters that they differ. -/
def uartProtocolProcessAddr : ℕ := 1

/-- The address of `ble_protocol_process`. -/
def bleProtocolProcessAddr : ℕ := 2

/-- The address of `task_idle`. -/
def taskIdleAddr : ℕ := 3

/-- Where the processor is. -/
inductive Position where
  /-- in the loop of the operating system -/
  | between
  /-- in `task_run`, in front of the test of `temp` -/
  | visiting (temp : Option ℕ)
  /-- in `uart_protocol_process`, which the visit of `temp` has called -/
  | inUart (temp : ℕ)
  deriving DecidableEq, Repr

/-- The state of the firmware; `idleCalls` counts the calls of `task_idle`, which prints how much of the heap is
free. -/
structure Firmware where
  tasks : Scheduler
  position : Position
  ble : Device RingBuffer
  uart : Micro RingBuffer UartProHead
  idleCalls : ℕ

/-- What `app_init` registers, in order: `uart_protocol_init`, `ble_protocol_init`, and the last line of `app_init`. -/
def registrations : List (ℕ × UInt32) :=
  [(uartProtocolProcessAddr, 0), (bleProtocolProcessAddr, 0), (taskIdleAddr, 5000)]

/-- `app_init`, where the allocations succeed; `memUart` and `memBle` are what is in the blocks allocated. -/
def appInit (memUart : Vector UInt8 uartBufferSize.toNat) (memBle : Vector UInt8 bleBufferSize.toNat) :
    Except Fault Firmware := do
  let store ← execOps Store.empty (registerAll registrations)
  .ok ⟨⟨store, 0⟩, .between, deviceInit memBle, uartProtocolInit memUart, 0⟩

/-- `temp = temp->next`; `none` when the cell is not there. -/
def moveOn (f : Firmware) (temp : ℕ) : Option Firmware :=
  (f.tasks.store.heap.cell temp).map fun task => { f with position := .visiting task.next }

/-- `temp->task_process()`, from the visit of `temp`; `none` when there is no such function, or it does not return. -/
def callTask (f : Firmware) (temp : ℕ) (taskProcess : ℕ) : Option Firmware :=
  if taskProcess = uartProtocolProcessAddr then some { f with position := .inUart temp }
  else if taskProcess = bleProtocolProcessAddr then
    (f.ble.step .process).bind fun ble => moveOn { f with ble := ble } temp
  else if taskProcess = taskIdleAddr then moveOn { f with idleCalls := f.idleCalls + 1 } temp
  else none

/-- The processor goes on, up to the next ring operation of `uart_protocol_process` or the next visit. -/
def advance (f : Firmware) : Option Firmware :=
  match f.position with
  | .between => some f
  | .visiting none => some { f with position := .between }
  | .visiting (some temp) =>
    (f.tasks.store.heap.cell temp).bind fun task =>
      let f := { f with tasks.store := f.tasks.store.tick temp }
      if task.val.due then callTask f temp task.val.taskProcess else moveOn f temp
  | .inUart temp =>
    let f := { f with uart := Receive.advance uartProtocol f.uart }
    match f.uart.place with
    | .idle => moveOn f temp
    | _ => some f

/-- `app_loop`, with the reading `ms` of the clock, up to the first visit. -/
def appLoop (f : Firmware) (ms : UInt32) : Firmware :=
  let (up, tick) := appCommTimeIsUp f.tasks.tick 1 ms
  let f := { f with tasks.tick := tick }
  if up then { f with position := .visiting f.tasks.store.taskHead } else f

/-- What happens: the UART interrupts, the stack calls one of its callbacks, the operating system calls `app_loop`, or
the processor goes on. -/
inductive FirmwareEvent where
  | interrupt (intId : UInt8) (fifo : List UInt8)
  | gatt (msg : GattMsg)
  | gap (e : GapEvent)
  | loop (ms : UInt32)
  | advance

/-- One event; `none` for a fault. -/
def Firmware.step (f : Firmware) : FirmwareEvent → Option Firmware
  | .interrupt intId fifo => some { f with uart := interrupted f.uart intId fifo }
  | .gatt msg => (f.ble.step (.gatt msg)).map fun ble => { f with ble := ble }
  | .gap e => (f.ble.step (.gap e)).map fun ble => { f with ble := ble }
  | .loop ms => some (appLoop f ms)
  | .advance => advance f

/-- The operating system calls callbacks and `app_loop` only when the last call of `app_loop` has returned. -/
def Scheduled (f : Firmware) : FirmwareEvent → Prop
  | .interrupt .. => True
  | .advance => True
  | _ => f.position = .between

instance : ∀ (f : Firmware) (e : FirmwareEvent), Decidable (Scheduled f e)
  | _, .interrupt .. => isTrue trivial
  | _, .advance => isTrue trivial
  | f, .gatt _ => inferInstanceAs (Decidable (f.position = .between))
  | f, .gap _ => inferInstanceAs (Decidable (f.position = .between))
  | f, .loop _ => inferInstanceAs (Decidable (f.position = .between))

end Fr8012haLock.App
