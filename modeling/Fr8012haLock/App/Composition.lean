import Fr8012haLock.App.Passes

/-!
# The firmware is composed of its parts

Run together under the interrupts, the parts of the firmware do what they do alone: between two passes the tasks are
what `task_run` leaves of them for the readings of the clock, and the BLE side is the device of `Ble.Service` that was
given its callbacks and one call of its parser a pass (`firmware_composes`).  So nothing that arrives on the UART, and
nothing about when it does, makes a difference to the BLE side (`uart_leaves_ble_alone`).
-/

namespace Fr8012haLock.App

open LinkedList Buffer Common Receive Tasks Ble Uart Runs

/-! ### The log of `task_run` -/

/-- The readings of the clock by `app_loop`. -/
def FirmwareEvent.readings : FirmwareEvent → List UInt32
  | .loop ms => [ms]
  | _ => []

theorem log_of_view {l : List (ℕ × Task)} {fuel : ℕ} (hf : l.length ≤ fuel) (es : List FirmwareEvent) {g : Log}
    {v : View} (hg : g.From l) (htick : g.c.tick = v.tick) (hpasses : g.passes.length = v.passes) :
    ∃ g', run (logStep fuel) g (es.flatMap FirmwareEvent.readings) = some g' ∧ g'.From l ∧
      g'.c.tick = (es.foldl View.step v).tick ∧ g'.passes.length = (es.foldl View.step v).passes := by
  induction es generalizing g v with
  | nil => exact ⟨g, rfl, hg, htick, hpasses⟩
  | cons e es ih =>
    cases e with
    | interrupt intId fifo => exact ih hg htick hpasses
    | gatt msg => exact ih hg htick hpasses
    | gap e => exact ih hg htick hpasses
    | advance => exact ih hg htick hpasses
    | loop ms =>
      obtain ⟨g₁, hs, hg₁, htick₁, hlen₁⟩ := hg.step hf ms
      rw [htick] at htick₁ hlen₁
      have hview : (v.step (.loop ms)).tick = (appCommTimeIsUp v.tick 1 ms).2 ∧
          (v.step (.loop ms)).passes = v.passes + if (appCommTimeIsUp v.tick 1 ms).1 then 1 else 0 := by
        simp only [View.step]
        split <;> exact ⟨rfl, rfl⟩
      obtain ⟨g', hr, h'⟩ := ih hg₁ (htick₁.trans hview.1.symm) (by rw [hlen₁, hview.2, hpasses])
      exact ⟨g', by rw [List.flatMap_cons, FirmwareEvent.readings, List.singleton_append, run_cons hs, hr], h'⟩

/-! ### The parts of a run -/

/-- **The firmware is composed of its parts.**  Let the interrupts of the UART come anywhere, and the callbacks of the
stack between two calls of `app_loop`, in any number and order, with any data and any readings of the clock.  The
firmware does not fault; and whenever it is between two passes

* the list of tasks and `tick` are those that `task_run` leaves for the readings;
* the BLE side is the device that was given the callbacks, and a call of its parser for each pass;
* `task_idle` was called once in 5000 passes, and no call of `uart_protocol_process` is going on. -/
theorem firmware_composes (memUart : Vector UInt8 uartBufferSize.toNat) (memBle : Vector UInt8 bleBufferSize.toNat) :
    ∃ f₀, appInit memUart memBle = .ok f₀ ∧ ∀ es, Admits Firmware.step Scheduled f₀ es →
      ∃ f g, run Firmware.step f₀ es = some f ∧
        run (logStep 3) ⟨f₀.tasks, []⟩ (es.flatMap FirmwareEvent.readings) = some g ∧
        g.passes.length = (view es).passes ∧
        (f.position = .between →
          (∃ l, g.c.store.Holds l ∧ f.tasks.store.Holds l) ∧ f.tasks.tick = g.c.tick ∧
          run Device.step (deviceInit memBle) (view es).device = some f.ble ∧
          f.idleCalls = g.passes.length / 5000 ∧ f.uart.place = .idle) := by
  obtain ⟨a, b, c, s, hboot⟩ := stands_init
  obtain ⟨f₀, hinit, htasks, hpos0, -, -, h0⟩ := hboot memUart memBle
  have htick0 : f₀.tasks.tick = 0 := by rw [htasks]
  refine ⟨f₀, hinit, ?_⟩
  intro es ha
  have hlog : Log.From (visited a b c 0 0 0) ⟨f₀.tasks, []⟩ := log_from_nil (h0.between hpos0).1 f₀.tasks.tick
  obtain ⟨f, hr, h⟩ := stands_run h0 ha
  obtain ⟨g, hg, hfrom, htick, hlen⟩ := log_of_view (v := ⟨0, 0, []⟩) (le_refl 3) es hlog htick0 rfl
  refine ⟨f, g, hr, hg, hlen, ?_⟩
  intro hpos
  obtain ⟨hs, hble, hidle, hplace⟩ := h.between hpos
  have hafter : after g.passes.length (visited a b c 0 0 0) =
      visited a b c g.passes.length g.passes.length g.passes.length := rfl
  rw [← hlen] at hs hidle
  exact ⟨⟨_, hfrom.1, hafter ▸ hs⟩, h.tick.trans htick.symm, hble, hidle, hplace⟩

/-- A frame without payload is written, the command to open. -/
def openingMsg : GattMsg := ⟨.writeReq, 1, .char2Value, 7, some [0xA4, 0xA3, 0, 242, 0, 5, 0], by decide⟩

/-- A frame is written, two passes take place, and in the first of them an interrupt brings the bytes of `fifo`. -/
def twoPasses (fifo : List UInt8) : List FirmwareEvent :=
  [.gap (.slaveConnect 1), .gatt openingMsg, .loop 7, .loop 8, .advance, .interrupt 0x04 fifo, .advance, .advance,
    .advance, .advance, .advance, .loop 9, .advance, .advance, .advance, .advance, .advance, .advance]

theorem firmware_composes_two : ∃ f₀ f g, appInit (Vector.replicate 512 0) (Vector.replicate 512 0) = .ok f₀ ∧
    run Firmware.step f₀ (twoPasses [0x55]) = some f ∧
    run (logStep 3) ⟨f₀.tasks, []⟩ ((twoPasses [0x55]).flatMap FirmwareEvent.readings) = some g ∧
    g.passes.length = (view (twoPasses [0x55])).passes ∧
    (f.position = .between →
      (∃ l, g.c.store.Holds l ∧ f.tasks.store.Holds l) ∧ f.tasks.tick = g.c.tick ∧
      run Device.step (deviceInit (Vector.replicate 512 0)) (view (twoPasses [0x55])).device = some f.ble ∧
      f.idleCalls = g.passes.length / 5000 ∧ f.uart.place = .idle) := by
  obtain ⟨f₀, hinit, h⟩ := firmware_composes (Vector.replicate 512 0) (Vector.replicate 512 0)
  have ha : Admits Firmware.step Scheduled f₀ (twoPasses [0x55]) := by
    cases hinit
    decide +kernel
  obtain ⟨f, g, h⟩ := h (twoPasses [0x55]) ha
  exact ⟨f₀, f, g, hinit, h⟩

/-! ### The UART and the BLE side -/

/-- Callbacks of the stack and calls of `app_loop`: neither an interrupt nor a step of the processor. -/
def FirmwareEvent.ofBleSide : FirmwareEvent → Bool
  | .interrupt .. => false
  | .advance => false
  | _ => true

theorem foldl_step_filter (es : List FirmwareEvent) (v : View) :
    (es.filter FirmwareEvent.ofBleSide).foldl View.step v = es.foldl View.step v := by
  induction es generalizing v with
  | nil => rfl
  | cons e es ih => cases e <;> exact ih _

/-- **The UART leaves the BLE side alone.**  Take two runs of the firmware with the same callbacks and calls of
`app_loop`, whatever interrupts come in each, wherever they come, and whatever their bytes make of the UART parser.
Between two passes the BLE side, the tasks and the calls of `task_idle` are the same in both. -/
theorem uart_leaves_ble_alone (memUart memUart' : Vector UInt8 uartBufferSize.toNat)
    (memBle : Vector UInt8 bleBufferSize.toNat) :
    ∃ f₀ f₀', appInit memUart memBle = .ok f₀ ∧ appInit memUart' memBle = .ok f₀' ∧
      ∀ es es', Admits Firmware.step Scheduled f₀ es → Admits Firmware.step Scheduled f₀' es' →
        es.filter FirmwareEvent.ofBleSide = es'.filter FirmwareEvent.ofBleSide →
        ∃ f f', run Firmware.step f₀ es = some f ∧ run Firmware.step f₀' es' = some f' ∧
          (f.position = .between → f'.position = .between → f.ble = f'.ble ∧ f.idleCalls = f'.idleCalls ∧
            f.tasks.tick = f'.tasks.tick ∧ ∃ l, f.tasks.store.Holds l ∧ f'.tasks.store.Holds l) := by
  obtain ⟨a, b, c, s, hboot⟩ := stands_init
  obtain ⟨f₀, hinit, -, -, -, -, h0⟩ := hboot memUart memBle
  obtain ⟨f₀', hinit', -, -, -, -, h0'⟩ := hboot memUart' memBle
  refine ⟨f₀, f₀', hinit, hinit', ?_⟩
  intro es es' ha ha' hsame
  have hview : es'.foldl View.step ⟨0, 0, []⟩ = es.foldl View.step ⟨0, 0, []⟩ := by
    rw [← foldl_step_filter es', ← hsame, foldl_step_filter es]
  obtain ⟨f, hr, h⟩ := stands_run h0 ha
  obtain ⟨f', hr', h'⟩ := stands_run h0' ha'
  rw [hview] at h'
  refine ⟨f, f', hr, hr', ?_⟩
  intro hpos hpos'
  obtain ⟨hs, hble, hidle, -⟩ := h.between hpos
  obtain ⟨hs', hble', hidle', -⟩ := h'.between hpos'
  refine ⟨?_, hidle.trans hidle'.symm, h.tick.trans h'.tick.symm, _, hs, hs'⟩
  rw [hble] at hble'
  exact Option.some.inj hble'

/-- The same run with two interrupts. -/
theorem uart_leaves_ble_alone_two : ∃ f₀ f f',
    appInit (Vector.replicate 512 0) (Vector.replicate 512 0) = .ok f₀ ∧
    run Firmware.step f₀ (twoPasses [0x55, 1]) = some f ∧ run Firmware.step f₀ (twoPasses []) = some f' ∧
    (f.position = .between → f'.position = .between → f.ble = f'.ble ∧ f.idleCalls = f'.idleCalls ∧
      f.tasks.tick = f'.tasks.tick ∧ ∃ l, f.tasks.store.Holds l ∧ f'.tasks.store.Holds l) := by
  obtain ⟨f₀, f₀', hinit, hinit', h⟩ :=
    uart_leaves_ble_alone (Vector.replicate 512 0) (Vector.replicate 512 0) (Vector.replicate 512 0)
  have ha : Admits Firmware.step Scheduled f₀ (twoPasses [0x55, 1]) := by
    cases hinit
    decide +kernel
  have ha' : Admits Firmware.step Scheduled f₀' (twoPasses []) := by
    cases hinit'
    decide +kernel
  obtain ⟨f, f', hr, hr', hsame⟩ := h _ _ ha ha' rfl
  rw [hinit] at hinit'
  cases hinit'
  exact ⟨f₀, f, f', hinit, hr, hr', hsame⟩

end Fr8012haLock.App
