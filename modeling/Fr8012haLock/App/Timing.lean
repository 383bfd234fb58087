import Fr8012haLock.App.Composition
import Fr8012haLock.Ble.Capacity

/-!
# How soon a frame is answered

Each pass calls `ble_protocol_process` once, and two calls take a whole frame.  So of frames written to a parser at rest
the `k`-th is dispatched by the `2 * k`-th pass, and after the last of them the parser is at rest again, whatever the
UART brings meanwhile (`firmware_responds`).
-/

namespace Fr8012haLock.App

open LinkedList Buffer Common Receive Tasks Ble Uart Runs

/-- An event that writes nothing over the air. -/
def FirmwareEvent.writesNothing : FirmwareEvent → Prop
  | .gatt msg => (DeviceEvent.gatt msg).received = []
  | _ => True

/-- The passes that `app_loop` begins in a run, from the value of `tick` on. -/
def passes (tick : UInt32) (es : List FirmwareEvent) : ℕ := (es.foldl View.step ⟨tick, 0, []⟩).passes

theorem foldl_processes {es : List FirmwareEvent} (hq : ∀ e ∈ es, e.writesNothing) (v : View) :
    ∃ k ds, (es.foldl View.step v).passes = v.passes + k ∧ (es.foldl View.step v).device = v.device ++ ds ∧
      ds.flatMap DeviceEvent.received = List.replicate k .process := by
  induction es generalizing v with
  | nil => exact ⟨0, [], rfl, by simp, rfl⟩
  | cons e es ih =>
    have hq' : ∀ e' ∈ es, e'.writesNothing := fun e' he' => hq e' (List.mem_cons_of_mem e he')
    obtain ⟨k, ds, hk, hds, hproc⟩ := ih hq' (v.step e)
    rw [List.foldl_cons, hk, hds]
    cases e with
    | interrupt intId fifo => exact ⟨k, ds, rfl, rfl, hproc⟩
    | advance => exact ⟨k, ds, rfl, rfl, hproc⟩
    | gap e => exact ⟨k, .gap e :: ds, rfl, by simp [View.step], hproc⟩
    | gatt msg =>
      have hnone : (DeviceEvent.gatt msg).received = [] := hq _ List.mem_cons_self
      exact ⟨k, .gatt msg :: ds, rfl, by simp [View.step], by rw [List.flatMap_cons, hnone, List.nil_append, hproc]⟩
    | loop ms =>
      simp only [View.step]
      obtain ⟨up, tick⟩ := appCommTimeIsUp v.tick 1 ms
      cases up with
      | false => exact ⟨k, ds, rfl, rfl, hproc⟩
      | true =>
        refine ⟨k + 1, .process :: ds, Nat.add_right_comm .., by simp, ?_⟩
        rw [List.flatMap_cons, hproc, List.replicate_succ]
        rfl

theorem passes_foldl (es : List FirmwareEvent) (v : View) :
    (es.foldl View.step v).passes = v.passes + passes v.tick es := by
  unfold passes
  induction es generalizing v with
  | nil => rfl
  | cons e es ih =>
    rw [List.foldl_cons, List.foldl_cons, ih, ih (View.step ⟨v.tick, 0, []⟩ e)]
    cases e with
    | loop ms =>
      simp only [View.step]
      obtain ⟨up, tick⟩ := appCommTimeIsUp v.tick 1 ms
      cases up with
      | false => simp
      | true => simp [Nat.add_assoc]
    | _ => simp [View.step]

theorem parser_run {d d' : Device RingBuffer} {ds : List DeviceEvent} (h : run Device.step d ds = some d') :
    run bleStep d.parser (ds.flatMap DeviceEvent.received) = some d'.parser := by
  induction ds generalizing d with
  | nil =>
    cases h
    rfl
  | cons e ds ih =>
    cases hs : d.step e with
    | none => simp [run, hs] at h
    | some d₁ =>
      rw [run_cons hs] at h
      have hp : run bleStep d.parser e.received = some d₁.parser := by rw [← Device.step_parser, hs, Option.map_some]
      rw [List.flatMap_cons, run_append hp, ih h]

theorem Stands.rebase {a b c : ℕ} {v : View} {f : Firmware} {d₀ : Device RingBuffer} (h : Stands a b c d₀ v f)
    (hpos : f.position = .between) : Stands a b c f.ble ⟨v.tick, v.passes, []⟩ f := by
  obtain ⟨hs, -, hidle, -⟩ := h.between hpos
  exact ⟨h.tick, h.lawful, ⟨_, _, _, hs, by rw [hpos]; exact ⟨rfl, rfl, rfl⟩, hidle, Or.inl ⟨rfl, rfl⟩⟩, h.place⟩

/-- **The parser after calls only.**  From a parser that holds the frames `fs` and nothing else, each second call takes
one of them. -/
theorem calls_of_frames {s s' : State RingBuffer BleProHead} {rc : Framing.Receiver UInt8} {n : ℕ}
    {fs : List (List UInt8 × Call)} (hf : bleFraming.AreFrames fs)
    (ht : Tracks bleProtocol bleFraming s.ring s.statics rc) (hrc : rc = ⟨none, Framing.stream fs⟩)
    (hr : run bleStep s (List.replicate n .process) = some s') :
    s'.calls = s.calls ++ (fs.map Prod.snd).take (n / 2) ∧
      (2 * fs.length ≤ n → s'.ring.unread = [] ∧ s'.statics.readStep = 0) := by
  subst hrc
  obtain ⟨s'', hr', ht', hc⟩ := ht.run_process ble_implements n (Framing.Holds.idle fs) hf
  rw [hr] at hr'
  cases hr'
  rw [Framing.polls_take n hf] at hc
  refine ⟨hc, ?_⟩
  intro hn
  rw [Framing.polls_enough hf hn] at ht'
  exact ⟨ht'.queue, ht'.readStep_iff.mpr rfl⟩

/-- The frames of a list with their commands. -/
def framePairs (fs : List Frame) : List (List UInt8 × Call) := fs.map fun f => (f.bytes, f.call)

theorem areFrames_framePairs (fs : List Frame) : bleFraming.AreFrames (framePairs fs) := by
  intro p hp
  obtain ⟨f, -, rfl⟩ := List.mem_map.mp hp
  exact isFrame_bytes f

theorem stream_framePairs (fs : List Frame) : Framing.stream (framePairs fs) = fs.flatMap Frame.bytes := by
  rw [Framing.stream, framePairs, List.map_map, List.flatMap_def]
  rfl

/-- **Frames are answered in time.**  Take any scheduled run of the firmware up to a moment between two passes at which
the parser is at rest: nothing is unread, and no head is held.  Then let whole frames, of fewer than 512 bytes together,
be written over the air, and after that nothing more, while interrupts come and callbacks and passes take place in any
order.  Between two passes, when `n` of them were made, the first `n / 2` of the frames have been dispatched, in order;
and when `n` is at least twice their number the parser is at rest again. -/
theorem firmware_responds (memUart : Vector UInt8 uartBufferSize.toNat) (memBle : Vector UInt8 bleBufferSize.toNat) :
    ∃ f₀, appInit memUart memBle = .ok f₀ ∧ ∀ es f, Admits Firmware.step Scheduled f₀ es →
      run Firmware.step f₀ es = some f → f.position = .between → f.ble.parser.ring.unread = [] →
      f.ble.parser.statics.readStep = 0 → ∀ (fs : List Frame) (msg : GattMsg), msg.msgEvt = .writeReq →
      msg.msgData = some (fs.flatMap Frame.bytes) → (fs.flatMap Frame.bytes).length < 512 →
      ∀ es', (∀ e ∈ es', e.writesNothing) → Admits Firmware.step Scheduled f (.gatt msg :: es') →
      ∃ f', run Firmware.step f (.gatt msg :: es') = some f' ∧ (f'.position = .between →
        f'.ble.parser.calls = f.ble.parser.calls ++ (fs.map Frame.call).take (passes f.tasks.tick es' / 2) ∧
        (2 * fs.length ≤ passes f.tasks.tick es' →
          f'.ble.parser.ring.unread = [] ∧ f'.ble.parser.statics.readStep = 0)) := by
  obtain ⟨a, b, c, s, hboot⟩ := stands_init
  obtain ⟨f₀, hinit, -, -, -, -, h0⟩ := hboot memUart memBle
  refine ⟨f₀, hinit, ?_⟩
  intro es f ha hr hpos hempty hstep fs msg hevt hdata hlen es' hquiet ha'
  obtain ⟨f₁, hr₁, h⟩ := stands_run h0 ha
  rw [hr] at hr₁
  cases hr₁
  -- the parser is at rest, and the write is kept whole
  obtain ⟨⟨rc, ht⟩, hsize⟩ := lawful_of_run (parser_run (h.between hpos).2.1)
  have hrc : rc = ⟨none, []⟩ := Framing.Receiver.ext (ht.readStep_iff.mp hstep) (ht.queue.symm.trans hempty)
  have hfree : (fs.flatMap Frame.bytes).length < f.ble.parser.ring.free := by
    rw [ht.wf.1.free_eq, ← ht.wf.1.length_unread, hempty, hsize]
    exact hlen
  have ht' := ht.write (appends_of_lt_free ht.wf hfree)
  -- the passes that follow
  obtain ⟨f', hr', h'⟩ := stands_run (h.rebase hpos) ha'
  refine ⟨f', hr', ?_⟩
  intro hpos'
  have hrun := parser_run (h'.between hpos').2.1
  obtain ⟨k, ds, hk, hds, hproc⟩ := foldl_processes hquiet ⟨f.tasks.tick, (view es).passes, [.gatt msg]⟩
  rw [passes_foldl, Nat.add_left_cancel_iff] at hk
  have hview : View.step ⟨(view es).tick, (view es).passes, []⟩ (.gatt msg) =
      ⟨f.tasks.tick, (view es).passes, [.gatt msg]⟩ := by
    rw [h.tick]
    rfl
  have hreceived : (DeviceEvent.gatt msg).received = [.write (fs.flatMap Frame.bytes)] := by
    simp only [DeviceEvent.received, hevt, hdata]
  change run bleStep f.ble.parser
    ((es'.foldl View.step (View.step ⟨(view es).tick, (view es).passes, []⟩ (.gatt msg))).device.flatMap
      DeviceEvent.received) = _ at hrun
  rw [hview, hds, List.flatMap_append, List.flatMap_singleton, hreceived, hproc, List.singleton_append,
    run_cons (show bleStep f.ble.parser (.write (fs.flatMap Frame.bytes)) = some _ from rfl)] at hrun
  have hframes := areFrames_framePairs fs
  have hcalls := calls_of_frames hframes ht' (by rw [hrc, stream_framePairs]; rfl) hrun
  rw [framePairs, List.map_map, List.length_map, ← hk] at hcalls
  exact hcalls

/-- The shortest frame with the opening instruction, whose checksum is `0`. -/
def openingFrame : Frame := ⟨242, 0, 5, [], by decide⟩

/-- The call of `app_loop` that sets `tick`, and two that begin a pass. -/
def openingPasses : List FirmwareEvent :=
  [.loop 7, .loop 8, .advance, .advance, .advance, .interrupt 0x0c [0x55], .advance, .advance, .advance, .loop 8,
    .loop 9, .advance, .advance, .advance, .advance, .advance, .advance]

theorem firmware_responds_opening : ∃ f₀ f',
    appInit (Vector.replicate 512 0) (Vector.replicate 512 0) = .ok f₀ ∧
    run Firmware.step f₀ (.gatt openingMsg :: openingPasses) = some f' ∧ (f'.position = .between →
      f'.ble.parser.calls = f₀.ble.parser.calls ++ [(5, [])].take (passes f₀.tasks.tick openingPasses / 2) ∧
      (2 * 1 ≤ passes f₀.tasks.tick openingPasses →
        f'.ble.parser.ring.unread = [] ∧ f'.ble.parser.statics.readStep = 0)) := by
  obtain ⟨f₀, hinit, h⟩ := firmware_responds (Vector.replicate 512 0) (Vector.replicate 512 0)
  have hquiet : ∀ e ∈ openingPasses, e.writesNothing := by
    simp [openingPasses, FirmwareEvent.writesNothing]
  have hrest : f₀.position = .between ∧ f₀.ble.parser.ring.unread = [] ∧ f₀.ble.parser.statics.readStep = 0 ∧
      Admits Firmware.step Scheduled f₀ (.gatt openingMsg :: openingPasses) := by
    cases hinit
    decide +kernel
  obtain ⟨hpos, hempty, hstep, ha⟩ := hrest
  obtain ⟨f', h'⟩ := h [] f₀ trivial rfl hpos hempty hstep [openingFrame] openingMsg rfl (by decide +kernel)
    (by decide +kernel) openingPasses hquiet ha
  exact ⟨f₀, f', hinit, h'⟩

end Fr8012haLock.App
