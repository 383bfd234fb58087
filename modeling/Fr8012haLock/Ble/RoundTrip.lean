import Fr8012haLock.Ble.Reception

/-!
# Encoder and decoder of the BLE protocol

`enc c` is what `ble_pro_response` hands over for a command; it is the frame of the command (`enc_eq`).
Frames written into the ring one by one, with calls of `ble_protocol_process` anywhere between them, are dispatched in
order, each once (`ble_round_trip`).
-/

namespace Fr8012haLock.Ble

open Cyclic Buffer Common Receive Runs

/-- A command whose frame fits the buffer `response`. -/
structure Command where
  cmd : UInt8
  payload : List UInt8
  fits : payload.length ≤ 249

/-- The command as it is dispatched. -/
def Command.call (c : Command) : Call := (c.cmd, c.payload)

/-- The bytes `ble_pro_response` hands to `ble_service_write_data`. -/
def enc (c : Command) : List UInt8 :=
  let r := bleProResponse c.cmd c.payload (UInt32.ofNat c.payload.length)
  r.1.take r.2.toNat

/-- The frame of a command. -/
def Command.frame (c : Command) : Frame := ⟨0, 0, c.cmd, c.payload, c.fits.trans (by decide)⟩

theorem Command.toNat_size (c : Command) : (UInt32.ofNat c.payload.length).toNat = c.payload.length := by
  have := c.fits
  rw [UInt32.toNat_ofNat']
  omega

theorem Command.toNat_idx (c : Command) : (bleHeadSize + UInt32.ofNat c.payload.length).toNat =
    (c.frame.head ++ c.payload).length := by
  have := c.fits
  rw [UInt32.toNat_add, c.toNat_size, List.length_append]
  show (6 + _) % _ = 6 + _
  omega

theorem Command.toBytes_head (c : Command) :
    BleProHead.toBytes ⟨bleProHeadStx, (UInt32.ofNat c.payload.length).toUInt8, 0, 0, c.cmd⟩ = c.frame.head := by
  have hlen : (UInt32.ofNat c.payload.length).toUInt8 = UInt8.ofNat c.payload.length := by
    apply UInt8.toNat_inj.mp
    rw [UInt32.toNat_toUInt8, c.toNat_size, UInt8.toNat_ofNat']
  have hstx : LittleEndian.bytes 2 bleProHeadStx.toNat = [0xA4, 0xA3] := by decide
  rw [hlen, BleProHead.toBytes, hstx]
  rfl

/-- **The encoder makes the frame of the command.** -/
theorem enc_eq (c : Command) : enc c = c.frame.bytes := by
  have hfit := c.fits
  have hsix : bleHeadSize.toNat = c.frame.head.length := rfl
  have htotal : (bleHeadSize + UInt32.ofNat c.payload.length + 1).toNat =
      (c.frame.head ++ c.payload).length + 1 := by
    rw [UInt32.toNat_add, c.toNat_idx, List.length_append, c.frame.length_head]
    show (_ + 1) % _ = _
    omega
  simp only [enc, bleProResponse, c.toBytes_head, c.toNat_size, c.toNat_idx, htotal, List.take_length]
  rw [hsix, memcpy_front (by rw [List.length_replicate, c.frame.length_head]; omega), appCommCheckCrc8_append le_rfl]
  -- the checksum takes the place of the first zero behind head and payload
  obtain ⟨z, hz⟩ : ∃ z, (List.replicate 256 (0 : UInt8)).drop (c.frame.head.length + c.payload.length) = 0 :: z := by
    refine ⟨List.replicate (249 - c.payload.length) 0, ?_⟩
    rw [List.drop_replicate, ← List.replicate_succ, c.frame.length_head]
    congr 1
    omega
  rw [hz, List.set_append_right _ _ le_rfl, Nat.sub_self, List.set_cons_zero, List.take_append,
    List.take_of_length_le (Nat.le_succ _), Nat.add_sub_cancel_left, List.append_assoc]
  rfl

theorem isFrame_enc (c : Command) : bleFraming.IsFrame (enc c) c.call := enc_eq c ▸ isFrame_bytes c.frame

/-! ### Commands through the ring -/

/-- What happens while commands are sent: the frame of one is written into the ring, or the parser is called. -/
inductive Traffic where
  | send (c : Command)
  | process

/-- What happens to the parser. -/
def Traffic.event : Traffic → Event
  | .send c => .write (enc c)
  | .process => .process

/-- The command sent, as it is dispatched. -/
def Traffic.sent : Traffic → List Call
  | .send c => [c.call]
  | .process => []

/-- The commands sent, in order. -/
def sent (ts : List Traffic) : List Call := ts.flatMap Traffic.sent

/-- One step of the traffic. -/
def trafficStep (s : State RingBuffer BleProHead) (t : Traffic) : Option (State RingBuffer BleProHead) :=
  bleStep s t.event

/-- The write of a frame leaves a byte of the ring free. -/
def LeavesRoom (s : State RingBuffer BleProHead) (t : Traffic) : Prop := SmallWrites s t.event

instance (s : State RingBuffer BleProHead) (t : Traffic) : Decidable (LeavesRoom s t) := by
  unfold LeavesRoom; infer_instance

/-- The commands dispatched and the frames in the ring, the one whose head is read included, are what was sent. -/
def Delivers (ts : List Traffic) (s : State RingBuffer BleProHead) : Prop :=
  ∃ rc fs, Tracks bleProtocol bleFraming s.ring s.statics rc ∧ bleFraming.Holds rc fs ∧ bleFraming.AreFrames fs ∧
    sent ts = s.calls ++ fs.map Prod.snd

theorem delivers_init (mem : Vector UInt8 bleBufferSize.toNat) : Delivers [] (bleProtocolInit mem) := by
  obtain ⟨rc, ht, hdec⟩ := follows_init mem
  have hrep := represents_init (by decide) mem
  have hq : rc = ⟨none, []⟩ := Framing.Receiver.ext (ht.readStep_iff.mp rfl) (ht.queue.symm.trans hrep.unread)
  exact ⟨rc, [], ht, hq ▸ Framing.Holds.idle [], fun _ h => absurd h List.not_mem_nil, rfl⟩

theorem Delivers.step {ts : List Traffic} {s : State RingBuffer BleProHead} {t : Traffic} (h : Delivers ts s)
    (hok : LeavesRoom s t) : ∃ s', trafficStep s t = some s' ∧ Delivers (ts ++ [t]) s' := by
  obtain ⟨rc, fs, ht, hr, hf, hsent⟩ := h
  have hsnoc : sent (ts ++ [t]) = sent ts ++ t.sent := by simp [sent]
  cases t with
  | send c =>
    have happ := appends_of_lt_free ht.wf hok
    have hfeed := hr.feed [(enc c, c.call)]
    rw [Framing.stream_cons, Framing.stream_nil, List.append_nil] at hfeed
    refine ⟨_, rfl, _, _, ht.write happ, hfeed, ?_, ?_⟩
    · intro p hp
      rcases List.mem_append.mp hp with hp | hp
      · exact hf p hp
      · rw [List.mem_singleton] at hp
        exact hp ▸ isFrame_enc c
    · rw [hsnoc, hsent, List.map_append, List.append_assoc]
      rfl
  | process =>
    obtain ⟨r', s', hp, ht'⟩ := ht.process ble_implements (ht.headNotLast hr hf)
    obtain ⟨gs, hg, hgf, hout⟩ := hr.poll hf
    refine ⟨⟨r', s', s.calls ++ (bleFraming.poll rc).2.toList⟩, ?_, _, gs, ht', hg, hgf, ?_⟩
    · show (protocolProcess bleProtocol s.ring s.statics).map _ = _
      rw [hp]
      rfl
    · rw [hsnoc, hsent, hout]
      simp [Traffic.sent]

/-- Two calls for each command that is still in the ring dispatch it, and leave the ring empty. -/
theorem Delivers.drain {ts : List Traffic} {s : State RingBuffer BleProHead} (h : Delivers ts s) :
    ∃ s', run bleStep s (List.replicate (2 * ((sent ts).length - s.calls.length)) .process) = some s' ∧
      s'.calls = sent ts ∧ s'.ring.unread = [] ∧ s'.statics.readStep = 0 := by
  obtain ⟨rc, fs, ht, hr, hf, hsent⟩ := h
  have hm : (sent ts).length - s.calls.length = fs.length := by rw [hsent]; simp
  rw [hm]
  obtain ⟨s', hrun, ht', hc⟩ := ht.run_process ble_implements (2 * fs.length) hr hf
  rw [hr.polls_drain hf] at ht' hc
  exact ⟨s', hrun, hc.trans hsent.symm, ht'.queue, ht'.readStep_iff.mpr rfl⟩

/-- **Every command sent is dispatched, in order and once.**  In every run from the initial state in which frames of
commands are written, each leaving a byte of the ring free, the commands dispatched are a prefix of those sent; and
twice as many calls as commands are missing dispatch the rest and leave the ring empty. -/
theorem ble_round_trip (mem : Vector UInt8 bleBufferSize.toNat) (ts : List Traffic)
    (ha : Admits trafficStep LeavesRoom (bleProtocolInit mem) ts) :
    ∃ s, run trafficStep (bleProtocolInit mem) ts = some s ∧ s.calls <+: sent ts ∧
      ∃ s', run bleStep s (List.replicate (2 * ((sent ts).length - s.calls.length)) .process) = some s' ∧
        s'.calls = sent ts ∧ s'.ring.unread = [] ∧ s'.statics.readStep = 0 := by
  obtain ⟨s, hr, hd⟩ := run_keeps (fun _ _ _ h hok => Delivers.step h hok) [] (delivers_init mem) ha
  refine ⟨s, hr, ?_, hd.drain⟩
  obtain ⟨rc, fs, -, -, -, hsent⟩ := hd
  exact ⟨_, hsent.symm⟩

/-- A payload that looks like a head, and a frame behind it. -/
theorem ble_round_trip_two :
    ∃ s, run trafficStep (bleProtocolInit (Vector.replicate 512 0))
        [.send ⟨5, [0xA4, 0xA3, 1], by decide⟩, .process, .send ⟨0x31, [], by decide⟩] = some s ∧
      s.calls <+: [(5, [0xA4, 0xA3, 1]), (0x31, [])] ∧
      ∃ s', run bleStep s (List.replicate (2 * (2 - s.calls.length)) .process) = some s' ∧
        s'.calls = [(5, [0xA4, 0xA3, 1]), (0x31, [])] ∧ s'.ring.unread = [] ∧ s'.statics.readStep = 0 :=
  ble_round_trip (Vector.replicate 512 0)
    [.send ⟨5, [0xA4, 0xA3, 1], by decide⟩, .process, .send ⟨0x31, [], by decide⟩] (by decide +kernel)

end Fr8012haLock.Ble
