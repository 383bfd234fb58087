import Fr8012haLock.Ble.Service

/-!
# Interference in the command stream

Two kinds of events reach the command stream that should not.  A write of a client configuration is appended to it like
a command; it goes unnoticed if the parser holds no unfinished frame and the bytes cannot begin one
(`cfg_writes_unnoticed`).  What a connection leaves unread stays in the ring when the link is lost; the next session is
independent of it if it cannot begin a frame (`sessions_independent`).  The runs behind the theorems show what happens
otherwise.
-/

namespace Fr8012haLock.Ble

open Cyclic Buffer Receive Runs

/-! ### Quiet bytes -/

/-- No frame begins in the bytes, whatever follows: there is no `A4 A3`, and no `A4` at the end. -/
def QuietBytes (bytes : List UInt8) : Prop :=
  ∀ i < bytes.length, bytes.getD i 0 = 0xA4 → i + 1 < bytes.length ∧ bytes.getD (i + 1) 0 ≠ 0xA3

instance (bytes : List UInt8) : Decidable (QuietBytes bytes) := by unfold QuietBytes; infer_instance

theorem headAt_drop {s : List UInt8} {i : ℕ} :
    bleFraming.HeadAt (s.drop i) ↔ 6 ≤ s.length - i ∧ s.getD i 0 = 0xA4 ∧ s.getD (i + 1) 0 = 0xA3 := by
  rw [bleFraming_headAt, List.length_drop]
  simp

theorem quietBytes_iff (a : List UInt8) : QuietBytes a ↔ bleFraming.Quiet a := by
  constructor
  · intro h t i hi hat
    obtain ⟨-, h4, h3⟩ := headAt_drop.mp hat
    rw [List.getD_append _ _ _ _ hi] at h4
    obtain ⟨hlt, hne⟩ := h i hi h4
    rw [List.getD_append _ _ _ _ hlt] at h3
    exact hne h3
  · intro h i hi h4
    by_contra hno
    -- the byte behind is `A3`, or can be
    refine h (0xA3 :: List.replicate 5 0) i hi (headAt_drop.mpr ⟨?_, ?_, ?_⟩)
    · simp
      omega
    · rw [List.getD_append _ _ _ _ hi, h4]
    · rcases Nat.lt_or_ge (i + 1) a.length with hlt | hge
      · rw [List.getD_append _ _ _ _ hlt]
        by_contra hne
        exact hno ⟨hlt, hne⟩
      · rw [List.getD_append_right _ _ _ _ hge, show i + 1 - a.length = 0 by omega]
        rfl

/-! ### Writes of the client configuration -/

/-- A write to one of the two client configurations. -/
def DeviceEvent.isCfgWrite : DeviceEvent → Bool
  | .gatt msg => msg.msgEvt = .writeReq ∧ (msg.attIdx = .char1Cfg ∨ msg.attIdx = .char2Cfg)
  | _ => false

/-- The parser receives only writes smaller than the free size, and no call in a state of `SkipsToEnd`. -/
def DeviceSafe (d : Device RingBuffer) (e : DeviceEvent) : Prop := ∀ e' ∈ e.received, BleSafe d.parser e'

instance (d : Device RingBuffer) (e : DeviceEvent) : Decidable (DeviceSafe d e) := by
  unfold DeviceSafe; infer_instance

/-- The parser holds no unfinished frame, and nothing that can begin one. -/
def BetweenFrames (p : State RingBuffer BleProHead) : Prop := QuietBytes (bleFraming.rest (p.pending bleProtocol))

instance (p : State RingBuffer BleProHead) : Decidable (BetweenFrames p) := by unfold BetweenFrames; infer_instance

/-- In addition, a client configuration is written between frames only, and cannot begin one. -/
def CfgBetweenFrames (d : Device RingBuffer) (e : DeviceEvent) : Prop :=
  DeviceSafe d e ∧ (e.isCfgWrite = true → BetweenFrames d.parser ∧ ∀ e' ∈ e.received, QuietBytes e'.bytes)

instance (d : Device RingBuffer) (e : DeviceEvent) : Decidable (CfgBetweenFrames d e) := by
  unfold CfgBetweenFrames; infer_instance

theorem device_step_alike {c₁ c₂ : List Call} {d₁ d₂ : Device RingBuffer} {e : DeviceEvent}
    (h : AlikeSince bleProtocol bleFraming c₁ c₂ d₁.parser d₂.parser) (h₁ : DeviceSafe d₁ e) (h₂ : DeviceSafe d₂ e) :
    ∃ d₁' d₂', d₁.step e = some d₁' ∧ d₂.step e = some d₂' ∧
      AlikeSince bleProtocol bleFraming c₁ c₂ d₁'.parser d₂'.parser := by
  have hp : ∃ p₁ p₂, run bleStep d₁.parser e.received = some p₁ ∧ run bleStep d₂.parser e.received = some p₂ ∧
      AlikeSince bleProtocol bleFraming c₁ c₂ p₁ p₂ := by
    rcases received_cases e with he | ⟨e', he⟩
    · exact ⟨_, _, by rw [he]; rfl, by rw [he]; rfl, h⟩
    · have hm : e' ∈ e.received := by simp [he]
      obtain ⟨p₁, p₂, hs₁, hs₂, hal⟩ := h.step ble_implements ((h₁ e' hm).faithful h.wf_left)
        ((h₂ e' hm).faithful h.wf_right)
      exact ⟨p₁, p₂, by rw [he, run_cons hs₁]; rfl, by rw [he, run_cons hs₂]; rfl, hal⟩
  obtain ⟨p₁, p₂, hr₁, hr₂, hal⟩ := hp
  obtain ⟨d₁', hd₁, rfl⟩ := Device.step_of_parser hr₁
  obtain ⟨d₂', hd₂, rfl⟩ := Device.step_of_parser hr₂
  exact ⟨d₁', d₂', hd₁, hd₂, hal⟩

theorem device_cfg_alike {c₁ c₂ : List Call} {d₁ d₂ : Device RingBuffer} {e : DeviceEvent}
    (h : AlikeSince bleProtocol bleFraming c₁ c₂ d₁.parser d₂.parser) (hcfg : e.isCfgWrite = true)
    (h₁ : CfgBetweenFrames d₁ e) :
    ∃ d₁', d₁.step e = some d₁' ∧ AlikeSince bleProtocol bleFraming c₁ c₂ d₁'.parser d₂.parser := by
  obtain ⟨hsafe, hquiet⟩ := h₁
  obtain ⟨hbetween, hbytes⟩ := hquiet hcfg
  have hp : ∃ p₁, run bleStep d₁.parser e.received = some p₁ ∧
      AlikeSince bleProtocol bleFraming c₁ c₂ p₁ d₂.parser := by
    rcases received_cases e with he | ⟨e', he⟩
    · exact ⟨_, by rw [he]; rfl, h⟩
    · have hm : e' ∈ e.received := by simp [he]
      cases e' with
      | process =>
        cases e with
        | gatt msg =>
          unfold DeviceEvent.received at he
          dsimp only at he
          split at he <;> cases he
        | gap e => cases he
        | process => cases hcfg
      | write bytes =>
        obtain ⟨p₁, hs₁, hal⟩ := h.quiet_write ble_implements ((hsafe _ hm).faithful h.wf_left)
          ((quietBytes_iff _).mp (hbytes _ hm)) ((quietBytes_iff _).mp hbetween)
        exact ⟨p₁, by rw [he, run_cons hs₁]; rfl, hal⟩
  obtain ⟨p₁, hr₁, hal⟩ := hp
  obtain ⟨d₁', hd₁, rfl⟩ := Device.step_of_parser hr₁
  exact ⟨d₁', hd₁, hal⟩

theorem alikeSince_init (mem : Vector UInt8 bleBufferSize.toNat) :
    AlikeSince bleProtocol bleFraming [] [] (deviceInit mem).parser (deviceInit mem).parser := by
  obtain ⟨rc, ht, -⟩ := follows_init mem
  have hrep := represents_init (by decide) mem
  have hun : LawfulRing.unread (deviceInit mem).parser.ring = [] := hrep.unread
  exact alikeSince_of_quiet ⟨rc, ht⟩ ⟨rc, ht⟩ rfl rfl (hun ▸ Framing.quiet_nil) (hun ▸ Framing.quiet_nil)

/-- **Client configurations go unnoticed** if they are written between frames and cannot begin one: without them the
same commands are dispatched. -/
theorem cfg_writes_unnoticed (mem : Vector UInt8 bleBufferSize.toNat) (es : List DeviceEvent)
    (ha : Admits Device.step CfgBetweenFrames (deviceInit mem) es)
    (hb : Admits Device.step DeviceSafe (deviceInit mem) (es.filter fun e => !e.isCfgWrite)) :
    ∃ d d', run Device.step (deviceInit mem) es = some d ∧
      run Device.step (deviceInit mem) (es.filter fun e => !e.isCfgWrite) = some d' ∧
      d.parser.calls = d'.parser.calls := by
  obtain ⟨d, d', hr, hr', _, _, new, -, -, -, hc, hc'⟩ := run_related
    (R := fun d₁ d₂ => AlikeSince bleProtocol bleFraming [] [] d₁.parser d₂.parser)
    (fun _ _ _ _ h h₁ h₂ => device_step_alike h h₁.1 h₂)
    (fun _ _ _ hk h h₁ => device_cfg_alike h (by simpa using hk) h₁) (alikeSince_init mem) ha hb
  exact ⟨d, d', hr, hr', hc.trans hc'.symm⟩

/-- A write request on the link `0`. -/
def writeReq (attIdx : GattIndex) (data : List UInt8) (h : data.length < 2 ^ 16) : DeviceEvent :=
  .gatt ⟨.writeReq, 0, attIdx, UInt16.ofNat data.length, some data, by
    intro d hd
    cases hd
    rw [UInt16.toNat_ofNat', Nat.mod_eq_of_lt h]⟩

/-- The opening instruction in two pieces, with a write of the client configuration before, between or behind them. -/
def cfgRun (before between behind : List DeviceEvent) : List DeviceEvent :=
  before ++ [writeReq .char2Value [0xA4, 0xA3, 0, 242, 0] (by decide)] ++ between ++
    [writeReq .char2Value [5, 0] (by decide)] ++ behind ++ [.process, .process]

/-- A client configuration between the two pieces makes a frame of its own, and the instruction is lost. -/
theorem cfg_inside_frame :
    let d := deviceInit (Vector.replicate 512 0)
    let es := cfgRun [] [writeReq .char1Cfg [1, 0] (by decide)] []
    let es' := es.filter fun e => !e.isCfgWrite
    Admits Device.step DeviceSafe d es ∧ Admits Device.step DeviceSafe d es' ∧
      (run Device.step d es).map (fun d => d.parser.calls) = some [] ∧
      (run Device.step d es').map (fun d => d.parser.calls) = some [(5, [])] := by
  decide +kernel

/-- Client configurations before the first piece and behind the second, before any call. -/
theorem cfg_writes_unnoticed_outside :
    ∃ d d', run Device.step (deviceInit (Vector.replicate 512 0))
        (cfgRun [writeReq .char1Cfg [1, 0] (by decide)] [] [writeReq .char2Cfg [1, 0] (by decide)]) = some d ∧
      run Device.step (deviceInit (Vector.replicate 512 0)) (cfgRun [] [] []) = some d' ∧
      d.parser.calls = d'.parser.calls :=
  cfg_writes_unnoticed (Vector.replicate 512 0)
    (cfgRun [writeReq .char1Cfg [1, 0] (by decide)] [] [writeReq .char2Cfg [1, 0] (by decide)])
    (by decide +kernel) (by decide +kernel)

/-! ### Sessions -/

/-- The parser searches for a head, and no frame begins in the unread bytes. -/
def LeavesNothing (p : State RingBuffer BleProHead) : Prop := p.statics.readStep = 0 ∧ QuietBytes p.ring.unread

instance (p : State RingBuffer BleProHead) : Decidable (LeavesNothing p) := by unfold LeavesNothing; infer_instance

/-- **A session does not depend on the one before**, if that leaves nothing: after any two histories that end with the
loss of the link and leave nothing, the same session dispatches the same commands. -/
theorem sessions_independent (mem₁ mem₂ : Vector UInt8 bleBufferSize.toNat) (h₁ h₂ : List DeviceEvent)
    (c₁ c₂ c : UInt8) (es : List DeviceEvent) (d₁ d₂ : Device RingBuffer)
    (hd₁ : run Device.step (deviceInit mem₁) (h₁ ++ [.gap (.disconnect c₁)]) = some d₁)
    (hd₂ : run Device.step (deviceInit mem₂) (h₂ ++ [.gap (.disconnect c₂)]) = some d₂)
    (hl₁ : LeavesNothing d₁.parser) (hl₂ : LeavesNothing d₂.parser)
    (ha₁ : Admits Device.step DeviceSafe d₁ (.gap (.slaveConnect c) :: es))
    (ha₂ : Admits Device.step DeviceSafe d₂ (.gap (.slaveConnect c) :: es)) :
    ∃ d₁' d₂' new, run Device.step d₁ (.gap (.slaveConnect c) :: es) = some d₁' ∧
      run Device.step d₂ (.gap (.slaveConnect c) :: es) = some d₂' ∧
      d₁'.parser.calls = d₁.parser.calls ++ new ∧ d₂'.parser.calls = d₂.parser.calls ++ new := by
  obtain ⟨_, hr₁, hw₁⟩ := device_lawful mem₁ (h₁ ++ [.gap (.disconnect c₁)])
  obtain ⟨_, hr₂, hw₂⟩ := device_lawful mem₂ (h₂ ++ [.gap (.disconnect c₂)])
  rw [Option.some.inj (hr₁.symm.trans hd₁)] at hw₁
  rw [Option.some.inj (hr₂.symm.trans hd₂)] at hw₂
  have h0 := alikeSince_of_quiet hw₁ hw₂ hl₁.1 hl₂.1 ((quietBytes_iff _).mp hl₁.2) ((quietBytes_iff _).mp hl₂.2)
  have hstep : ∀ (x y : Device RingBuffer) (e : DeviceEvent),
      AlikeSince bleProtocol bleFraming d₁.parser.calls d₂.parser.calls x.parser y.parser → DeviceSafe x e →
      DeviceSafe y e → ∃ x' y', x.step e = some x' ∧ y.step e = some y' ∧
        AlikeSince bleProtocol bleFraming d₁.parser.calls d₂.parser.calls x'.parser y'.parser :=
    fun _ _ _ h hx hy => device_step_alike h hx hy
  obtain ⟨d₁', d₂', hf₁, hf₂, _, _, new, -, -, -, hc₁, hc₂⟩ := run_together hstep h0 ha₁ ha₂
  exact ⟨d₁', d₂', new, hf₁, hf₂, hc₁, hc₂⟩

/-- A connection that leaves the head of a frame. -/
def brokenHistory : List DeviceEvent :=
  [.gap (.slaveConnect 0), writeReq .char2Value [0xA4, 0xA3, 1, 0, 0, 5] (by decide), .gap (.disconnect 0)]

/-- A connection in which the opening instruction is sent, and the parser is called three times. -/
def openingSession : List DeviceEvent :=
  [.gap (.slaveConnect 0), writeReq .char2Value [0xA4, 0xA3, 0, 242, 0, 5, 0] (by decide), .process, .process, .process]

/-- The head that the first connection leaves swallows the instruction of the second. -/
theorem swallowed_command :
    let d := deviceInit (Vector.replicate 512 0)
    let es := brokenHistory ++ openingSession
    let es' := [.gap (.slaveConnect 0), .gap (.disconnect 0)] ++ openingSession
    Admits Device.step DeviceSafe d es ∧ Admits Device.step DeviceSafe d es' ∧
      (run Device.step d es).map (fun d => d.parser.calls) = some [] ∧
      (run Device.step d es').map (fun d => d.parser.calls) = some [(5, [])] := by
  decide +kernel

/-- A connection that leaves three bytes in which no frame begins, and one that leaves none. -/
theorem sessions_independent_noise :
    let d₁ := (run Device.step (deviceInit (Vector.replicate 512 0)) ([.gap (.slaveConnect 0),
      writeReq .char2Value [0, 0xA4, 0] (by decide)] ++ [.gap (.disconnect 0)])).get (by decide +kernel)
    let d₂ := (run Device.step (deviceInit (Vector.replicate 512 0)) ([] ++ [.gap (.disconnect 0)])).get
      (by decide +kernel)
    ∃ d₁' d₂' new, run Device.step d₁ openingSession = some d₁' ∧ run Device.step d₂ openingSession = some d₂' ∧
      d₁'.parser.calls = d₁.parser.calls ++ new ∧ d₂'.parser.calls = d₂.parser.calls ++ new :=
  sessions_independent (Vector.replicate 512 0) (Vector.replicate 512 0)
    [.gap (.slaveConnect 0), writeReq .char2Value [0, 0xA4, 0] (by decide)] [] 0 0 0 openingSession.tail _ _
    (Option.some_get _).symm (Option.some_get _).symm (by decide +kernel) (by decide +kernel) (by decide +kernel)
    (by decide +kernel)

end Fr8012haLock.Ble
