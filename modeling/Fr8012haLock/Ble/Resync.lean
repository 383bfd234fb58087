import Fr8012haLock.Ble.Reception

/-!
# Resynchronisation after noise

Here the ring is the queue of 512 bytes it stands for.  Once a call consumes nothing more, everything the bytes written
decode to has been dispatched (`dispatched_of_settled`).  Behind noise of any length this ends with the commands of all
frames that start 260 bytes after it or later (`ble_resync`), if `A4 A3` occurs in the frames at their start only.
-/

namespace Fr8012haLock.Ble

open Cyclic Buffer Common Receive Runs

/-- An idle parser on the empty queue; `head` is what an earlier frame has left in its static variable. -/
def queueInit (head : BleProHead) : State (ByteQueue bleBufferSize) BleProHead :=
  ⟨ByteQueue.empty bleBufferSize, ⟨0, head⟩, []⟩

/-- Every write is one that the ring accepts. -/
def NotRefused {R : Type} [ByteRing R] (s : State R BleProHead) : Event → Prop
  | .write bytes => bytes.length ≤ (ByteRing.freeSize s.ring).toNat
  | .process => True

instance {R : Type} [ByteRing R] : ∀ (s : State R BleProHead) (e : Event), Decidable (NotRefused s e)
  | s, .write bytes => inferInstanceAs (Decidable (bytes.length ≤ (ByteRing.freeSize s.ring).toNat))
  | _, .process => isTrue trivial

theorem NotRefused.faithful {s : State (ByteQueue bleBufferSize) BleProHead} {e : Event} (h : NotRefused s e) :
    Faithful bleFraming s e := by
  cases e with
  | write bytes => exact appends_of_le_room (h.trans (by rw [ByteQueue.toNat_freeSize]))
  | process => exact fun _ hend => hend.elim

theorem follows_queueInit (head : BleProHead) : Follows bleProtocol bleFraming [] (queueInit head) :=
  ⟨⟨none, []⟩, ⟨trivial, rfl, Or.inl ⟨rfl, rfl⟩⟩, fun _ => rfl⟩

/-- **When nothing more is consumed, everything is dispatched** that the bytes written decode to; and enough further
calls get there. -/
theorem dispatched_of_settled {head : BleProHead} {es : List Event}
    (ha : Admits bleStep NotRefused (queueInit head) es) :
    ∃ s, run bleStep (queueInit head) es = some s ∧
      (Settled bleProtocol s → s.calls = bleFraming.decode (written es)) ∧
      ∃ n s', run bleStep s (List.replicate n .process) = some s' ∧ Settled bleProtocol s' ∧
        s'.calls = bleFraming.decode (written es) := by
  obtain ⟨s, hr, hf⟩ := (follows_queueInit head).of_admits ble_implements (fun _ _ _ h => h.faithful) ha
  have hok : ∀ s : State (ByteQueue bleBufferSize) BleProHead, HeadNotLast bleFraming s.ring s.statics :=
    fun _ _ hend => hend.elim
  obtain ⟨n, s', hr', hf', hset⟩ := hf.settles ble_implements fun _ hend => hend
  refine ⟨s, hr, hf.settled ble_implements (hok s), n, s', hr', hset, ?_⟩
  rw [hf'.settled ble_implements (hok s') hset]
  simp

/-! ### Frames that contain no second head -/

/-- The byte pair `A4 A3` occurs at the start only. -/
def PairOnlyAtStart (bytes : List UInt8) : Prop :=
  ∀ i < bytes.length, bytes.getD i 0 = 0xA4 → bytes.getD (i + 1) 0 = 0xA3 → i = 0

instance (bytes : List UInt8) : Decidable (PairOnlyAtStart bytes) := by unfold PairOnlyAtStart; infer_instance

/-- The frames as a stream sees them, with what they emit. -/
def Frame.pair (f : Frame) : List UInt8 × Call := (f.bytes, f.call)

theorem areFrames_pair (fs : List Frame) : bleFraming.AreFrames (fs.map Frame.pair) := by
  intro p hp
  obtain ⟨f, -, rfl⟩ := List.mem_map.mp hp
  exact isFrame_bytes f

theorem stream_getD_zero (fs : List Frame) : (Framing.stream (fs.map Frame.pair)).getD 0 0 ≠ 0xA3 := by
  cases fs with
  | nil => decide
  | cons f fs =>
    show (0xA4 : UInt8) ≠ 0xA3
    decide

/-- No head begins inside a frame that contains no second `A4 A3`, nor across its end. -/
theorem clean_pair {fs : List Frame} (hp : ∀ f ∈ fs, PairOnlyAtStart f.bytes) :
    bleFraming.Clean (fs.map Frame.pair) := by
  induction fs with
  | nil => trivial
  | cons f fs ih =>
    refine ⟨?_, ih fun f' hf' => hp f' (by simp [hf'])⟩
    intro i h0 hi hat
    change i < f.bytes.length at hi
    change bleFraming.HeadAt ((f.bytes ++ Framing.stream (fs.map Frame.pair)).drop i) at hat
    obtain ⟨-, h4, h3⟩ := bleFraming_headAt.mp hat
    rw [List.getD_eq_getElem?_getD, List.getElem?_drop, ← List.getD_eq_getElem?_getD] at h4 h3
    rw [Nat.add_zero, List.getD_append _ _ _ _ hi] at h4
    rcases Nat.lt_or_ge (i + 1) f.bytes.length with hlt | hge
    · rw [List.getD_append _ _ _ _ hlt] at h3
      exact absurd (hp f (by simp) i hi h4 h3) (by omega)
    · rw [List.getD_append_right _ _ _ _ hge, show i + 1 - f.bytes.length = 0 by omega] at h3
      exact stream_getD_zero fs h3

/-- **Resynchronisation.**  Noise `g`, then valid frames in which `A4 A3` occurs at the start only, are written in any
pieces with calls between them, no write refused.  When a call consumes nothing more, which enough of them reach, the
commands dispatched end with those of all frames that start 260 bytes behind the noise or later. -/
theorem ble_resync (head : BleProHead) (g : List UInt8) (fs : List Frame)
    (hp : ∀ f ∈ fs, PairOnlyAtStart f.bytes) (es : List Event)
    (hw : written es = g ++ (fs.map Frame.bytes).flatten) (ha : Admits bleStep NotRefused (queueInit head) es) :
    let late := Framing.startingFrom (g.length + 260) g.length (fs.map Frame.pair)
    ∃ s, run bleStep (queueInit head) es = some s ∧ (Settled bleProtocol s → late <:+ s.calls) ∧
      ∃ n s', run bleStep s (List.replicate n .process) = some s' ∧ Settled bleProtocol s' ∧ late <:+ s'.calls := by
  intro late
  have hstream : (fs.map Frame.bytes).flatten = Framing.stream (fs.map Frame.pair) := by
    rw [Framing.stream, List.map_map]
    rfl
  have hlate : late <:+ bleFraming.decode (written es) := by
    rw [hw, hstream]
    apply Framing.decode_resync bleFraming_size_le (areFrames_pair fs) (clean_pair hp) g
    intro a hat
    exact stream_getD_zero fs (bleFraming_headAt.mp hat).2.2
  obtain ⟨s, hr, hset, n, s', hr', hset', hc⟩ := dispatched_of_settled ha
  exact ⟨s, hr, fun h => hset h ▸ hlate, n, s', hr', hset', hc ▸ hlate⟩

/-- A false head in front of two frames, the second of which starts late enough. -/
theorem ble_resync_false_head :
    let f₁ : Frame := ⟨0, 0, 1, List.replicate 253 0, by rw [List.length_replicate]; decide⟩
    let f₂ : Frame := ⟨0, 0, 5, [], by decide⟩
    ∃ s, run bleStep (queueInit ⟨bleProHeadStx, 0, 0, 0, 5⟩)
      [.write ([0xA4, 0xA3, 0] ++ f₁.bytes ++ f₂.bytes), .process] = some s ∧
      (Settled bleProtocol s → Framing.startingFrom 263 3 [f₁.pair, f₂.pair] <:+ s.calls) ∧
      ∃ n s', run bleStep s (List.replicate n .process) = some s' ∧ Settled bleProtocol s' ∧
        Framing.startingFrom 263 3 [f₁.pair, f₂.pair] <:+ s'.calls :=
  ble_resync ⟨bleProHeadStx, 0, 0, 0, 5⟩ [0xA4, 0xA3, 0]
    [⟨0, 0, 1, List.replicate 253 0, by rw [List.length_replicate]; decide⟩, ⟨0, 0, 5, [], by decide⟩]
    (by decide +kernel) _ (by decide +kernel) (by decide +kernel)

end Fr8012haLock.Ble
