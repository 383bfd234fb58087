import Fr8012haLock.Ble.Frames
import Fr8012haLock.Buffer.Occupancy

/-!
# Receiving BLE frames on the ring

The receive loop on the ring of 512 bytes, for any order of writes and calls.  The commands dispatched are a prefix of
the reference decoding of the bytes written (`ble_calls_prefix`), as long as no call finds the first head of the
unread bytes at their very end with `write_idx` at 512: skipping that head leaves a full ring of old bytes
(`stale_command`).
-/

namespace Fr8012haLock.Ble

open Cyclic Buffer Common Receive Runs

/-- Every write is strictly smaller than the free size. -/
def SmallWrites {R : Type} [ByteRing R] (s : State R BleProHead) : Event → Prop
  | .write bytes => bytes.length < (ByteRing.freeSize s.ring).toNat
  | .process => True

instance {R : Type} [ByteRing R] : ∀ (s : State R BleProHead) (e : Event), Decidable (SmallWrites s e)
  | s, .write bytes => inferInstanceAs (Decidable (bytes.length < (ByteRing.freeSize s.ring).toNat))
  | _, .process => isTrue trivial

/-- The state in which a call of `ble_protocol_process` skips the last unread bytes with `write_idx` at the end: it
searches for a head, and the first head among the unread bytes is all that is left behind the noise. -/
def SkipsToEnd (s : State RingBuffer BleProHead) : Prop :=
  s.statics.readStep = 0 ∧ s.ring.writeIdx = s.ring.size ∧ bleFraming.HeadIsLast s.ring.unread

instance (s : State RingBuffer BleProHead) : Decidable (SkipsToEnd s) := by unfold SkipsToEnd; infer_instance

/-- A call in that state takes the head, and leaves a ring that reports all of its 512 bytes as unread. -/
theorem SkipsToEnd.full {s : State RingBuffer BleProHead} (hw : LawfulRing.Wf s.ring) (h : SkipsToEnd s) :
    ∃ s', bleStep s .process = some s' ∧ s'.statics.readStep = 1 ∧ s'.ring.valid = s'.ring.size.toNat := by
  obtain ⟨hs0, hend, hlast⟩ := h
  obtain ⟨r', st', hp, -, hskip⟩ := process_head ble_implements hw hs0
  obtain ⟨hd, r₀, ht, hw₀, hend₀, hlen, hr⟩ := hskip ⟨hend, hlast⟩
  have hstep : st'.readStep = 1 := by
    rcases ht.step with ⟨-, hn⟩ | ⟨_, hs1, -⟩
    · cases hn
    · exact hs1
  refine ⟨_, State.step_process hp, hstep, ?_⟩
  subst hr
  have hall : 6 = r₀.valid := hlen.symm.trans hw₀.1.length_unread
  have hover : r₀.readIdx.toNat + 6 < 2 ^ 32 := by
    have hsmall : r₀.size.toNat + 255 < 2 ^ 32 := hw₀.2
    have := hw₀.1.read_le
    omega
  exact hw₀.1.valid_skip_end (k := 6) hall hover (UInt32.toNat_inj.mpr hend₀)

/-- Writes strictly smaller than the free size, and calls in any other state. -/
def BleSafe (s : State RingBuffer BleProHead) : Event → Prop
  | .write bytes => SmallWrites s (.write bytes)
  | .process => ¬ SkipsToEnd s

instance : ∀ (s : State RingBuffer BleProHead) (e : Event), Decidable (BleSafe s e)
  | s, .write bytes => inferInstanceAs (Decidable (SmallWrites s (.write bytes)))
  | s, .process => inferInstanceAs (Decidable (¬ SkipsToEnd s))

theorem BleSafe.faithful {s : State RingBuffer BleProHead} {e : Event} (hw : LawfulRing.Wf s.ring)
    (h : BleSafe s e) : Faithful bleFraming s e := by
  cases e with
  | write bytes => exact appends_of_lt_free hw h
  | process => exact fun hs hend hlast => h ⟨hs, hend, hlast⟩

theorem follows_init (mem : Vector UInt8 bleBufferSize.toNat) :
    Follows bleProtocol bleFraming [] (bleProtocolInit mem) := by
  have h := represents_init (by decide) mem
  refine ⟨⟨none, []⟩, ⟨⟨h.wf, ?_⟩, h.unread, Or.inl ⟨rfl, rfl⟩⟩, fun t => rfl⟩
  show 512 + 255 < 2 ^ 32
  decide

/-- **The commands dispatched are a prefix of the reference decoding** of the bytes written, in every run from the
initial state in which each write is strictly smaller than the free size and no call meets `SkipsToEnd`. -/
theorem ble_calls_prefix (mem : Vector UInt8 bleBufferSize.toNat) (es : List Event)
    (ha : Admits bleStep BleSafe (bleProtocolInit mem) es) :
    ∃ s, run bleStep (bleProtocolInit mem) es = some s ∧ s.calls <+: bleFraming.decode (written es) := by
  obtain ⟨s, hr, hf⟩ := (follows_init mem).of_admits ble_implements (fun _ _ hw h => h.faithful hw) ha
  exact ⟨s, hr, hf.calls_prefix⟩

/-- A head behind 506 bytes of noise ends where the storage does; the next call takes its body from the noise. -/
def staleRun : List Event :=
  [.write (List.replicate 506 0), .process, .write [0xA4, 0xA3, 0, 242, 0, 5], .process, .process]

/-- The opening instruction is dispatched although no whole frame was ever written. -/
theorem stale_command :
    Admits bleStep SmallWrites (bleProtocolInit (Vector.replicate 512 0)) staleRun ∧
      (run bleStep (bleProtocolInit (Vector.replicate 512 0)) staleRun).map State.calls = some [(5, [])] ∧
      bleFraming.decode (written staleRun) = [] := by
  decide +kernel

/-- A frame written in two pieces, with a call between them. -/
theorem ble_calls_prefix_split :
    ∃ s, run bleStep (bleProtocolInit (Vector.replicate 512 0))
      [.write [0xA4, 0xA3, 0, 242, 0, 5], .process, .write [0], .process] = some s ∧
      s.calls <+: bleFraming.decode (written [.write [0xA4, 0xA3, 0, 242, 0, 5], .process, .write [0], .process]) :=
  ble_calls_prefix _ _ (by decide +kernel)

end Fr8012haLock.Ble
