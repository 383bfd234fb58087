import Fr8012haLock.Receive.Spec
import Fr8012haLock.Lib.Runs
import Fr8012haLock.Lib.FrameStreams

/-!
# Runs of a parser: writes into its ring, and calls of it

The state of a parser is its ring, its static variables and the commands it has handed on.  A run is a list of
events, in any order: bytes written into the ring, and calls of the parser.  As long as every write appends its bytes
and no call meets the case that `HeadNotLast` excludes, the parser follows the receiver of its framing
(`Follows.of_admits`), so that the commands handed on are a prefix of the reference decoding (`Follows.calls_prefix`).
-/

namespace Fr8012haLock.Receive

open Cyclic Buffer Runs

/-- A parser: its ring, its static variables, and the commands it has handed on. -/
structure State (R Head : Type) where
  ring : R
  statics : Statics Head
  calls : List Call

/-- What happens to a parser. -/
inductive Event where
  | write (bytes : List UInt8)
  | process

/-- The bytes written by an event. -/
def Event.bytes : Event → List UInt8
  | .write bytes => bytes
  | .process => []

/-- The bytes written in a run, in order. -/
def written (es : List Event) : List UInt8 := es.flatMap Event.bytes

@[simp] theorem written_append (es fs : List Event) : written (es ++ fs) = written es ++ written fs := by
  simp [written]

@[simp] theorem written_write (bytes : List UInt8) : written [.write bytes] = bytes := List.append_nil bytes

@[simp] theorem written_process : written [.process] = [] := rfl

@[simp] theorem written_replicate_process (n : ℕ) : written (List.replicate n .process) = [] := by
  induction n with
  | zero => rfl
  | succ n ih => rw [List.replicate_succ', written_append, ih, written_process, List.nil_append]

/-- A write of all of `bytes`, as the ring does it. -/
def ringWrite {R : Type} [ByteRing R] (r : R) (bytes : List UInt8) : R :=
  ByteRing.write r bytes (UInt32.ofNat bytes.length)

/-- One event; `none` when the parser does not return. -/
def State.step {R Head : Type} [ByteRing R] (P : Protocol Head) (s : State R Head) : Event → Option (State R Head)
  | .write bytes => some { s with ring := ringWrite s.ring bytes }
  | .process => (protocolProcess P s.ring s.statics).map fun p => ⟨p.1, p.2.1, s.calls ++ p.2.2.toList⟩

theorem State.step_process {R Head : Type} [ByteRing R] {P : Protocol Head} {s : State R Head} {r' : R}
    {s' : Statics Head} {call : Option Call} (h : protocolProcess P s.ring s.statics = some (r', s', call)) :
    State.step P s .process = some ⟨r', s', s.calls ++ call.toList⟩ := by
  rw [State.step, h, Option.map_some]

variable {Head R : Type} [LawfulRing R] {P : Protocol Head} {F : Framing UInt8 Call}

/-- A write that appends its bytes. -/
def Appends (r : R) (bytes : List UInt8) : Prop :=
  LawfulRing.Wf (ringWrite r bytes) ∧ LawfulRing.unread (ringWrite r bytes) = LawfulRing.unread r ++ bytes

/-- The events under which the parser follows the receiver. -/
def Faithful (F : Framing UInt8 Call) (s : State R Head) : Event → Prop
  | .write bytes => Appends s.ring bytes
  | .process => HeadNotLast F s.ring s.statics

theorem Tracks.write {r : R} {s : Statics Head} {rc : Framing.Receiver UInt8} (h : Tracks P F r s rc)
    {bytes : List UInt8} (ha : Appends r bytes) : Tracks P F (ringWrite r bytes) s (rc.feed bytes) :=
  ⟨ha.1, by rw [ha.2, h.queue]; rfl, h.step⟩

/-- After the events `es` the parser is where a receiver is that was fed the bytes written: it tracks one, and what
it has handed on is what the decoding of the bytes written has lost, whatever is written later. -/
def Follows (P : Protocol Head) (F : Framing UInt8 Call) (es : List Event) (s : State R Head) : Prop :=
  ∃ rc, Tracks P F s.ring s.statics rc ∧ ∀ t, F.decode (written es ++ t) = s.calls ++ F.decode (rc.pending ++ t)

/-- **One event keeps the parser with the receiver.** -/
theorem Follows.step (hI : Implements P F) {es : List Event} {s : State R Head} {e : Event} (h : Follows P F es s)
    (hok : Faithful F s e) : ∃ s', State.step P s e = some s' ∧ Follows P F (es ++ [e]) s' := by
  obtain ⟨rc, ht, hdec⟩ := h
  cases e with
  | write bytes =>
    refine ⟨_, rfl, rc.feed bytes, ht.write hok, ?_⟩
    intro t
    rw [written_append, written_write, Framing.Receiver.pending_feed, List.append_assoc, List.append_assoc]
    exact hdec (bytes ++ t)
  | process =>
    obtain ⟨r', s', hp, ht'⟩ := ht.process hI hok
    refine ⟨_, State.step_process hp, (F.poll rc).1, ht', ?_⟩
    intro t
    rw [written_append, written_process, List.append_nil, hdec, F.poll_decode ht.receiver_wf, List.append_assoc]

theorem Follows.wf {es : List Event} {s : State R Head} (h : Follows P F es s) : LawfulRing.Wf s.ring := by
  obtain ⟨rc, ht, -⟩ := h
  exact ht.wf

theorem Follows.calls_prefix {es : List Event} {s : State R Head} (h : Follows P F es s) :
    s.calls <+: F.decode (written es) := by
  obtain ⟨rc, -, hdec⟩ := h
  exact ⟨_, by simpa using (hdec []).symm⟩

/-- **A run keeps the parser with the receiver**, and every call in it returns. -/
theorem Follows.of_admits (hI : Implements P F) {ok : State R Head → Event → Prop}
    (hok : ∀ s e, LawfulRing.Wf s.ring → ok s e → Faithful F s e) {past es : List Event} {s : State R Head}
    (h0 : Follows P F past s) (ha : Admits (State.step P) ok s es) :
    ∃ s', run (State.step P) s es = some s' ∧ Follows P F (past ++ es) s' :=
  run_keeps (fun _ _ _ h hoke => h.step hI (hok _ _ h.wf hoke)) past h0 ha

/-! ### Writes into the two rings -/

theorem appends_of_lt_free {rb : RingBuffer} (hw : LawfulRing.Wf rb) {bytes : List UInt8}
    (hl : bytes.length < rb.free) : Appends rb bytes := by
  have hN := rb.size.toNat_lt
  have hfree := hw.1.free_eq
  have hsize : (UInt32.ofNat bytes.length).toNat = bytes.length := by
    rw [UInt32.toNat_ofNat']
    omega
  refine ⟨LawfulRing.write_wf hw hsize.le, ?_⟩
  have := hw.1.unread_write hsize.le (by rw [hsize]; omega) (Or.inl (by rw [hsize]; exact hl))
  rwa [hsize, List.take_length] at this

theorem appends_of_le_room {cap : UInt32} {q : ByteQueue cap} {bytes : List UInt8} (hl : bytes.length ≤ q.room) :
    Appends q bytes := by
  have hN := cap.toNat_lt
  have hsize : (UInt32.ofNat bytes.length).toNat = bytes.length := by
    have hroom : q.room ≤ cap.toNat := Nat.sub_le _ _
    rw [UInt32.toNat_ofNat']
    omega
  refine ⟨trivial, ?_⟩
  show (q.write bytes (UInt32.ofNat bytes.length)).bytes = q.bytes ++ bytes
  rw [ByteQueue.bytes_write, hsize, if_pos hl, List.take_length]

/-! ### Until nothing more is consumed -/

/-- A call of the parser would consume nothing. -/
def Settled (P : Protocol Head) (s : State R Head) : Prop :=
  ∀ s', State.step P s .process = some s' → LawfulRing.unread s'.ring = LawfulRing.unread s.ring

theorem Follows.settled (hI : Implements P F) {es : List Event} {s : State R Head} (h : Follows P F es s)
    (hok : HeadNotLast F s.ring s.statics) (hs : Settled P s) : s.calls = F.decode (written es) := by
  obtain ⟨rc, ht, hdec⟩ := h
  obtain ⟨r', s', hp, ht'⟩ := ht.process hI hok
  have hq : (F.poll rc).1.queue = rc.queue := by
    rw [← ht'.queue, ← ht.queue]
    exact hs _ (State.step_process hp)
  have := hdec []
  rw [List.append_nil, List.append_nil, F.decode_of_poll_idle ht.receiver_wf hq, List.append_nil] at this
  exact this.symm

theorem Tracks.consumes (hI : Implements P F) {s s' : State R Head} {rc : Framing.Receiver UInt8}
    (h : Tracks P F s.ring s.statics rc) (hlast : HeadNotLast F s.ring s.statics)
    (hs : State.step P s .process = some s') : LawfulRing.unread s'.ring = LawfulRing.unread s.ring ∨
      (LawfulRing.unread s'.ring).length < (LawfulRing.unread s.ring).length := by
  obtain ⟨r', st', hp, ht'⟩ := h.process hI hlast
  rw [State.step_process hp] at hs
  cases hs
  rw [ht'.queue, h.queue]
  exact F.poll_queue rc

/-- If no call can go wrong, enough calls of the parser consume everything that can be. -/
theorem Follows.settles (hI : Implements P F) (hend : ∀ r : R, ¬ LawfulRing.AtEnd r) {es : List Event}
    {s : State R Head} (h : Follows P F es s) :
    ∃ n s', run (State.step P) s (List.replicate n .process) = some s' ∧
      Follows P F (es ++ List.replicate n .process) s' ∧ Settled P s' := by
  induction hn : (LawfulRing.unread s.ring).length using Nat.strongRecOn generalizing s es with
  | ind k ih =>
    have hok : HeadNotLast F s.ring s.statics := fun _ hae => absurd hae (hend _)
    obtain ⟨s₁, hs₁, h₁⟩ := h.step hI (e := .process) hok
    obtain ⟨rc, ht, -⟩ := id h
    rcases ht.consumes hI hok hs₁ with hq | hq
    · refine ⟨0, s, rfl, by simpa using h, ?_⟩
      intro s'' hs''
      rw [hs₁] at hs''
      cases hs''
      exact hq
    · obtain ⟨n, s', hr, h', hset⟩ := ih _ (hn ▸ hq) h₁ rfl
      refine ⟨n + 1, s', by rw [List.replicate_succ, run_cons hs₁, hr], ?_, hset⟩
      rwa [List.append_assoc] at h'

/-! ### Streams of whole frames -/

/-- While a receiver holds whole frames only, a head is never all that is unread. -/
theorem Tracks.headNotLast {r : R} {s : Statics Head} {rc : Framing.Receiver UInt8} (h : Tracks P F r s rc)
    {fs : List (List UInt8 × Call)} (hr : F.Holds rc fs) (hf : F.AreFrames fs) : HeadNotLast F r s := by
  intro hs0 _ hlast
  have hn := h.readStep_iff.mp hs0
  rw [h.queue] at hlast
  have hne : rc.queue ≠ [] := by
    intro hnil
    have hle := hlast.1.1
    have := F.headSize_pos
    rw [hnil] at hle
    simp at hle
    omega
  obtain ⟨hat, hlt⟩ := hr.front hf hn hne
  exact hlast.2 0 (by omega) hat

theorem Tracks.run_process (hI : Implements P F) (n : ℕ) {s : State R Head} {rc : Framing.Receiver UInt8}
    (h : Tracks P F s.ring s.statics rc) {fs : List (List UInt8 × Call)} (hr : F.Holds rc fs) (hf : F.AreFrames fs) :
    ∃ s', run (State.step P) s (List.replicate n .process) = some s' ∧
      Tracks P F s'.ring s'.statics (F.polls n rc).1 ∧ s'.calls = s.calls ++ (F.polls n rc).2 := by
  induction n generalizing s rc fs with
  | zero => exact ⟨s, rfl, h, by simp [Framing.polls]⟩
  | succ n ih =>
    obtain ⟨r', s', hp, ht'⟩ := h.process hI (h.headNotLast hr hf)
    obtain ⟨gs, hg, hgf, -⟩ := hr.poll hf
    obtain ⟨s'', hrun, ht'', hc⟩ := ih (s := ⟨r', s', s.calls ++ (F.poll rc).2.toList⟩) ht' hg hgf
    refine ⟨s'', ?_, ht'', ?_⟩
    · rw [List.replicate_succ, run_cons (State.step_process hp), hrun]
    · rw [hc, Framing.polls, List.append_assoc]

end Fr8012haLock.Receive
