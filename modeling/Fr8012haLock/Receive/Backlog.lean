import Fr8012haLock.Receive.OnRing
import Fr8012haLock.Lib.Backlog

/-!
# How many calls a parser needs

The bound of the framing carries over to the parsers: when no more bytes arrive, each call brings it down, in a parser
that is called (`Tracks.process_backlog`) as in one that goes on by ring operations (`advance_backlog`).  At zero the
parser waits for bytes (`Tracks.waits`).
-/

namespace Fr8012haLock.Receive

open Cyclic Buffer Runs

section Bounds

variable {R Head : Type} [ByteRing R] (P : Protocol Head)

/-- The calls that can do anything before more bytes arrive, at most. -/
def State.backlog (s : State R Head) : ℕ :=
  let validSize := ByteRing.validSize s.ring
  if s.statics.readStep = 0 then 2 * ((validSize.toNat + 1) / (P.headSize.toNat + 1))
  else if validSize < P.payloadSize s.statics.head + 1 then 0
  else 2 * (validSize.toNat / (P.headSize.toNat + 1)) + 1

/-- The same without the call that is going on. -/
def Micro.backlog (m : Micro R Head) : ℕ :=
  match m.place with
  | .idle => m.state.backlog P
  | _ => m.state.backlog P - 1

end Bounds

variable {Head R : Type} [LawfulRing R] {P : Protocol Head} {F : Framing UInt8 Call}

theorem Tracks.backlog_eq (hI : Implements P F) {s : State R Head} {rc : Framing.Receiver UInt8}
    (h : Tracks P F s.ring s.statics rc) : s.backlog P = F.backlog rc := by
  have hvalid : (ByteRing.validSize s.ring).toNat = rc.queue.length := by
    rw [LawfulRing.validSize_toNat h.wf, h.queue]
  rcases h.step with ⟨hs0, hn⟩ | ⟨hd, hs1, hh, hl, hi, hsh⟩
  · simp only [State.backlog, if_pos hs0, Framing.backlog, hn, hvalid, hI.headSize]
  · have hs0 : s.statics.readStep ≠ 0 := by
      rw [hs1]
      simp
    simp only [State.backlog, if_neg hs0, validSize_lt h.wf, h.queue, hsh, hI.toNat_bodySize hl hi, Framing.backlog, hh,
      hvalid, hI.headSize]

/-- **At zero the parser waits for bytes.** -/
theorem Tracks.waits (hI : Implements P F) {s : State R Head} {rc : Framing.Receiver UInt8}
    (h : Tracks P F s.ring s.statics rc) (h0 : s.backlog P = 0) : Waits P s := by
  rw [h.backlog_eq hI] at h0
  obtain ⟨hhead, hbody⟩ := F.waits_of_backlog h0
  unfold Waits
  rw [validSize_lt h.wf, validSize_lt h.wf, h.queue, hI.headSize]
  rcases h.step with ⟨hs0, hn⟩ | ⟨hd, hs1, hh, hl, hi, hsh⟩
  · exact Or.inl ⟨hs0, hhead hn⟩
  · rw [hsh, hI.toNat_bodySize hl hi]
    exact Or.inr ⟨hs1, hbody hd hh⟩

/-- **A call brings the bound down.** -/
theorem Tracks.process_backlog (hI : Implements P F) {s s' : State R Head} {rc : Framing.Receiver UInt8}
    (h : Tracks P F s.ring s.statics rc) (hlast : HeadNotLast F s.ring s.statics)
    (hs : State.step P s .process = some s') : s'.backlog P ≤ s.backlog P - 1 := by
  obtain ⟨r', st', hp, ht'⟩ := h.process hI hlast
  rw [State.step_process hp] at hs
  cases hs
  have ht'' : Tracks P F (State.mk r' st' (s.calls ++ (F.poll rc).2.toList)).ring st' (F.poll rc).1 := ht'
  rw [ht''.backlog_eq hI, h.backlog_eq hI]
  exact F.poll_backlog rc

section Operations

variable {rc : Framing.Receiver UInt8} {s : State R Head} {d : List UInt8}

theorem backlog_headCheck (hI : Implements P F) (ht : Tracks P F s.ring s.statics rc)
    (hp : AtPlace P F rc (.headCheck d)) : (advance P ⟨s, .headCheck d⟩).backlog P ≤ s.backlog P - 1 := by
  obtain ⟨head, queue⟩ := rc
  obtain ⟨rfl, -⟩ := hp
  simp only [advance, validSize_lt ht.wf, hI.headSize, ht.queue]
  split
  · rename_i hlen
    show s.backlog P ≤ _
    rw [ht.backlog_eq hI, F.backlog_short hlen]
  · exact le_rfl

theorem backlog_headRead (hI : Implements P F) (ht : Tracks P F s.ring s.statics rc)
    (hp : AtPlace P F rc (.headRead d)) : (advance P ⟨s, .headRead d⟩).backlog P ≤ s.backlog P - 1 := by
  obtain ⟨-, hd, henough⟩ := hp
  have hsz := hI.headSize
  have hpeek := LawfulRing.peek (n := P.headSize) ht.wf (by rw [ht.queue, hsz]; exact henough)
    (show 0 + P.headSize.toNat ≤ d.length by omega)
  simp only [advance, hpeek, afterRead]
  split <;> exact le_rfl

theorem backlog_skipByte (hI : Implements P F) (hend : ∀ r : R, ¬ LawfulRing.AtEnd r)
    (ht : Tracks P F s.ring s.statics rc) (hp : AtPlace P F rc (.skipByte d)) :
    (advance P ⟨s, .skipByte d⟩).backlog P ≤ s.backlog P - 1 := by
  obtain ⟨head, queue⟩ := rc
  obtain ⟨rfl, -, henough, -⟩ := hp
  have hge := hI.headSize_ge
  have hk : (1 : UInt8).toNat = 1 := rfl
  have hq := ht.queue
  change F.headSize ≤ queue.length at henough
  obtain ⟨hw', hun, -⟩ := LawfulRing.skip (k := 1) ht.wf (by rw [hq, hk]; show 1 ≤ queue.length; omega)
    fun hae => absurd hae (hend _)
  rw [hq, hk] at hun
  have ht' : Tracks P F (ByteRing.updateReadIdx s.ring 1) s.statics ⟨none, queue.drop 1⟩ := ⟨hw', hun, ht.step⟩
  show State.backlog P ⟨_, s.statics, s.calls⟩ - 1 ≤ s.backlog P - 1
  rw [Tracks.backlog_eq hI (s := ⟨_, s.statics, s.calls⟩) ht', ht.backlog_eq hI]
  exact Nat.sub_le_sub_right (F.backlog_mono (by simp)) 1

theorem backlog_skipHead (hI : Implements P F) (hend : ∀ r : R, ¬ LawfulRing.AtEnd r)
    (ht : Tracks P F s.ring s.statics rc) (hp : AtPlace P F rc (.skipHead d)) :
    (advance P ⟨s, .skipHead d⟩).backlog P ≤ s.backlog P - 1 := by
  obtain ⟨head, queue⟩ := rc
  obtain ⟨rfl, hat, hof⟩ := hp
  have hle := hat.1
  have hlt := hI.headSize_lt
  have hk : P.headSize.toUInt8.toNat = F.headSize := by simp [hI.headSize]; omega
  have hs0 : s.statics.readStep = 0 := ht.readStep_iff.mpr rfl
  have hq := ht.queue
  obtain ⟨hw', hun, -⟩ := LawfulRing.skip (k := P.headSize.toUInt8) ht.wf (by rw [hk, hq]; exact hle)
    fun hae => absurd hae (hend _)
  rw [hk, hq] at hun
  have ht' : Tracks P F (ByteRing.updateReadIdx s.ring P.headSize.toUInt8) ⟨s.statics.readStep + 1, P.ofBytes d⟩
      ⟨some (queue.take F.headSize), queue.drop F.headSize⟩ :=
    ⟨hw', hun, Or.inr ⟨_, by rw [hs0]; rfl, rfl, by simpa using hle, hat.2, hof⟩⟩
  show State.backlog P ⟨_, _, s.calls⟩ ≤ s.backlog P - 1
  rw [Tracks.backlog_eq hI (s := ⟨_, _, s.calls⟩) ht', ht.backlog_eq hI]
  exact F.backlog_drop_head _ hle

theorem backlog_bodyCheck (hI : Implements P F) (ht : Tracks P F s.ring s.statics rc)
    (hp : AtPlace P F rc .bodyCheck) : (advance P ⟨s, .bodyCheck⟩).backlog P ≤ s.backlog P - 1 := by
  rcases ht.step with ⟨-, hn⟩ | ⟨hd, -, hh, hl, hi, hsh⟩
  · exact absurd hn hp
  · simp only [advance, validSize_lt ht.wf, hsh, hI.toNat_bodySize hl hi, ht.queue]
    split
    · rename_i hlen
      show s.backlog P ≤ _
      rw [ht.backlog_eq hI, Framing.backlog, hh]
      dsimp only
      rw [if_pos hlen]
    · exact le_rfl

theorem backlog_bodyRead (hI : Implements P F) (ht : Tracks P F s.ring s.statics rc)
    (hp : AtPlace P F rc .bodyRead) : (advance P ⟨s, .bodyRead⟩).backlog P ≤ s.backlog P - 1 := by
  obtain ⟨head, queue⟩ := rc
  obtain ⟨hd, rfl, hb⟩ := hp
  rcases ht.step with ⟨-, hn⟩ | ⟨hd', -, hh', hl, hi, hsh⟩
  · cases hn
  · cases hh'
    have hq := ht.queue
    obtain ⟨r', hr, hw', hun⟩ := takeBody_spec hI ht.wf hl hi hsh (by rw [hq]; exact hb)
    rw [hq] at hr hun
    have ht' : Tracks P F r' { s.statics with readStep := 0 } ⟨none, queue.drop (F.bodySize hd)⟩ :=
      ⟨hw', hun, Or.inl ⟨rfl, rfl⟩⟩
    simp only [advance, hr]
    show State.backlog P ⟨r', { s.statics with readStep := 0 }, _⟩ ≤ s.backlog P - 1
    rw [Tracks.backlog_eq hI (s := ⟨r', { s.statics with readStep := 0 }, _⟩) ht', ht.backlog_eq hI]
    exact F.backlog_drop_body hb

end Operations

/-- **The ring operation that begins a call** brings the bound down. -/
theorem advance_backlog_idle {rc : Framing.Receiver UInt8} {m : Micro R Head}
    (ht : Tracks P F m.state.ring m.state.statics rc) (hidle : m.place = .idle) :
    (advance P m).backlog P ≤ m.backlog P - 1 := by
  obtain ⟨s, place⟩ := m
  obtain rfl : place = .idle := hidle
  rcases ht.step with ⟨hs0, -⟩ | ⟨-, hs1, -⟩
  · simp only [advance, if_pos hs0]
    exact le_rfl
  · change s.statics.readStep = 1 at hs1
    have hs0 : s.statics.readStep ≠ 0 := by
      rw [hs1]
      simp
    simp only [advance, if_neg hs0, if_pos hs1]
    exact le_rfl

/-- **No ring operation brings it up.** -/
theorem advance_backlog (hI : Implements P F) (hend : ∀ r : R, ¬ LawfulRing.AtEnd r) {rc : Framing.Receiver UInt8}
    {m : Micro R Head} (ht : Tracks P F m.state.ring m.state.statics rc) (hp : AtPlace P F rc m.place) :
    (advance P m).backlog P ≤ m.backlog P := by
  obtain ⟨s, place⟩ := m
  cases place with
  | idle => exact (advance_backlog_idle ht rfl).trans (Nat.sub_le _ 1)
  | headCheck d => exact backlog_headCheck hI ht hp
  | headRead d => exact backlog_headRead hI ht hp
  | skipByte d => exact backlog_skipByte hI hend ht hp
  | skipHead d => exact backlog_skipHead hI hend ht hp
  | bodyCheck => exact backlog_bodyCheck hI ht hp
  | bodyRead => exact backlog_bodyRead hI ht hp

theorem Mirrors.state_backlog_eq {cap : UInt32} {m : Micro RingBuffer Head} {n : Micro (ByteQueue cap) Head}
    (h : Mirrors m n) : m.state.backlog P = n.state.backlog P := by
  unfold State.backlog
  rw [h.statics, h.ring.validSize_eq]

theorem Mirrors.backlog_eq {cap : UInt32} {m : Micro RingBuffer Head} {n : Micro (ByteQueue cap) Head}
    (h : Mirrors m n) : m.backlog P = n.backlog P := by
  unfold Micro.backlog
  rw [h.state_backlog_eq, h.place]

end Fr8012haLock.Receive
