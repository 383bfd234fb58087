import Mathlib.Data.List.Basic
import Mathlib.Data.List.Infix
import Mathlib.Tactic.Common

/-!
# Framed streams and their receivers

A `Framing` cuts a stream into frames: a head of fixed size that a test recognises, then a body whose size the
head gives.  Where no head begins, the stream is skipped entry by entry.

* `Framing.decode` — the reference decoding of a whole stream, what its frames emit;
* `Framing.Receiver` — what a receiver keeps that is fed the stream piece by piece: the entries not consumed yet
  and the head it has taken off them; `Framing.poll` is one call of it, which takes a head or a body;
* `Framing.poll_decode` — a call hands out what the decoding of the pending entries loses by it, *whatever is fed
  later*; so the emissions of a run are a prefix of the reference decoding.
-/

namespace Fr8012haLock

variable {α β : Type*}

/-- A way to cut a stream of `α` into frames that emit values of `β`. -/
structure Framing (α β : Type*) where
  /-- How many entries a head has. -/
  headSize : ℕ
  /-- Whether so many entries are a head. -/
  isHead : List α → Bool
  /-- How many entries follow a head. -/
  bodySize : List α → ℕ
  /-- What a head and its body emit. -/
  emit : List α → List α → Option β
  headSize_pos : 0 < headSize
  bodySize_pos : ∀ h, 0 < bodySize h

namespace Framing

variable (F : Framing α β)

/-! ### The reference decoding -/

/-- The size of the frame that a stream begins with, if it begins with one. -/
def frameSize (s : List α) : ℕ := F.headSize + F.bodySize (s.take F.headSize)

theorem headSize_le_frameSize (s : List α) : F.headSize ≤ F.frameSize s := Nat.le_add_right _ _

/-- `cut`, for as many frames and skipped entries as the first argument allows. -/
def cutAux : ℕ → List α → List β × List α
  | 0, s => ([], s)
  | fuel + 1, s =>
    if s.length < F.headSize then ([], s)
    else if F.isHead (s.take F.headSize) then
      if s.length < F.frameSize s then ([], s)
      else
        let r := cutAux fuel (s.drop (F.frameSize s))
        ((F.emit (s.take F.headSize) ((s.take (F.frameSize s)).drop F.headSize)).toList ++ r.1, r.2)
    else cutAux fuel (s.drop 1)

/-- A stream cut into frames: what they emit, in order, and what is left where the cutting stops. -/
def cut (s : List α) : List β × List α := F.cutAux s.length s

/-- **The reference decoding**: what the frames of a stream emit, in order. -/
def decode (s : List α) : List β := (F.cut s).1

/-- What is left of a stream behind its last whole frame and the entries skipped there. -/
def rest (s : List α) : List α := (F.cut s).2

theorem cutAux_eq {fuel : ℕ} {s : List α} (h : s.length ≤ fuel) : F.cutAux fuel s = F.cut s := by
  have key : ∀ f₁ f₂ (s : List α), s.length ≤ f₁ → s.length ≤ f₂ → F.cutAux f₁ s = F.cutAux f₂ s := by
    intro f₁
    have hpos := F.headSize_pos
    induction f₁ with
    | zero =>
      intro f₂ s h₁ _
      cases f₂ with
      | zero => rfl
      | succ f₂ =>
        have : s.length < F.headSize := by omega
        simp [cutAux, this]
    | succ f₁ ih =>
      intro f₂ s h₁ h₂
      cases f₂ with
      | zero =>
        have : s.length < F.headSize := by omega
        simp [cutAux, this]
      | succ f₂ =>
        have hle := F.headSize_le_frameSize s
        simp only [cutAux]
        split
        · rfl
        · split
          · split
            · rfl
            · rw [ih f₂ _ (by simp; omega) (by simp; omega)]
          · exact ih f₂ _ (by simp; omega) (by simp; omega)
  exact key _ _ s h le_rfl

/-- A head begins the stream. -/
def HeadAt (s : List α) : Prop := F.headSize ≤ s.length ∧ F.isHead (s.take F.headSize) = true

instance (s : List α) : Decidable (F.HeadAt s) := by unfold HeadAt; infer_instance

theorem headAt_append {h t : List α} (hl : h.length = F.headSize) : F.HeadAt (h ++ t) ↔ F.isHead h = true := by
  unfold HeadAt
  rw [← hl, List.take_left]
  simp

theorem headAt_append_left {s : List α} (h : F.headSize ≤ s.length) (t : List α) :
    F.HeadAt (s ++ t) ↔ F.HeadAt s := by
  unfold HeadAt
  rw [List.take_append_of_le_length h]
  simp
  omega

theorem cut_short {s : List α} (h : s.length < F.headSize) : F.cut s = ([], s) := by
  unfold cut
  cases hs : s.length with
  | zero => rfl
  | succ n => simp [cutAux, h]

theorem cut_skip {a : α} {s : List α} (hl : F.headSize ≤ (a :: s).length) (hn : ¬ F.HeadAt (a :: s)) :
    F.cut (a :: s) = F.cut s := by
  have hh : F.isHead ((a :: s).take F.headSize) = false := by
    by_contra hh
    exact hn ⟨hl, by simpa using hh⟩
  simp only [cut, List.length_cons, cutAux]
  simp only [List.length_cons] at hl
  rw [if_neg (by omega), hh]
  simp

theorem cut_headAt {s : List α} (h : F.HeadAt s) (hb : F.frameSize s ≤ s.length) :
    F.cut s = ((F.emit (s.take F.headSize) ((s.take (F.frameSize s)).drop F.headSize)).toList ++
      F.decode (s.drop (F.frameSize s)), F.rest (s.drop (F.frameSize s))) := by
  have hpos := F.headSize_pos
  have hle := F.headSize_le_frameSize s
  have hlen : s.length = s.length - 1 + 1 := by have := h.1; omega
  unfold cut
  rw [hlen]
  simp only [cutAux]
  rw [if_neg (by omega), if_pos h.2, if_neg (by omega), F.cutAux_eq (by simp; omega)]
  rfl

theorem cut_headAt_wait {s : List α} (h : F.HeadAt s) (hb : s.length < F.frameSize s) : F.cut s = ([], s) := by
  have hpos := F.headSize_pos
  have hlen : s.length = s.length - 1 + 1 := by have := h.1; omega
  unfold cut
  rw [hlen]
  simp only [cutAux]
  rw [if_neg (by have := h.1; omega), if_pos h.2, if_pos hb]

theorem frameSize_append {h : List α} (hl : h.length = F.headSize) (t : List α) :
    F.frameSize (h ++ t) = F.headSize + F.bodySize h := by
  rw [frameSize, ← hl, List.take_left]

theorem cut_frame {h b : List α} (hl : h.length = F.headSize) (hh : F.isHead h = true)
    (hb : b.length = F.bodySize h) (t : List α) :
    F.cut (h ++ (b ++ t)) = ((F.emit h b).toList ++ F.decode t, F.rest t) := by
  have hsize : F.frameSize (h ++ (b ++ t)) = (h ++ b).length := by
    rw [F.frameSize_append hl, List.length_append, hl, hb]
  rw [F.cut_headAt ((F.headAt_append hl).mpr hh) (by simp [hsize]), hsize, ← hl, List.take_left,
    ← List.append_assoc, List.take_left, List.drop_left, List.drop_left]

theorem cut_wait {h b : List α} (hl : h.length = F.headSize) (hh : F.isHead h = true)
    (hb : b.length < F.bodySize h) : F.cut (h ++ b) = ([], h ++ b) :=
  F.cut_headAt_wait ((F.headAt_append hl).mpr hh) (by rw [F.frameSize_append hl]; simp; omega)

theorem decode_short {s : List α} (h : s.length < F.headSize) : F.decode s = [] := by
  rw [decode, F.cut_short h]

theorem decode_skip {a : α} {s : List α} (hn : ¬ F.HeadAt (a :: s)) : F.decode (a :: s) = F.decode s := by
  rcases Nat.lt_or_ge (a :: s).length F.headSize with hl | hl
  · rw [F.decode_short hl, F.decode_short (by simp at hl ⊢; omega)]
  · rw [decode, F.cut_skip hl hn, decode]

theorem decode_frame {h b t : List α} (hl : h.length = F.headSize) (hh : F.isHead h = true)
    (hb : b.length = F.bodySize h) :
    F.decode (h ++ (b ++ t)) = (F.emit h b).toList ++ F.decode t := by
  rw [decode, F.cut_frame hl hh hb]

theorem decode_wait {h b : List α} (hl : h.length = F.headSize) (hh : F.isHead h = true)
    (hb : b.length < F.bodySize h) : F.decode (h ++ b) = [] := by
  rw [decode, F.cut_wait hl hh hb]

theorem decode_headAt {s : List α} (h : F.HeadAt s) (hb : F.frameSize s ≤ s.length) :
    F.decode s = (F.emit (s.take F.headSize) ((s.take (F.frameSize s)).drop F.headSize)).toList ++
      F.decode (s.drop (F.frameSize s)) := by
  rw [decode, F.cut_headAt h hb]

theorem decode_headAt_wait {s : List α} (h : F.HeadAt s) (hb : s.length < F.frameSize s) : F.decode s = [] := by
  rw [decode, F.cut_headAt_wait h hb]

/-! ### The receiver -/

/-- The search for a head: entries are skipped until a head begins or too few are left for one. -/
def scan : List α → List α
  | [] => []
  | a :: s => if (a :: s).length < F.headSize ∨ F.HeadAt (a :: s) then a :: s else scan s

/-- What a receiver keeps: the head it has taken and the entries it has not consumed. -/
@[ext] structure Receiver (α : Type*) where
  head : Option (List α)
  queue : List α

/-- The entries a receiver holds, the head it has taken included. -/
def Receiver.pending (r : Receiver α) : List α := r.head.getD [] ++ r.queue

/-- New entries arrive. -/
def Receiver.feed (r : Receiver α) (s : List α) : Receiver α := { r with queue := r.queue ++ s }

/-- A receiver holds a head only if it is one. -/
def Receiver.Wf (r : Receiver α) : Prop := ∀ h, r.head = some h → h.length = F.headSize ∧ F.isHead h = true

/-- **One call of the receiver**: it searches for a head and takes it, or takes the body of the head it has. -/
def poll (r : Receiver α) : Receiver α × Option β :=
  match r.head with
  | none =>
    let q := F.scan r.queue
    if q.length < F.headSize then (⟨none, q⟩, none) else (⟨some (q.take F.headSize), q.drop F.headSize⟩, none)
  | some h =>
    if r.queue.length < F.bodySize h then (r, none)
    else (⟨none, r.queue.drop (F.bodySize h)⟩, F.emit h (r.queue.take (F.bodySize h)))

/-- The states and emissions of a number of calls. -/
def polls : ℕ → Receiver α → Receiver α × List β
  | 0, r => (r, [])
  | n + 1, r => let p := F.poll r; let q := polls n p.1; (q.1, p.2.toList ++ q.2)

theorem scan_short {s : List α} (h : s.length < F.headSize) : F.scan s = s := by
  cases s with
  | nil => rfl
  | cons a s => simp only [scan, if_pos (Or.inl h)]

theorem scan_of_headAt {s : List α} (h : F.HeadAt s) : F.scan s = s := by
  cases s with
  | nil => rfl
  | cons a s => simp only [scan, if_pos (Or.inr h)]

theorem scan_skip {a : α} {s : List α} (hl : F.headSize ≤ (a :: s).length) (hn : ¬ F.HeadAt (a :: s)) :
    F.scan (a :: s) = F.scan s := by
  rw [scan, if_neg]
  rintro (h | h)
  · omega
  · exact hn h

theorem scan_headAt (s : List α) (h : F.headSize ≤ (F.scan s).length) : F.HeadAt (F.scan s) := by
  induction s with
  | nil => simp [scan] at h; have := F.headSize_pos; omega
  | cons a s ih =>
    by_cases hc : (a :: s).length < F.headSize ∨ F.HeadAt (a :: s)
    · rw [scan, if_pos hc] at h ⊢
      exact hc.resolve_left (by omega)
    · rw [scan, if_neg hc] at h ⊢
      exact ih h

theorem scan_suffix (s : List α) : F.scan s <:+ s := by
  induction s with
  | nil => exact List.suffix_rfl
  | cons a s ih =>
    rw [scan]
    split
    · exact List.suffix_rfl
    · exact ih.trans (List.suffix_cons a s)

theorem scan_skipped (s : List α) : ∃ p, s = p ++ F.scan s ∧ ∀ i < p.length, ¬ F.HeadAt (s.drop i) := by
  induction s with
  | nil => exact ⟨[], rfl, fun i hi => absurd hi (Nat.not_lt_zero i)⟩
  | cons a s ih =>
    by_cases hc : (a :: s).length < F.headSize ∨ F.HeadAt (a :: s)
    · exact ⟨[], by rw [scan, if_pos hc]; rfl, fun i hi => absurd hi (Nat.not_lt_zero i)⟩
    · obtain ⟨p, hp, hno⟩ := ih
      rw [scan, if_neg hc]
      refine ⟨a :: p, congrArg (a :: ·) hp, ?_⟩
      intro i hi
      cases i with
      | zero => exact fun h => hc (Or.inr h)
      | succ i => exact hno i (by simpa using hi)

/-- The first head of a stream is all that is left of it. -/
def HeadIsLast (s : List α) : Prop :=
  F.HeadAt (s.drop (s.length - F.headSize)) ∧ ∀ i < s.length - F.headSize, ¬ F.HeadAt (s.drop i)

instance (s : List α) : Decidable (F.HeadIsLast s) := by unfold HeadIsLast; infer_instance

theorem headIsLast_iff (s : List α) : F.HeadIsLast s ↔ (F.scan s).length = F.headSize := by
  obtain ⟨p, hp, hno⟩ := F.scan_skipped s
  have hlen : s.length = p.length + (F.scan s).length := by
    rw [← List.length_append, ← hp]
  have hdrop : s.drop p.length = F.scan s := by
    conv_lhs => rw [hp, List.drop_left]
  constructor
  · rintro ⟨hat, hfirst⟩
    -- the search stops at the first head, neither behind it nor in front of it
    rcases Nat.lt_trichotomy (F.scan s).length F.headSize with hlt | heq | hgt
    · have := hat.1
      rw [List.length_drop] at this
      exact absurd hat (hno _ (by omega))
    · exact heq
    · have := F.scan_headAt s hgt.le
      rw [← hdrop] at this
      exact absurd this (hfirst _ (by omega))
  · intro h
    have hfront : s.length - F.headSize = p.length := by omega
    rw [HeadIsLast, hfront, hdrop]
    exact ⟨F.scan_headAt s h.ge, hno⟩

/-- The search does not change the decoding, whatever is fed later. -/
theorem scan_decode (s t : List α) : F.decode (F.scan s ++ t) = F.decode (s ++ t) := by
  induction s with
  | nil => rfl
  | cons a s ih =>
    by_cases hc : (a :: s).length < F.headSize ∨ F.HeadAt (a :: s)
    · rw [scan, if_pos hc]
    · rw [scan, if_neg hc, ih, List.cons_append, F.decode_skip]
      rw [not_or, Nat.not_lt] at hc
      rw [← List.cons_append, F.headAt_append_left hc.1]
      exact hc.2

@[simp] theorem Receiver.pending_feed (r : Receiver α) (s : List α) : (r.feed s).pending = r.pending ++ s := by
  simp [pending, feed]

/-! ### One call -/

@[simp] theorem poll_empty : F.poll ⟨none, []⟩ = (⟨none, []⟩, none) := by
  simp [poll, scan, F.headSize_pos]

theorem poll_head {h : List α} (hl : h.length = F.headSize) (hh : F.isHead h = true) (t : List α) :
    F.poll ⟨none, h ++ t⟩ = (⟨some h, t⟩, none) := by
  have hscan : F.scan (h ++ t) = h ++ t := F.scan_of_headAt ((F.headAt_append hl).mpr hh)
  have hlen : ¬ (h ++ t).length < F.headSize := by simp; omega
  simp only [poll, hscan, if_neg hlen]
  rw [← hl, List.take_left, List.drop_left]

theorem poll_body {h b : List α} (hb : b.length = F.bodySize h) (t : List α) :
    F.poll ⟨some h, b ++ t⟩ = (⟨none, t⟩, F.emit h b) := by
  have hlen : ¬ (b ++ t).length < F.bodySize h := by simp; omega
  simp only [poll, if_neg hlen]
  rw [← hb, List.take_left, List.drop_left]

/-- **A call hands out what the decoding loses by it**, whatever is fed later. -/
theorem poll_decode {r : Receiver α} (hr : r.Wf F) (t : List α) :
    F.decode (r.pending ++ t) = (F.poll r).2.toList ++ F.decode ((F.poll r).1.pending ++ t) := by
  obtain ⟨head, q⟩ := r
  cases head with
  | none =>
    simp only [poll, Receiver.pending, Option.getD_none, List.nil_append]
    rw [← F.scan_decode q t]
    split
    · simp
    · simp
  | some h =>
    obtain ⟨hl, hh⟩ := hr h rfl
    simp only [poll, Receiver.pending, Option.getD_some]
    split
    · simp
    · rename_i hb
      have hq : h ++ q ++ t = h ++ (q.take (F.bodySize h) ++ (q.drop (F.bodySize h) ++ t)) := by
        rw [← List.append_assoc (q.take _), List.take_append_drop, List.append_assoc]
      rw [hq, F.decode_frame hl hh (by simp; omega)]
      simp

theorem poll_queue (r : Receiver α) :
    (F.poll r).1.queue = r.queue ∨ (F.poll r).1.queue.length < r.queue.length := by
  have key : ∀ q : List α, q <:+ r.queue → q = r.queue ∨ q.length < r.queue.length := fun q hq =>
    hq.length_le.eq_or_lt.imp_left hq.eq_of_length
  apply key
  unfold poll
  split
  · dsimp only
    split
    · exact F.scan_suffix _
    · exact (List.drop_suffix _ _).trans (F.scan_suffix _)
  · split
    · exact List.suffix_rfl
    · exact List.drop_suffix _ _

/-- A call that takes nothing off the queue waits for the bytes of a head, or of a body. -/
theorem poll_waits {r : Receiver α} (hq : (F.poll r).1.queue = r.queue)
    (hn : (F.poll r).1.head = none ↔ r.head = none) :
    r.queue.length < F.headSize ∨ ∃ h, r.head = some h ∧ r.queue.length < F.bodySize h := by
  obtain ⟨head, q⟩ := r
  cases head with
  | none =>
    left
    by_cases hlen : (F.scan q).length < F.headSize
    · simp only [poll, if_pos hlen] at hq
      rwa [hq] at hlen
    · simp [poll, hlen] at hn
  | some h =>
    right
    refine ⟨h, rfl, ?_⟩
    by_contra hlen
    simp [poll, hlen] at hn

theorem decode_of_poll_idle {r : Receiver α} (hr : r.Wf F) (h : (F.poll r).1.queue = r.queue) :
    F.decode r.pending = [] := by
  have hpos := F.headSize_pos
  obtain ⟨head, q⟩ := r
  cases head with
  | none =>
    have hsuf := (F.scan_suffix q).length_le
    simp only [poll] at h
    simp only [Receiver.pending, Option.getD_none, List.nil_append]
    split at h
    · rename_i hlen
      have h : F.scan q = q := h
      exact F.decode_short (h ▸ hlen)
    · have := congrArg List.length h
      simp at this
      omega
  | some hd =>
    obtain ⟨hl, hh⟩ := hr hd rfl
    simp only [poll] at h
    simp only [Receiver.pending, Option.getD_some]
    split at h
    · rename_i hb
      exact F.decode_wait hl hh hb
    · have := congrArg List.length h
      have hbpos := F.bodySize_pos hd
      simp at this
      omega

end Framing

end Fr8012haLock
