import Fr8012haLock.Lib.Framing

/-!
# How many calls a receiver needs

A call takes a head, or the body of one, off the queue, unless it waits for more.  So the length of the queue bounds the
calls that can do anything before new entries arrive (`backlog`); each of them brings the bound down (`poll_backlog`),
and at zero the receiver waits (`waits_of_backlog`).
-/

namespace Fr8012haLock.Framing

variable {α β : Type*} (F : Framing α β)

/-- The calls that can do anything before new entries arrive, at most: two for each frame of the shortest size, and one
for a head that has been taken. -/
def backlog (r : Receiver α) : ℕ :=
  match r.head with
  | none => 2 * ((r.queue.length + 1) / (F.headSize + 1))
  | some h => if r.queue.length < F.bodySize h then 0 else 2 * (r.queue.length / (F.headSize + 1)) + 1

theorem backlog_mono {q q' : List α} (h : q'.length ≤ q.length) : F.backlog ⟨none, q'⟩ ≤ F.backlog ⟨none, q⟩ :=
  Nat.mul_le_mul_left 2 (Nat.div_le_div_right (Nat.succ_le_succ h))

theorem backlog_short {q : List α} (h : q.length < F.headSize) : F.backlog ⟨none, q⟩ = 0 := by
  show 2 * ((q.length + 1) / (F.headSize + 1)) = 0
  rw [Nat.div_eq_of_lt (Nat.succ_lt_succ h)]

theorem backlog_drop_head (h : List α) {q : List α} (hq : F.headSize ≤ q.length) :
    F.backlog ⟨some h, q.drop F.headSize⟩ ≤ F.backlog ⟨none, q⟩ - 1 := by
  have hsplit : q.length + 1 = q.length - F.headSize + (F.headSize + 1) := by omega
  show (if _ then 0 else 2 * ((q.drop F.headSize).length / (F.headSize + 1)) + 1) ≤
    2 * ((q.length + 1) / (F.headSize + 1)) - 1
  have hpos : 0 < F.headSize + 1 := Nat.succ_pos _
  rw [hsplit, Nat.add_div_right _ hpos, List.length_drop]
  generalize (q.length - F.headSize) / (F.headSize + 1) = k
  have hone : 2 * k + 1 ≤ 2 * (k + 1) - 1 := by omega
  split
  · exact Nat.zero_le _
  · exact hone

theorem backlog_drop_body {h q : List α} (hq : F.bodySize h ≤ q.length) :
    F.backlog ⟨none, q.drop (F.bodySize h)⟩ ≤ F.backlog ⟨some h, q⟩ - 1 := by
  have hpos := F.bodySize_pos h
  have hle : (q.drop (F.bodySize h)).length + 1 ≤ q.length := by
    rw [List.length_drop]
    omega
  show 2 * (((q.drop (F.bodySize h)).length + 1) / (F.headSize + 1)) ≤
    (if q.length < F.bodySize h then 0 else 2 * (q.length / (F.headSize + 1)) + 1) - 1
  rw [if_neg (Nat.not_lt.mpr hq), Nat.add_sub_cancel]
  exact Nat.mul_le_mul_left 2 (Nat.div_le_div_right hle)

/-- **A call brings the bound down.** -/
theorem poll_backlog (r : Receiver α) : F.backlog (F.poll r).1 ≤ F.backlog r - 1 := by
  obtain ⟨head, q⟩ := r
  cases head with
  | none =>
    have hscan := F.backlog_mono (F.scan_suffix q).length_le
    simp only [poll]
    split
    · rename_i hshort
      rw [F.backlog_short hshort]
      exact Nat.zero_le _
    · rename_i hlen
      have hdrop := F.backlog_drop_head ((F.scan q).take F.headSize) (Nat.not_lt.mp hlen)
      exact hdrop.trans (Nat.sub_le_sub_right hscan 1)
  | some h =>
    simp only [poll]
    split
    · rename_i hshort
      simp [backlog, hshort]
    · rename_i hlen
      exact F.backlog_drop_body (Nat.not_lt.mp hlen)

/-- **At zero the receiver waits** for a head, or for a body. -/
theorem waits_of_backlog {r : Receiver α} (h : F.backlog r = 0) :
    (r.head = none → r.queue.length < F.headSize) ∧ ∀ hd, r.head = some hd → r.queue.length < F.bodySize hd := by
  obtain ⟨head, q⟩ := r
  constructor
  · rintro rfl
    by_contra hlen
    change ¬ q.length < F.headSize at hlen
    have hone : 1 ≤ (q.length + 1) / (F.headSize + 1) := (Nat.one_le_div_iff (Nat.succ_pos _)).mpr (by omega)
    change 2 * ((q.length + 1) / (F.headSize + 1)) = 0 at h
    omega
  · rintro hd rfl
    by_contra hlen
    change (if q.length < F.bodySize hd then 0 else 2 * (q.length / (F.headSize + 1)) + 1) = 0 at h
    rw [if_neg hlen] at h
    cases h

end Fr8012haLock.Framing
