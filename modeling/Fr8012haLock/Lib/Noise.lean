import Fr8012haLock.Lib.Framing

/-!
# Noise that a receiver does not notice

`Framing.Quiet a` says that no head begins in `a`, whatever follows it.  Two streams are the `Same` when they differ
in quiet entries between whole frames only, and two receivers are `Alike` when what they hold is the same in this
sense and they have taken the same head.  Receivers that are alike hand out the same (`Alike.poll`).  They stay alike
when both are fed the same (`Alike.feed`), and when one of them is fed quiet entries at a moment when it holds no
unfinished frame (`Alike.feed_quiet`).
-/

namespace Fr8012haLock.Framing

variable {α β : Type*} (F : Framing α β)

/-- No head begins in `a`, whatever follows. -/
def Quiet (a : List α) : Prop := ∀ t i, i < a.length → ¬ F.HeadAt ((a ++ t).drop i)

variable {F}

theorem quiet_nil : F.Quiet [] := fun _ _ h => absurd h (Nat.not_lt_zero _)

theorem Quiet.append {a b : List α} (ha : F.Quiet a) (hb : F.Quiet b) : F.Quiet (a ++ b) := by
  intro t i hi
  rcases Nat.lt_or_ge i a.length with h | h
  · rw [List.append_assoc]
    exact ha (b ++ t) i h
  · rw [List.append_assoc, List.drop_append, List.drop_eq_nil_of_le h, List.nil_append]
    exact hb t _ (by simp at hi; omega)

theorem Quiet.suffix {a b : List α} (hb : F.Quiet b) (h : a <:+ b) : F.Quiet a := by
  obtain ⟨c, rfl⟩ := h
  intro t i hi
  have := hb t (c.length + i) (by simp; omega)
  rwa [List.append_assoc, ← List.drop_drop, List.drop_left] at this

theorem Quiet.tail {x : α} {a : List α} (h : F.Quiet (x :: a)) : F.Quiet a := h.suffix (List.suffix_cons x a)

theorem Quiet.not_headAt {x : α} {a : List α} (h : F.Quiet (x :: a)) (t : List α) : ¬ F.HeadAt (x :: (a ++ t)) :=
  h t 0 (by simp)

theorem not_quiet_of_headAt {s : List α} (h : F.HeadAt s) : ¬ F.Quiet s := by
  intro hq
  have hpos := F.headSize_pos
  have := hq [] 0 (by have := h.1; omega)
  rw [List.append_nil] at this
  exact this h

theorem scan_quiet_append {a t : List α} (ha : F.Quiet a) (ht : F.headSize ≤ t.length) :
    F.scan (a ++ t) = F.scan t := by
  induction a with
  | nil => rfl
  | cons x a ih =>
    rw [List.cons_append, F.scan_skip (by simp; omega) (ha.not_headAt t), ih ha.tail]

theorem scan_quiet_short {a t : List α} (ha : F.Quiet a) (ht : t.length < F.headSize) :
    ∃ a', F.Quiet a' ∧ F.scan (a ++ t) = a' ++ t ∧ (a' ++ t).length < F.headSize := by
  induction a with
  | nil => exact ⟨[], quiet_nil, F.scan_short ht, ht⟩
  | cons x a ih =>
    rcases Nat.lt_or_ge (x :: a ++ t).length F.headSize with hl | hl
    · exact ⟨x :: a, ha, F.scan_short hl, hl⟩
    · rw [List.cons_append] at hl ⊢
      rw [F.scan_skip hl (ha.not_headAt t)]
      exact ih ha.tail

theorem rest_quiet_append {a : List α} (ha : F.Quiet a) (t : List α) : F.rest t <:+ F.rest (a ++ t) := by
  induction a with
  | nil => exact List.suffix_rfl
  | cons x a ih =>
    rcases Nat.lt_or_ge (x :: a ++ t).length F.headSize with hl | hl
    · rw [rest, rest, F.cut_short hl, F.cut_short (by simp at hl; omega)]
      exact List.suffix_append _ _
    · rw [List.cons_append] at hl ⊢
      rw [rest.eq_1 F (x :: _), F.cut_skip hl (ha.not_headAt t)]
      exact ih ha.tail

variable (F)

/-- Two streams that differ in quiet entries between whole frames, and in nothing else. -/
inductive Same : List α → List α → Prop
  | refl (t : List α) : Same t t
  | noise {a b q₁ q₂ : List α} : F.Quiet a → F.Quiet b → Same q₁ q₂ → Same (a ++ q₁) (b ++ q₂)
  | skip {x : α} {q₁ q₂ : List α} : F.headSize ≤ (x :: q₁).length → F.headSize ≤ (x :: q₂).length →
      ¬ F.HeadAt (x :: q₁) → ¬ F.HeadAt (x :: q₂) → Same q₁ q₂ → Same (x :: q₁) (x :: q₂)
  | frame {h b q₁ q₂ : List α} : h.length = F.headSize → F.isHead h = true → b.length = F.bodySize h →
      Same q₁ q₂ → Same (h ++ (b ++ q₁)) (h ++ (b ++ q₂))

/-- Two receivers that have taken the same head and hold the same, up to quiet entries between whole frames. -/
inductive Alike : Receiver α → Receiver α → Prop
  | idle {q₁ q₂ : List α} : F.Same q₁ q₂ → Alike ⟨none, q₁⟩ ⟨none, q₂⟩
  | wait (h q : List α) : Alike ⟨some h, q⟩ ⟨some h, q⟩
  | body {h b q₁ q₂ : List α} : b.length = F.bodySize h → F.Same q₁ q₂ →
      Alike ⟨some h, b ++ q₁⟩ ⟨some h, b ++ q₂⟩

variable {F}

theorem same_of_quiet {a b : List α} (ha : F.Quiet a) (hb : F.Quiet b) : F.Same a b := by
  simpa using Same.noise ha hb (Same.refl [])

theorem Same.append {q₁ q₂ : List α} (h : F.Same q₁ q₂) (t : List α) : F.Same (q₁ ++ t) (q₂ ++ t) := by
  induction h with
  | refl s => exact Same.refl _
  | noise ha hb _ ih =>
    rw [List.append_assoc, List.append_assoc]
    exact ih.noise ha hb
  | skip h₁ h₂ hn₁ hn₂ _ ih =>
    rw [← F.headAt_append_left h₁ t] at hn₁
    rw [← F.headAt_append_left h₂ t] at hn₂
    exact ih.skip (by simp at h₁ ⊢; omega) (by simp at h₂ ⊢; omega) hn₁ hn₂
  | frame hl hh hb _ ih =>
    rw [List.append_assoc, List.append_assoc, List.append_assoc, List.append_assoc]
    exact ih.frame hl hh hb

/-- Quiet entries behind a stream that holds no unfinished frame do not matter. -/
theorem same_append_quiet {s : List α} (hs : F.Quiet s) {t : List α} (ht : F.Quiet (F.rest t)) :
    F.Same (t ++ s) t := by
  induction hn : t.length using Nat.strongRecOn generalizing t with
  | ind n ih =>
    rcases Nat.lt_or_ge t.length F.headSize with hl | hl
    · rw [rest, F.cut_short hl] at ht
      exact same_of_quiet (ht.append hs) ht
    · by_cases hat : F.HeadAt t
      · rcases Nat.lt_or_ge t.length (F.frameSize t) with hb | hb
        · rw [rest, F.cut_headAt_wait hat hb] at ht
          exact absurd ht (not_quiet_of_headAt hat)
        · rw [rest, F.cut_headAt hat hb] at ht
          have hpos := F.headSize_pos
          have hle := F.headSize_le_frameSize t
          have ih := ih _ (by simp; omega) ht rfl
          -- `t` is its head, its body and the part behind
          have hsplit : t.take F.headSize ++ ((t.take (F.frameSize t)).drop F.headSize ++
              t.drop (F.frameSize t)) = t := by
            have htake : (t.take (F.frameSize t)).take F.headSize = t.take F.headSize := by
              rw [List.take_take, Nat.min_eq_left hle]
            rw [← List.append_assoc, ← htake, List.take_append_drop, List.take_append_drop]
          have := ih.frame (h := t.take F.headSize) (b := (t.take (F.frameSize t)).drop F.headSize)
            (by simp [hl]) hat.2 (by simp [Nat.min_eq_left hb]; exact Nat.add_sub_cancel_left ..)
          rwa [← List.append_assoc, ← List.append_assoc, List.append_assoc (t.take _), hsplit] at this
      · cases t with
        | nil => simp at hl; have := F.headSize_pos; omega
        | cons x t =>
          rw [rest, F.cut_skip hl hat] at ht
          have ih := ih t.length (by simp at hn; omega) ht rfl
          rw [List.cons_append]
          refine ih.skip (by simp at hl ⊢; omega) hl ?_ hat
          rwa [← List.cons_append, F.headAt_append_left hl]

theorem Same.append_quiet {s q₁ q₂ : List α} (h : F.Same q₁ q₂) (hs : F.Quiet s) (hq : F.Quiet (F.rest q₁)) :
    F.Same (q₁ ++ s) q₂ := by
  induction h with
  | refl t => exact same_append_quiet hs hq
  | noise ha hb _ ih =>
    rw [List.append_assoc]
    exact (ih (hq.suffix (rest_quiet_append ha _))).noise ha hb
  | skip h₁ h₂ hn₁ hn₂ _ ih =>
    rw [rest, F.cut_skip h₁ hn₁] at hq
    rw [← F.headAt_append_left h₁ s] at hn₁
    exact (ih hq).skip (by simp at h₁ ⊢; omega) h₂ hn₁ hn₂
  | frame hl hh hb _ ih =>
    rw [rest, F.cut_frame hl hh hb] at hq
    rw [List.append_assoc, List.append_assoc]
    exact (ih hq).frame hl hh hb

/-! ### Receivers that are alike -/

theorem Alike.feed {r₁ r₂ : Receiver α} (h : F.Alike r₁ r₂) (s : List α) : F.Alike (r₁.feed s) (r₂.feed s) := by
  cases h with
  | idle hq => exact Alike.idle (hq.append s)
  | wait hd q => exact Alike.wait hd (q ++ s)
  | body hb hq =>
    unfold Receiver.feed
    rw [List.append_assoc, List.append_assoc]
    exact Alike.body hb (hq.append s)

theorem Alike.feed_quiet {r₁ r₂ : Receiver α} (h : F.Alike r₁ r₂) (hw : r₁.Wf F)
    (hr : F.Quiet (F.rest r₁.pending)) {s : List α} (hs : F.Quiet s) : F.Alike (r₁.feed s) r₂ := by
  cases h with
  | idle hq => exact Alike.idle (hq.append_quiet hs hr)
  | wait hd q =>
    obtain ⟨hl, hh⟩ := hw hd rfl
    simp only [Receiver.pending, Option.getD_some] at hr
    rcases Nat.lt_or_ge q.length (F.bodySize hd) with hlt | hge
    · rw [rest, F.cut_wait hl hh hlt] at hr
      exact absurd hr (not_quiet_of_headAt ((F.headAt_append hl).mpr hh))
    · rw [← List.take_append_drop (F.bodySize hd) q] at hr ⊢
      have hb : (q.take (F.bodySize hd)).length = F.bodySize hd := by simp [hge]
      rw [rest, F.cut_frame hl hh hb] at hr
      unfold Receiver.feed
      rw [List.append_assoc]
      exact Alike.body hb (same_append_quiet hs hr)
  | @body hd b q₁ q₂ hb hq =>
    obtain ⟨hl, hh⟩ := hw hd rfl
    simp only [Receiver.pending, Option.getD_some] at hr
    rw [rest, F.cut_frame hl hh hb] at hr
    unfold Receiver.feed
    rw [List.append_assoc]
    exact Alike.body hb (hq.append_quiet hs hr)

/-- The searches through two streams that are the same stop at the same head, or both find none. -/
theorem Same.scan {q₁ q₂ : List α} (h : F.Same q₁ q₂) :
    (∃ hd x₁ x₂, hd.length = F.headSize ∧ F.scan q₁ = hd ++ x₁ ∧ F.scan q₂ = hd ++ x₂ ∧
      F.Alike ⟨some hd, x₁⟩ ⟨some hd, x₂⟩) ∨
    ((F.scan q₁).length < F.headSize ∧ (F.scan q₂).length < F.headSize ∧ F.Same (F.scan q₁) (F.scan q₂)) := by
  induction h with
  | refl t =>
    rcases Nat.lt_or_ge (F.scan t).length F.headSize with hl | hl
    · exact Or.inr ⟨hl, hl, Same.refl _⟩
    · exact Or.inl ⟨_, _, _, by simp [hl], (List.take_append_drop F.headSize _).symm,
        (List.take_append_drop F.headSize _).symm, Alike.wait _ _⟩
  | @noise a b q₁ q₂ ha hb _ ih =>
    -- the search either passes over the noise, or stops in it for want of entries
    have key : ∀ {c q : List α}, F.Quiet c → F.scan (c ++ q) = F.scan q ∨
        (q.length < F.headSize ∧ ∃ c', F.Quiet c' ∧ F.scan (c ++ q) = c' ++ F.scan q ∧
          (c' ++ F.scan q).length < F.headSize) := by
      intro c q hc
      rcases Nat.lt_or_ge q.length F.headSize with hl | hl
      · rw [F.scan_short hl]
        exact Or.inr ⟨hl, scan_quiet_short hc hl⟩
      · exact Or.inl (scan_quiet_append hc hl)
    rcases ih with ⟨hd, x₁, x₂, hl, h₁, h₂, hal⟩ | ⟨h₁, h₂, hq⟩
    · have hlong : ∀ {q x : List α}, F.scan q = hd ++ x → ¬ q.length < F.headSize := by
        intro q x hx
        have := (F.scan_suffix q).length_le
        rw [hx, List.length_append] at this
        omega
      rw [(key ha).resolve_right fun h => hlong h₁ h.1, (key hb).resolve_right fun h => hlong h₂ h.1]
      exact Or.inl ⟨hd, x₁, x₂, hl, h₁, h₂, hal⟩
    · right
      have side : ∀ {c q : List α}, F.Quiet c → (F.scan q).length < F.headSize →
          ∃ c', F.Quiet c' ∧ F.scan (c ++ q) = c' ++ F.scan q ∧ (c' ++ F.scan q).length < F.headSize := by
        intro c q hc hlt
        rcases key (q := q) hc with h | ⟨-, h⟩
        · exact ⟨[], quiet_nil, h, hlt⟩
        · exact h
      obtain ⟨a', ha', hsa, hla⟩ := side ha h₁
      obtain ⟨b', hb', hsb, hlb⟩ := side hb h₂
      rw [hsa, hsb]
      exact ⟨hla, hlb, hq.noise ha' hb'⟩
  | skip h₁ h₂ hn₁ hn₂ _ ih =>
    rw [F.scan_skip h₁ hn₁, F.scan_skip h₂ hn₂]
    exact ih
  | @frame h b q₁ q₂ hl hh hb hq _ =>
    refine Or.inl ⟨h, b ++ q₁, b ++ q₂, hl, ?_, ?_, Alike.body hb hq⟩
    · exact F.scan_of_headAt ((F.headAt_append hl).mpr hh)
    · exact F.scan_of_headAt ((F.headAt_append hl).mpr hh)

/-- **Receivers that are alike hand out the same**, and stay alike. -/
theorem Alike.poll {r₁ r₂ : Receiver α} (h : F.Alike r₁ r₂) :
    F.Alike (F.poll r₁).1 (F.poll r₂).1 ∧ (F.poll r₁).2 = (F.poll r₂).2 := by
  cases h with
  | @idle q₁ q₂ hq =>
    simp only [Framing.poll]
    rcases hq.scan with ⟨hd, x₁, x₂, hl, h₁, h₂, hal⟩ | ⟨h₁, h₂, hs⟩
    · rw [h₁, h₂, if_neg (by simp; omega), if_neg (by simp; omega), ← hl, List.take_left, List.drop_left,
        List.take_left, List.drop_left]
      exact ⟨hal, rfl⟩
    · rw [if_pos h₁, if_pos h₂]
      exact ⟨Alike.idle hs, rfl⟩
  | wait hd q =>
    simp only [Framing.poll]
    split
    · exact ⟨Alike.wait hd q, trivial⟩
    · exact ⟨Alike.idle (Same.refl _), trivial⟩
  | body hb hq =>
    rw [F.poll_body hb, F.poll_body hb]
    exact ⟨Alike.idle hq, rfl⟩

end Fr8012haLock.Framing
