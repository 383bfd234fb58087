import Mathlib.Data.List.Basic
import Mathlib.Data.List.Nodup
import Mathlib.Data.Fintype.Card
import Mathlib.Logic.Function.Basic
import Mathlib.Tactic.Common

/-!
# Linked lists in a heap

A heap gives out addresses in increasing order and never gives one out twice, so that an address stands for one cell
for ever.  `Seg h p l q` says that from the pointer `p` on the cells of `l` are met, one behind the other, and then the
pointer `q`.  `Lists h p l` says that the cells of the heap are those of the list `l` that starts at `p`: the list ends
in the null pointer, meets no cell twice, and no cell is off it.

A new cell behind the last one (`Lists.push`), a cell taken out (`Lists.unlink_head`, `Lists.unlink`) and a value
changed (`Lists.mapVal`) do to the list what they are for.
-/

namespace Fr8012haLock.LinkedList

/-- A cell: a value, and the pointer to the next cell.  Addresses are numbers. -/
structure Cell (α : Type*) where
  val : α
  next : Option ℕ

/-- A heap of cells.  The addresses from `top` on have not been given out yet. -/
structure Heap (α : Type*) where
  cell : ℕ → Option (Cell α)
  top : ℕ
  unused : ∀ a, top ≤ a → cell a = none

variable {α : Type*}

namespace Heap

/-- The heap without cells. -/
def empty : Heap α := ⟨fun _ => none, 0, fun _ _ => rfl⟩

/-- A new cell, and its address. -/
def alloc (h : Heap α) (c : Cell α) : Heap α × ℕ :=
  (⟨Function.update h.cell h.top (some c), h.top + 1, fun a ha => by
    rw [Function.update_of_ne (by omega), h.unused a (by omega)]⟩, h.top)

/-- The cell at `a` changed by `f`, if there is one. -/
def modify (h : Heap α) (a : ℕ) (f : Cell α → Cell α) : Heap α :=
  ⟨Function.update h.cell a ((h.cell a).map f), h.top, fun b hb => by
    by_cases hab : b = a
    · subst hab
      rw [Function.update_self, h.unused b hb]
      rfl
    · rw [Function.update_of_ne hab, h.unused b hb]⟩

/-- The heap without the cell at `a`. -/
def free (h : Heap α) (a : ℕ) : Heap α :=
  ⟨Function.update h.cell a none, h.top, fun b hb => by
    by_cases hab : b = a
    · rw [hab, Function.update_self]
    · rw [Function.update_of_ne hab, h.unused b hb]⟩

variable (h : Heap α) {a b : ℕ}

@[simp] theorem alloc_snd (c : Cell α) : (h.alloc c).2 = h.top := rfl

@[simp] theorem top_alloc (c : Cell α) : (h.alloc c).1.top = h.top + 1 := rfl

theorem cell_alloc_top (c : Cell α) : (h.alloc c).1.cell h.top = some c := Function.update_self ..

theorem cell_alloc_of_ne (c : Cell α) (hb : b ≠ h.top) : (h.alloc c).1.cell b = h.cell b :=
  Function.update_of_ne hb ..

theorem cell_modify_self (f : Cell α → Cell α) : (h.modify a f).cell a = (h.cell a).map f := Function.update_self ..

theorem cell_modify_of_ne (f : Cell α → Cell α) (hb : b ≠ a) : (h.modify a f).cell b = h.cell b :=
  Function.update_of_ne hb ..

theorem cell_free_self : (h.free a).cell a = none := Function.update_self ..

theorem cell_free_of_ne (hb : b ≠ a) : (h.free a).cell b = h.cell b := Function.update_of_ne hb ..

theorem lt_top_of_cell (ha : h.cell a ≠ none) : a < h.top := by
  by_contra hge
  exact ha (h.unused a (by omega))

end Heap

/-! ### Segments -/

/-- From the pointer `p` on the cells of `l` are met, and then the pointer `q`. -/
def Seg (h : Heap α) : Option ℕ → List (ℕ × α) → Option ℕ → Prop
  | p, [], q => p = q
  | p, x :: l, q => p = some x.1 ∧ ∃ n, h.cell x.1 = some ⟨x.2, n⟩ ∧ Seg h n l q

/-- The addresses of a list of cells. -/
abbrev addrs (l : List (ℕ × α)) : List ℕ := l.map Prod.fst

variable {h h' : Heap α} {p q : Option ℕ} {l m : List (ℕ × α)} {x y : ℕ × α}

theorem seg_append : Seg h p (l ++ m) q ↔ ∃ r, Seg h p l r ∧ Seg h r m q := by
  induction l generalizing p with
  | nil => simp [Seg]
  | cons x l ih =>
    simp only [List.cons_append, Seg, ih]
    constructor
    · rintro ⟨hp, n, hn, r, hl, hm⟩
      exact ⟨r, ⟨hp, n, hn, hl⟩, hm⟩
    · rintro ⟨r, ⟨hp, n, hn, hl⟩, hm⟩
      exact ⟨hp, n, hn, r, hl, hm⟩

theorem Seg.frame (hs : Seg h p l q) (hc : ∀ a ∈ addrs l, h'.cell a = h.cell a) : Seg h' p l q := by
  induction l generalizing p with
  | nil => exact hs
  | cons x l ih =>
    obtain ⟨hp, n, hn, hl⟩ := hs
    refine ⟨hp, n, ?_, ih hl fun a ha => hc a (List.mem_cons_of_mem _ ha)⟩
    rw [hc x.1 List.mem_cons_self, hn]

theorem Seg.unique (hl : Seg h p l none) (hm : Seg h p m none) : l = m := by
  induction l generalizing p m with
  | nil =>
    cases m with
    | nil => rfl
    | cons y m =>
      obtain ⟨hp, -⟩ := hm
      cases hl.symm.trans hp
  | cons x l ih =>
    obtain ⟨hp, n, hn, hl⟩ := hl
    cases m with
    | nil => cases hm.symm.trans hp
    | cons y m =>
      obtain ⟨hp', n', hn', hm⟩ := hm
      have hxy : x.1 = y.1 := Option.some.inj (hp.symm.trans hp')
      rw [← hxy, hn] at hn'
      injection hn' with hcell
      injection hcell with hval hnext
      subst hnext
      rw [ih hl hm, Prod.ext hxy hval]

/-! ### Lists -/

/-- The pointer to the first cell of a list. -/
def first (l : List (ℕ × α)) : Option ℕ := l.head?.map Prod.fst

@[simp] theorem first_cons : first (x :: l) = some x.1 := rfl

theorem Seg.first_eq (hs : Seg h p l none) : p = first l := by
  cases l with
  | nil => exact hs
  | cons x l => exact hs.1

/-- The cells of the heap are those of the list `l` that starts at `p`. -/
structure Lists (h : Heap α) (p : Option ℕ) (l : List (ℕ × α)) : Prop where
  seg : Seg h p l none
  nodup : (addrs l).Nodup
  covers : ∀ a, h.cell a ≠ none → a ∈ addrs l

theorem lists_empty : Lists (Heap.empty : Heap α) none [] :=
  ⟨rfl, List.nodup_nil, fun _ ha => absurd rfl ha⟩

namespace Lists

theorem first_eq (hs : Lists h p l) : p = first l := hs.seg.first_eq

theorem unique (hl : Lists h p l) (hm : Lists h p m) : l = m := hl.seg.unique hm.seg

theorem cell_eq (hs : Lists h p (l ++ x :: m)) : h.cell x.1 = some ⟨x.2, first m⟩ := by
  obtain ⟨r, -, -, n, hn, hm⟩ := seg_append.mp hs.seg
  rw [hn, hm.first_eq]

theorem cell_ne_none (hs : Lists h p l) {a : ℕ} : h.cell a ≠ none ↔ a ∈ addrs l := by
  constructor
  · exact hs.covers a
  · intro ha
    obtain ⟨x, hx, rfl⟩ := List.mem_map.mp ha
    obtain ⟨s, t, rfl⟩ := List.append_of_mem hx
    rw [hs.cell_eq]
    exact Option.some_ne_none _

theorem lt_top (hs : Lists h p l) {a : ℕ} (ha : a ∈ addrs l) : a < h.top :=
  h.lt_top_of_cell (hs.cell_ne_none.mpr ha)

theorem length_le (hs : Lists h p l) : l.length ≤ h.top := by
  have hsub : addrs l ⊆ List.range h.top := fun a ha => List.mem_range.mpr (hs.lt_top ha)
  have := (hs.nodup.subperm hsub).length_le
  rwa [List.length_range, List.length_map] at this

theorem ne_of_mem (hs : Lists h p (l ++ x :: m)) : (∀ a ∈ addrs l, a ≠ x.1) ∧ ∀ a ∈ addrs m, a ≠ x.1 := by
  have hnodup := hs.nodup
  rw [addrs, List.map_append, List.map_cons, List.nodup_append] at hnodup
  obtain ⟨-, hx, hdis⟩ := hnodup
  constructor
  · intro a ha
    exact hdis a ha x.1 List.mem_cons_self
  · rintro a ha rfl
    exact (List.nodup_cons.mp hx).1 ha

theorem mapVal (hs : Lists h p (l ++ x :: m)) (f : α → α) :
    Lists (h.modify x.1 fun c => { c with val := f c.val }) p (l ++ (x.1, f x.2) :: m) := by
  have haddrs : addrs (l ++ (x.1, f x.2) :: m) = addrs (l ++ x :: m) := by simp
  obtain ⟨r, hl, hp, n, hn, hm⟩ := seg_append.mp hs.seg
  refine ⟨seg_append.mpr ⟨r, hl.frame ?_, hp, n, ?_, hm.frame ?_⟩, haddrs ▸ hs.nodup, ?_⟩
  · intro a ha
    exact h.cell_modify_of_ne _ (hs.ne_of_mem.1 a ha)
  · rw [h.cell_modify_self, hn]
    rfl
  · intro a ha
    exact h.cell_modify_of_ne _ (hs.ne_of_mem.2 a ha)
  · intro a ha
    rw [haddrs]
    apply hs.covers
    intro hnone
    by_cases hax : a = x.1
    · rw [hax, hn] at hnone
      cases hnone
    · rw [h.cell_modify_of_ne _ hax] at ha
      exact ha hnone

theorem push_first (hs : Lists h p []) (v : α) :
    Lists (h.alloc ⟨v, none⟩).1 (some h.top) [(h.top, v)] := by
  refine ⟨⟨rfl, none, h.cell_alloc_top _, rfl⟩, List.nodup_singleton _, ?_⟩
  intro a ha
  by_contra hne
  have hat : a ≠ h.top := fun h' => hne (by simp [h'])
  rw [h.cell_alloc_of_ne _ hat] at ha
  exact absurd (hs.covers a ha) List.not_mem_nil

theorem push (hs : Lists h p (l ++ [x])) (v : α) :
    Lists ((h.alloc ⟨v, none⟩).1.modify x.1 fun c => { c with next := some h.top }) p (l ++ [x, (h.top, v)]) := by
  have hlt : ∀ a ∈ addrs (l ++ [x]), a ≠ h.top := fun a ha => (hs.lt_top ha).ne
  have hx : x.1 ≠ h.top := hlt _ (by simp)
  have haddrs : addrs (l ++ [x, (h.top, v)]) = addrs (l ++ [x]) ++ [h.top] := by simp
  obtain ⟨r, hl, hp, -⟩ := seg_append.mp hs.seg
  refine ⟨seg_append.mpr ⟨r, hl.frame ?_, hp, some h.top, ?_, rfl, none, ?_, rfl⟩, ?_, ?_⟩
  · intro a ha
    rw [Heap.cell_modify_of_ne _ _ (hs.ne_of_mem.1 a ha), h.cell_alloc_of_ne _ (hlt a (by simp [ha]))]
  · rw [Heap.cell_modify_self, h.cell_alloc_of_ne _ hx, hs.cell_eq]
    rfl
  · rw [Heap.cell_modify_of_ne _ _ hx.symm, h.cell_alloc_top]
  · rw [haddrs]
    refine List.nodup_append.mpr ⟨hs.nodup, List.nodup_singleton _, ?_⟩
    intro a ha b hb
    rw [List.mem_singleton.mp hb]
    exact hlt a ha
  · intro a ha
    rw [haddrs, List.mem_append, List.mem_singleton]
    by_cases hat : a = h.top
    · exact Or.inr hat
    · refine Or.inl (hs.covers a fun hnone => ha ?_)
      by_cases hax : a = x.1
      · subst hax
        rw [Heap.cell_modify_self, h.cell_alloc_of_ne _ hat, hnone]
        rfl
      · rw [Heap.cell_modify_of_ne _ _ hax, h.cell_alloc_of_ne _ hat, hnone]

theorem unlink_head (hs : Lists h p (x :: l)) : Lists (h.free x.1) (first l) l := by
  obtain ⟨-, n, hn, hl⟩ := hs.seg
  have hne := (Lists.ne_of_mem (l := []) hs).2
  refine ⟨?_, (List.nodup_cons.mp hs.nodup).2, ?_⟩
  · rw [← hl.first_eq]
    exact hl.frame fun a ha => h.cell_free_of_ne (hne a ha)
  · intro a ha
    have hax : a ≠ x.1 := by
      rintro rfl
      exact ha h.cell_free_self
    rw [h.cell_free_of_ne hax] at ha
    exact (List.mem_cons.mp (hs.covers a ha)).resolve_left hax

theorem unlink (hs : Lists h p (l ++ x :: y :: m)) :
    Lists ((h.modify x.1 fun c => { c with next := first m }).free y.1) p (l ++ x :: m) := by
  have hx := hs.ne_of_mem
  have hs' : Lists h p ((l ++ [x]) ++ y :: m) := by rwa [List.append_assoc]
  have hy := hs'.ne_of_mem
  have hxy : x.1 ≠ y.1 := hy.1 x.1 (by simp)
  have hly : ∀ a ∈ addrs l, a ≠ y.1 := fun a ha => hy.1 a (by simp [ha])
  obtain ⟨r, hl, hp, n, hn, -, n', -, hm⟩ := seg_append.mp hs.seg
  have hsub : (addrs (l ++ x :: m)).Sublist (addrs (l ++ x :: y :: m)) := by
    refine List.Sublist.map _ ?_
    exact (List.Sublist.refl l).append ((List.sublist_cons_self y m).cons_cons x)
  refine ⟨seg_append.mpr ⟨r, hl.frame ?_, hp, first m, ?_, ?_⟩, hs.nodup.sublist hsub, ?_⟩
  · intro a ha
    rw [Heap.cell_free_of_ne _ (hly a ha), h.cell_modify_of_ne _ (hx.1 a ha)]
  · rw [Heap.cell_free_of_ne _ hxy, h.cell_modify_self, hn]
    rfl
  · rw [← hm.first_eq]
    apply hm.frame
    intro a ha
    rw [Heap.cell_free_of_ne _ (hy.2 a ha), h.cell_modify_of_ne _ (hx.2 a (List.mem_cons_of_mem _ ha))]
  · intro a ha
    have hay : a ≠ y.1 := by
      rintro rfl
      exact ha (Heap.cell_free_self _)
    rw [Heap.cell_free_of_ne _ hay] at ha
    have hmem : a ∈ addrs (l ++ x :: y :: m) := by
      refine hs.covers a fun hnone => ha ?_
      by_cases hax : a = x.1
      · subst hax
        rw [h.cell_modify_self, hnone]
        rfl
      · rw [h.cell_modify_of_ne _ hax, hnone]
    simp only [addrs, List.map_append, List.map_cons, List.mem_append, List.mem_cons] at hmem ⊢
    tauto

end Lists

end Fr8012haLock.LinkedList
