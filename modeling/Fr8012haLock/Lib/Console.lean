import Mathlib.Data.Nat.Digits.Lemmas
import Mathlib.Data.UInt

/-!
# What is printed on a console

`numeral b w n` are the characters that a number is printed as to the base `b`, padded with zeros to `w` digits; `hex`
and `decimal` are the conversions `%x` and `%d` as the `printf` of C has them.  `value b` is the number that characters
stand for; `readBytes` reads bytes that were printed in hexadecimal, one behind the other.  A log whose messages all
begin with a mark that is nowhere else in them, or all end with one, comes apart at the marks (`splitOn_marked`,
`splitOn_ended`).
-/

namespace Fr8012haLock.Console

/-! ### Numbers -/

def digitChars : List Char := ['0', '1', '2', '3', '4', '5', '6', '7', '8', '9', 'a', 'b', 'c', 'd', 'e', 'f']

/-- A digit, for its value. -/
def digitChar (d : ℕ) : Char := digitChars.getD d '0'

/-- A number, with at least `w` digits. -/
def numeral (b w n : ℕ) : List Char := ((Nat.digits b n).reverse.map digitChar).leftpad w '0'

/-- `%0<w>x` of `printf` -/
abbrev hex (w n : ℕ) : List Char := numeral 16 w n

/-- `%d` of `printf`, for a number that is not negative -/
abbrev decimal (n : ℕ) : List Char := numeral 10 1 n

/-- The number that digits stand for. -/
def value (b : ℕ) (cs : List Char) : ℕ := cs.foldl (fun n c => b * n + digitChars.idxOf c) 0

section Numbers

variable {b w n d : ℕ} {c : Char}

theorem digitChar_mem (d : ℕ) : digitChar d ∈ digitChars := by
  rw [digitChar, List.getD_eq_getElem?_getD]
  cases hd : digitChars[d]? with
  | none => exact List.mem_cons_self
  | some c => exact List.mem_of_getElem? hd

theorem idxOf_digitChar (h : d < 16) : digitChars.idxOf (digitChar d) = d := by
  have hnodup : digitChars.Nodup := by decide
  have hlt : d < digitChars.length := h
  rw [digitChar, List.getD_eq_getElem?_getD, List.getElem?_eq_getElem hlt, Option.getD_some]
  exact hnodup.idxOf_getElem d hlt

theorem mem_numeral (h : c ∈ numeral b w n) : c ∈ digitChars := by
  rcases List.mem_append.mp h with h | h
  · rw [List.eq_of_mem_replicate h]
    exact List.mem_cons_self
  · obtain ⟨d, -, rfl⟩ := List.mem_map.mp h
    exact digitChar_mem d

theorem length_numeral (hb : 1 < b) (h : n < b ^ w) : (numeral b w n).length = w := by
  have hle : (Nat.digits b n).length ≤ w := (Nat.digits_length_le_iff hb n).mpr h
  rw [numeral, List.leftpad, List.length_append, List.length_replicate, List.length_map, List.length_reverse]
  omega

theorem value_map_digitChar (ds : List ℕ) (h : ∀ d ∈ ds, d < 16) :
    value b (ds.reverse.map digitChar) = Nat.ofDigits b ds := by
  induction ds with
  | nil => rfl
  | cons d ds ih =>
    have hds : value b (ds.reverse.map digitChar) = Nat.ofDigits b ds := by
      apply ih
      intro d' hd'
      exact h d' (List.mem_cons_of_mem d hd')
    rw [value] at hds
    rw [List.reverse_cons, List.map_append, value, List.foldl_append, hds, Nat.ofDigits_cons]
    show b * _ + digitChars.idxOf (digitChar d) = _
    rw [idxOf_digitChar (h d List.mem_cons_self)]
    exact Nat.add_comm _ _

theorem value_replicate_append (k : ℕ) (cs : List Char) : value b (List.replicate k '0' ++ cs) = value b cs := by
  induction k with
  | zero => rfl
  | succ k ih => exact ih

/-- **A number that was printed can be read.** -/
theorem value_numeral (hb : 1 < b) (hb' : b ≤ 16) (w n : ℕ) : value b (numeral b w n) = n := by
  have hlt : ∀ d ∈ Nat.digits b n, d < 16 := by
    intro d hd
    exact (Nat.digits_lt_base hb hd).trans_le hb'
  rw [numeral, List.leftpad, value_replicate_append, value_map_digitChar _ hlt, Nat.ofDigits_digits]

end Numbers

/-! ### Bytes -/

/-- The bytes that pairs of digits stand for. -/
def readBytes : List Char → List UInt8
  | c₁ :: c₂ :: cs => UInt8.ofNat (value 16 [c₁, c₂]) :: readBytes cs
  | _ => []

theorem readBytes_hex_append (b : UInt8) (cs : List Char) : readBytes (hex 2 b.toNat ++ cs) = b :: readBytes cs := by
  have hlen : (hex 2 b.toNat).length = 2 := length_numeral (by omega) b.toNat_lt
  obtain ⟨c₁, c₂, hcs⟩ := List.length_eq_two.mp hlen
  have hval : value 16 [c₁, c₂] = b.toNat := by rw [← hcs, value_numeral (by omega) (Nat.le_refl 16)]
  rw [hcs]
  show UInt8.ofNat (value 16 [c₁, c₂]) :: readBytes cs = _
  rw [hval, UInt8.ofNat_toNat]

/-- **Bytes that were printed can be read.** -/
theorem readBytes_flatMap_hex (bs : List UInt8) : readBytes (bs.flatMap fun b => hex 2 b.toNat) = bs := by
  induction bs with
  | nil => rfl
  | cons b bs ih => rw [List.flatMap_cons, readBytes_hex_append, ih]

/-! ### Messages -/

section Messages

variable {α : Type*} [BEq α] [LawfulBEq α] {mark : α} {texts : List (List α)}

/-- **Messages that begin with a mark** come apart in front of the marks. -/
theorem splitOn_marked (h : ∀ text ∈ texts, mark ∉ text) {pre : List α} (hpre : mark ∉ pre) :
    (pre ++ texts.flatMap (mark :: ·)).splitOn mark = pre :: texts := by
  induction texts generalizing pre with
  | nil => rw [List.flatMap_nil, List.append_nil, List.splitOn_eq_singleton hpre]
  | cons text texts ih =>
    have hrest := ih (fun t ht => h t (List.mem_cons_of_mem text ht)) (h text List.mem_cons_self)
    rw [List.flatMap_cons, List.cons_append, List.splitOn_append_cons_self_of_not_mem hpre, hrest]

/-- **Messages that end with a mark** come apart behind the marks. -/
theorem splitOn_ended (h : ∀ text ∈ texts, mark ∉ text) :
    (texts.flatMap (· ++ [mark])).splitOn mark = texts ++ [[]] := by
  induction texts with
  | nil => exact List.splitOn_nil mark
  | cons text texts ih =>
    have hrest := ih fun t ht => h t (List.mem_cons_of_mem text ht)
    rw [List.flatMap_cons, List.append_assoc, List.singleton_append,
      List.splitOn_append_cons_self_of_not_mem (h text List.mem_cons_self), hrest]
    rfl

end Messages

end Fr8012haLock.Console
