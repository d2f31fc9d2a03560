import Mathlib.Data.List.GetD
import ReliableSocket.Ring

/-! # Reading and writing around the end of a buffer

Bytes of a memory that is used as a circular buffer of `size` bytes, read and written from a
position on, past the end and on from the beginning. -/

open ring

namespace memory

/-- The `n` bytes from position `p` on. -/
def cload (m : Mem) (size p n : Nat) : List UInt8 := (List.range n).map fun i => m ((p + i) % size)

/-- Write the bytes `bs` from position `p` on. -/
def cstore (m : Mem) (size p : Nat) (bs : List UInt8) : Mem :=
  fun q => if q < size ∧ ring.dist size p q < bs.length then bs.getD (ring.dist size p q) 0 else m q

variable {m : Mem} {size p : Nat}

@[simp] theorem cload_length (m : Mem) (size p n : Nat) : (cload m size p n).length = n := by
  simp [cload]

@[simp] theorem cload_zero (m : Mem) (size p : Nat) : cload m size p 0 = [] := rfl

@[simp] theorem cstore_nil (m : Mem) (size p : Nat) : cstore m size p [] = m := by
  funext q
  simp [cstore]

theorem cload_add (m : Mem) (size p n k : Nat) :
    cload m size p (n + k) = cload m size p n ++ cload m size ((p + n) % size) k := by
  simp only [cload, List.range_add, List.map_append, List.map_map]
  congr 1
  apply List.map_congr_left
  intro i _
  simp only [Function.comp_apply, Nat.mod_add_mod, Nat.add_assoc]

theorem cload_congr {m m' : Mem} {n : Nat} (hagree : ∀ i < n, m ((p + i) % size) = m' ((p + i) % size)) :
    cload m size p n = cload m' size p n := by
  apply List.map_congr_left
  intro i hi
  exact hagree i (List.mem_range.mp hi)

/-- Without a wrap the bytes are those of an ordinary read. -/
theorem cload_eq_load {n : Nat} (hend : p + n ≤ size) : cload m size p n = load m p n := by
  induction n generalizing p with
  | zero => rfl
  | succ n ih =>
    rw [Nat.add_comm n 1, cload_add]
    have hfirst : cload m size p 1 = [m p] := by
      simp [cload, Nat.mod_eq_of_lt (show p < size by omega)]
    rw [hfirst, Nat.add_comm 1 n, load]
    by_cases hlast : p + 1 = size
    · obtain rfl : n = 0 := by omega
      rfl
    · rw [Nat.mod_eq_of_lt (show p + 1 < size by omega), ih (by omega)]
      rfl

theorem dist_mod {i : Nat} (hp : p < size) (hi : i < size) : ring.dist size p ((p + i) % size) = i := by
  by_cases hwrap : p + i < size
  · rw [Nat.mod_eq_of_lt hwrap, ring.dist, if_pos (by omega)]
    omega
  · have hmod : (p + i) % size = p + i - size := by
      rw [Nat.mod_eq_sub_mod (by omega), Nat.mod_eq_of_lt (by omega)]
    rw [hmod, ring.dist, if_neg (by omega)]
    omega

/-- The position that is reached after the distance to it. -/
theorem add_dist_mod {q : Nat} (hp : p < size) (hq : q < size) : (p + ring.dist size p q) % size = q := by
  obtain ⟨hle, hdist⟩ | ⟨hlt, hdist⟩ := dist_cases size p q
  · rw [hdist, Nat.mod_eq_of_lt (by omega)]
    omega
  · have hsum : p + ring.dist size p q = size + q := by omega
    rw [hsum, Nat.add_mod_left, Nat.mod_eq_of_lt hq]

theorem dist_lt {q : Nat} (hp : p < size) (hq : q < size) : ring.dist size p q < size := by
  obtain ⟨hle, hdist⟩ | ⟨hlt, hdist⟩ := dist_cases size p q <;> omega

/-- Bytes that are written behind `n` others are read back behind them, and the others are kept. -/
theorem cload_cstore {n : Nat} {bs : List UInt8} (hp : p < size) (hfits : n + bs.length ≤ size) :
    cload (cstore m size ((p + n) % size) bs) size p (n + bs.length) = cload m size p n ++ bs := by
  have hpos : ∀ i, (p + i) % size < size := fun i => Nat.mod_lt _ (by omega)
  rw [cload_add]
  congr 1
  · apply cload_congr
    intro i hi
    -- The distance from the first written byte goes round the rest of the buffer.
    have hout : ¬ ring.dist size ((p + n) % size) ((p + i) % size) < bs.length := by
      intro hlt
      have hsame := add_dist_mod (hpos n) (hpos i)
      rw [Nat.mod_add_mod, Nat.add_assoc] at hsame
      have hmod := dist_mod hp (show n + ring.dist size ((p + n) % size) ((p + i) % size) < size by omega)
      rw [hsame, dist_mod hp (by omega)] at hmod
      omega
    simp only [cstore, hout, and_false, if_false]
  · apply List.ext_getElem (by simp)
    intro i hi _
    have hlen : i < bs.length := by simpa using hi
    have hdist := dist_mod (hpos n) (show i < size by omega)
    have hlt : ((p + n) % size + i) % size < size := Nat.mod_lt _ (by omega)
    simp only [cload, List.getElem_map, List.getElem_range, cstore, hdist, hlt, hlen, true_and, if_true]
    exact List.getD_eq_getElem _ _ hlen

/-- A write in two parts. -/
theorem cstore_append {bs cs : List UInt8} (hp : p < size) (hfits : bs.length + cs.length ≤ size) :
    cstore (cstore m size p bs) size ((p + bs.length) % size) cs = cstore m size p (bs ++ cs) := by
  funext q
  by_cases hq : q < size
  · have hpos : (p + bs.length) % size < size := Nat.mod_lt _ (by omega)
    have hsame := add_dist_mod hpos hq
    have hround := dist_lt hpos hq
    rw [Nat.mod_add_mod, Nat.add_assoc] at hsame
    by_cases hcs : ring.dist size ((p + bs.length) % size) q < cs.length
    · have hmod := dist_mod hp
        (show bs.length + ring.dist size ((p + bs.length) % size) q < size by omega)
      rw [hsame] at hmod
      simp only [cstore, hq, hcs, true_and, if_true, List.length_append, hmod]
      rw [if_pos (by omega), List.getD_append_right _ _ _ _ (by omega)]
      congr 1
      omega
    · have hpart : ring.dist size p q < bs.length ↔ ring.dist size p q < bs.length + cs.length := by
        refine ⟨fun h => by omega, fun h => ?_⟩
        by_contra hnot
        have hq' := add_dist_mod hp hq
        have hsub : ring.dist size p q = bs.length + (ring.dist size p q - bs.length) := by omega
        rw [hsub, ← Nat.add_assoc, ← Nat.mod_add_mod] at hq'
        have hmod := dist_mod hpos (show ring.dist size p q - bs.length < size by omega)
        rw [hq'] at hmod
        omega
      simp only [cstore, hq, hcs, true_and, if_false, List.length_append]
      by_cases hbs : ring.dist size p q < bs.length
      · rw [if_pos hbs, if_pos (by omega), List.getD_append _ _ _ _ hbs]
      · rw [if_neg hbs, if_neg (fun h => hbs (hpart.mpr h))]
  · simp [cstore, hq]

/-- Without a wrap the write is an ordinary one. -/
theorem cstore_eq_store {bs : List UInt8} (hend : p + bs.length ≤ size) :
    cstore m size p bs = store m p bs := by
  funext q
  simp only [cstore, store]
  by_cases hin : p ≤ q ∧ q < p + bs.length
  · have hdist : ring.dist size p q = q - p := by simp [ring.dist, hin.1]
    rw [if_pos hin, if_pos (by omega), hdist]
  · rw [if_neg hin, if_neg]
    rintro ⟨hq, hdist⟩
    obtain ⟨hle, heq⟩ | ⟨hlt, heq⟩ := dist_cases size p q <;> omega

end memory
