import Mathlib.Data.List.Basic
import Mathlib.Order.Lattice

/-! # Ranks in sorted lists

How many elements of a sorted list lie below and above the element at an index, and which of two elements of a
list comes first. -/

namespace rank

variable {α : Type} [LinearOrder α] {l : List α} {m : Nat} {x : α}

theorem le_of_mem_drop (hsorted : l.Pairwise (· ≤ ·)) (hx : l[m]? = some x) :
    ∀ y ∈ l.drop m, x ≤ y := by
  intro y hy
  obtain ⟨hm, rfl⟩ := List.getElem?_eq_some_iff.mp hx
  rw [List.drop_eq_getElem_cons hm] at hy
  have hdrop := hsorted.sublist (List.drop_sublist m l)
  rw [List.drop_eq_getElem_cons hm, List.pairwise_cons] at hdrop
  obtain rfl | hy := List.mem_cons.mp hy
  · exact le_refl _
  · exact hdrop.1 y hy

/-- At most `m` elements are below the one at index `m`. -/
theorem count_lt_le (hsorted : l.Pairwise (· ≤ ·)) (hx : l[m]? = some x) :
    l.countP (fun y => y < x) ≤ m := by
  have hdrop : (l.drop m).countP (fun y => y < x) = 0 := by
    rw [List.countP_eq_zero]
    intro y hy
    simpa using le_of_mem_drop hsorted hx y hy
  calc l.countP (fun y => y < x)
      = (l.take m).countP (fun y => y < x) + (l.drop m).countP (fun y => y < x) := by
        rw [← List.countP_append, List.take_append_drop]
    _ ≤ (l.take m).length := by rw [hdrop]; exact List.countP_le_length
    _ ≤ m := by rw [List.length_take]; exact Nat.min_le_left _ _

/-- At least as many elements as stand from index `m` on are not below the one at `m`. -/
theorem sub_le_count_ge (hsorted : l.Pairwise (· ≤ ·)) (hx : l[m]? = some x) :
    l.length - m ≤ l.countP (fun y => x ≤ y) := by
  have hlow := count_lt_le hsorted hx
  have hsplit := List.length_eq_countP_add_countP (fun y => y < x) (l := l)
  have hnot : l.countP (fun y => x ≤ y) = l.countP (fun y => ¬ (y < x)) := by simp only [not_lt]
  simp only [decide_not, decide_eq_true_eq] at hsplit hnot
  omega

/-- More than `m` elements are not above the one at index `m`. -/
theorem lt_count_le (hsorted : l.Pairwise (· ≤ ·)) (hx : l[m]? = some x) :
    m < l.countP (fun y => y ≤ x) := by
  obtain ⟨hm, rfl⟩ := List.getElem?_eq_some_iff.mp hx
  have hlength : (l.take (m + 1)).length = m + 1 := by
    rw [List.length_take, Nat.min_eq_left hm]
  have htake := hsorted.sublist (List.take_sublist (m + 1) l)
  rw [← List.take_append_getElem hm, List.pairwise_append] at htake
  have hall : (l.take (m + 1)).countP (fun y => y ≤ l[m]) = (l.take (m + 1)).length := by
    rw [List.countP_eq_length, ← List.take_append_getElem hm]
    intro y hy
    obtain hy | hy := List.mem_append.mp hy
    · exact decide_eq_true (htake.2.2 y hy l[m] (List.mem_singleton_self _))
    · exact decide_eq_true (le_of_eq (List.mem_singleton.mp hy))
  have hsub := (List.take_sublist (m + 1) l).countP_le (p := fun y => decide (y ≤ l[m]))
  omega

/-- At most `m` elements are below `y` exactly if `y` is not above the element at index `m`. -/
theorem count_lt_le_iff (hsorted : l.Pairwise (· ≤ ·)) (hx : l[m]? = some x) (y : α) :
    l.countP (fun z => z < y) ≤ m ↔ y ≤ x := by
  constructor
  · intro hfew
    by_contra hlt
    have hmany := lt_count_le hsorted hx
    have hmono : l.countP (fun z => z ≤ x) ≤ l.countP (fun z => z < y) :=
      List.countP_mono_left fun z _ hz => decide_eq_true (lt_of_le_of_lt (of_decide_eq_true hz) (not_le.mp hlt))
    omega
  · intro hle
    have hmono : l.countP (fun z => z < y) ≤ l.countP (fun z => z < x) :=
      List.countP_mono_left fun z _ hz => decide_eq_true (lt_of_lt_of_le (of_decide_eq_true hz) hle)
    exact Nat.le_trans hmono (count_lt_le hsorted hx)

/-- The elements are in the order of their indexes. -/
theorem le_of_index_le {k : Nat} {y : α} (hsorted : l.Pairwise (· ≤ ·)) (hy : l[k]? = some y) (hx : l[m]? = some x)
    (hle : k ≤ m) : y ≤ x := by
  refine le_of_mem_drop hsorted hy x (List.mem_of_getElem? (i := m - k) ?_)
  rw [List.getElem?_drop, Nat.add_sub_cancel' hle, hx]

section first

variable {β : Type} [DecidableEq β] {f : β → α} {xs : List β} {a b : β}

/-- Where a measure falls along a list, except at repetitions, what comes first has the larger measure. -/
theorem idxOf_lt_idxOf_iff (hfalls : xs.Pairwise fun a b => a = b ∨ f b < f a) (ha : a ∈ xs) (hb : b ∈ xs) :
    xs.idxOf a < xs.idxOf b ↔ f b < f a := by
  have hfirst : ∀ {a b : β}, a ∈ xs → b ∈ xs → xs.idxOf a < xs.idxOf b → f b < f a := by
    intro a b ha hb hlt
    have hpair := List.pairwise_iff_getElem.mp hfalls _ _ (List.idxOf_lt_length_iff.mpr ha)
      (List.idxOf_lt_length_iff.mpr hb) hlt
    rw [List.getElem_idxOf, List.getElem_idxOf] at hpair
    obtain rfl | hless := hpair
    · exact absurd hlt (Nat.lt_irrefl _)
    · exact hless
  refine ⟨hfirst ha hb, fun hless => ?_⟩
  obtain hlt | heq | hgt := Nat.lt_trichotomy (xs.idxOf a) (xs.idxOf b)
  · exact hlt
  · rw [(List.idxOf_inj ha).mp heq] at hless
    exact absurd hless (lt_irrefl _)
  · exact absurd hless (lt_asymm (hfirst hb ha hgt))

end first

end rank
