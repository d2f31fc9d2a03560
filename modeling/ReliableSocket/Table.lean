import Mathlib.Algebra.GroupWithZero.Nat
import Mathlib.Data.List.Basic

/-! # Hash tables

A table is the list of its elements, where a lookup finds the first one with the key. Adding does not look
for the key, so an older element with the same key may stand behind the new one. -/

namespace table

variable {α κ : Type} [DecidableEq κ] (key : α → κ)

/-- The element that a lookup finds. -/
def find (t : List α) (k : κ) : Option α := t.find? fun x => key x = k

/-- The table without the element that a lookup finds. -/
def remove (t : List α) (k : κ) : List α := t.eraseP fun x => key x = k

/-- The table with an element in the place of the one with its key. -/
def replace (t : List α) (x : α) : List α := x :: remove key t (key x)

/-- The table with an element written over the one with its key, if there is one. -/
def overwrite : List α → α → List α
  | [], _ => []
  | y :: t, x => if key y = key x then x :: t else y :: overwrite t x

variable {key} {t : List α} {k k' : κ} {x y : α}

theorem key_of_find (hfind : find key t k = some x) : key x = k := by
  simpa using List.find?_some hfind

theorem mem_of_find (hfind : find key t k = some x) : x ∈ t := List.mem_of_find?_eq_some hfind

theorem find_cons_self (x : α) (t : List α) : find key (x :: t) (key x) = some x := by
  simp [find]

theorem find_cons_of_ne (hne : key x ≠ k) : find key (x :: t) k = find key t k := by
  simp [find, hne]

/-- The elements with a key, in their order. -/
def having (key : α → κ) (t : List α) (k : κ) : List α := t.filter fun x => key x = k

theorem find_eq_head (t : List α) (k : κ) : find key t k = (having key t k).head? :=
  (List.head?_filter).symm

theorem having_cons (x : α) (t : List α) (k : κ) :
    having key (x :: t) k = if key x = k then x :: having key t k else having key t k := by
  simp [having, List.filter_cons]

theorem having_remove_self (t : List α) (k : κ) :
    having key (remove key t k) k = (having key t k).tail := by
  induction t with
  | nil => rfl
  | cons x t ih =>
    by_cases hx : key x = k
    · rw [remove, List.eraseP_cons_of_pos (by simpa using hx), having_cons, if_pos hx, List.tail_cons]
    · rw [remove, List.eraseP_cons_of_neg (by simpa using hx), having_cons, having_cons, if_neg hx,
        if_neg hx]
      exact ih

theorem having_remove_of_ne (hne : k' ≠ k) : having key (remove key t k') k = having key t k := by
  induction t with
  | nil => rfl
  | cons x t ih =>
    by_cases hx : key x = k'
    · rw [remove, List.eraseP_cons_of_pos (by simpa using hx), having_cons, if_neg (hx.trans_ne hne)]
    · rw [remove, List.eraseP_cons_of_neg (by simpa using hx), having_cons, having_cons]
      unfold remove at ih
      rw [ih]

theorem find_remove_of_ne (hne : k' ≠ k) : find key (remove key t k') k = find key t k := by
  rw [find_eq_head, having_remove_of_ne hne, find_eq_head]

theorem find_replace_self (t : List α) (x : α) : find key (replace key t x) (key x) = some x :=
  find_cons_self x _

theorem find_replace_of_ne (hne : key x ≠ k) : find key (replace key t x) k = find key t k := by
  rw [replace, find_cons_of_ne hne, find_remove_of_ne hne]

theorem erase_eq_remove [DecidableEq α] (hfind : find key t k = some x) : t.erase x = remove key t k := by
  induction t with
  | nil => exact absurd hfind (by simp [find])
  | cons y t ih =>
    by_cases hy : key y = k
    · subst hy
      obtain rfl : y = x := by simpa [find_cons_self] using hfind
      rw [List.erase_cons_head, remove, List.eraseP_cons_of_pos (by simp)]
    · rw [find_cons_of_ne hy] at hfind
      have hne : y ≠ x := fun heq => hy (heq ▸ key_of_find hfind)
      rw [List.erase_cons_tail (by simpa using hne), remove, List.eraseP_cons_of_neg (by simpa using hy),
        ih hfind]
      rfl

/-- If the keys are distinct, no element with the removed key is left. -/
theorem ne_of_mem_remove (hdistinct : (t.map key).Nodup) (hx : x ∈ remove key t k) : key x ≠ k := by
  induction t with
  | nil => exact absurd hx (by simp [remove])
  | cons y t ih =>
    rw [List.map_cons, List.nodup_cons] at hdistinct
    by_cases hy : key y = k
    · rw [remove, List.eraseP_cons_of_pos (by simpa using hy)] at hx
      rintro rfl
      exact hdistinct.1 (hy ▸ List.mem_map_of_mem hx)
    · rw [remove, List.eraseP_cons_of_neg (by simpa using hy), List.mem_cons] at hx
      obtain rfl | hx := hx
      · exact hy
      · exact ih hdistinct.2 hx

theorem find_eq_none_iff : find key t k = none ↔ ∀ x ∈ t, key x ≠ k := by
  simp [find]

theorem find_remove_self (hdistinct : (t.map key).Nodup) (k : κ) : find key (remove key t k) k = none :=
  find_eq_none_iff.mpr fun _ => ne_of_mem_remove hdistinct

theorem find_overwrite_self (t : List α) (x : α) :
    find key (overwrite key t x) (key x) = (find key t (key x)).map fun _ => x := by
  induction t with
  | nil => rfl
  | cons y t ih =>
    by_cases hy : key y = key x
    · rw [overwrite, if_pos hy, find_cons_self, ← hy, find_cons_self]
      rfl
    · rw [overwrite, if_neg hy, find_cons_of_ne hy, find_cons_of_ne hy, ih]

theorem find_overwrite_of_ne (hne : key x ≠ k) : find key (overwrite key t x) k = find key t k := by
  induction t with
  | nil => rfl
  | cons y t ih =>
    by_cases hy : key y = key x
    · rw [overwrite, if_pos hy, find_cons_of_ne hne, find_cons_of_ne (hy.trans_ne hne)]
    · rw [overwrite, if_neg hy, find, List.find?_cons, find, List.find?_cons]
      rw [find] at ih
      rw [ih]
      rfl

/-- The keys stay where they are. -/
theorem map_key_overwrite (t : List α) (x : α) : (overwrite key t x).map key = t.map key := by
  induction t with
  | nil => rfl
  | cons y t ih =>
    by_cases hy : key y = key x
    · rw [overwrite, if_pos hy, List.map_cons, List.map_cons, hy]
    · rw [overwrite, if_neg hy, List.map_cons, List.map_cons, ih]

theorem mem_overwrite (hy : y ∈ overwrite key t x) : y = x ∨ y ∈ t := by
  induction t with
  | nil => exact absurd hy List.not_mem_nil
  | cons z t ih =>
    rw [overwrite] at hy
    split_ifs at hy
    · exact (List.mem_cons.mp hy).imp_right (List.mem_cons_of_mem z)
    · obtain rfl | hy := List.mem_cons.mp hy
      · exact .inr List.mem_cons_self
      · exact (ih hy).imp_right (List.mem_cons_of_mem z)

section weight

variable (w : α → Nat)

theorem weight_remove (hfind : find key t k = some x) :
    ((remove key t k).map w).sum + w x = (t.map w).sum := by
  induction t with
  | nil => exact absurd hfind (by simp [find])
  | cons y t ih =>
    by_cases hy : key y = k
    · subst hy
      obtain rfl : y = x := by simpa [find_cons_self] using hfind
      rw [remove, List.eraseP_cons_of_pos (by simp), List.map_cons, List.sum_cons]
      omega
    · rw [find_cons_of_ne hy] at hfind
      have hrest := ih hfind
      rw [remove] at hrest ⊢
      rw [List.eraseP_cons_of_neg (by simpa using hy), List.map_cons, List.map_cons, List.sum_cons,
        List.sum_cons]
      omega

theorem weight_overwrite (hfind : find key t (key x) = some y) :
    ((overwrite key t x).map w).sum + w y = (t.map w).sum + w x := by
  induction t with
  | nil => exact absurd hfind (by simp [find])
  | cons z t ih =>
    by_cases hz : key z = key x
    · rw [← hz, find_cons_self] at hfind
      cases hfind
      rw [overwrite, if_pos hz, List.map_cons, List.map_cons, List.sum_cons, List.sum_cons]
      omega
    · rw [find_cons_of_ne hz] at hfind
      have hrest := ih hfind
      rw [overwrite, if_neg hz, List.map_cons, List.map_cons, List.sum_cons, List.sum_cons]
      omega

end weight

section same

variable {α' β : Type} {t' : List α'} {val : α → β} {key' : α' → κ} {val' : α' → β}

/-- Two tables with the same values for each key have the same values. -/
theorem perm_of_having (hsame : ∀ k, (having key t k).map val = (having key' t' k).map val') :
    (t.map val).Perm (t'.map val') := by
  classical
  have hcount : ∀ {γ : Type} (f : γ → κ) (g : γ → β) (l : List γ) (k : κ) (v : β),
      (l.map fun x => (f x, g x)).count (k, v) = ((having f l k).map g).count v := by
    intro γ f g l k v
    rw [List.count, List.countP_map, List.count, List.countP_map, having, List.countP_filter]
    refine List.countP_congr fun x _ => ?_
    simp [and_comm]
  have hpairs : (t.map fun x => (key x, val x)).Perm (t'.map fun x => (key' x, val' x)) := by
    rw [List.perm_iff_count]
    rintro ⟨k, v⟩
    rw [hcount, hcount, hsame k]
  simpa [Function.comp_def] using hpairs.map Prod.snd

end same
end table
