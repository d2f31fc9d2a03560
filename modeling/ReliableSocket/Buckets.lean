import Mathlib.Data.List.Nodup
import ReliableSocket.Table

/-! # Hash tables with chains

One chain for each hash value. An element is in the chain of its hash value, and an operation changes the
chain of one key. -/

open table

namespace buckets

variable {α κ : Type} (key : α → κ) (hash : κ → Nat)

/-- Each element is in the chain of its key, and no chain has two elements with one key. -/
structure Placed (chains : Nat → List α) : Prop where
  hash : ∀ i, ∀ x ∈ chains i, hash (key x) = i
  distinct : ∀ i, ((chains i).map key).Nodup

/-- The elements of the first `n` chains. -/
def elements (n : Nat) (chains : Nat → List α) : List α := (List.range n).flatMap chains

variable {key hash} {chains : Nat → List α} {t : List α} {x : α} {i n : Nat}

theorem placed_empty : Placed key hash fun _ => [] :=
  ⟨fun _ _ hx => absurd hx List.not_mem_nil, fun _ => List.nodup_nil⟩

theorem Placed.update (h : Placed key hash chains) (hhash : ∀ x ∈ t, hash (key x) = i)
    (hdistinct : (t.map key).Nodup) : Placed key hash (Function.update chains i t) := by
  refine ⟨fun j x hx => ?_, fun j => ?_⟩
  · by_cases hj : j = i
    · subst hj
      rw [Function.update_self] at hx
      exact hhash x hx
    · rw [Function.update_of_ne hj] at hx
      exact h.hash j x hx
  · by_cases hj : j = i
    · subst hj
      rw [Function.update_self]
      exact hdistinct
    · rw [Function.update_of_ne hj]
      exact h.distinct j

/-- No key occurs twice. -/
theorem Placed.nodup (h : Placed key hash chains) (n : Nat) : ((elements n chains).map key).Nodup := by
  rw [elements, List.map_flatMap, List.nodup_flatMap]
  refine ⟨fun i _ => h.distinct i, List.nodup_range.imp fun {i j} hne => ?_⟩
  intro k hi hj
  obtain ⟨x, hx, rfl⟩ := List.mem_map.mp hi
  obtain ⟨y, hy, hkey⟩ := List.mem_map.mp hj
  refine hne ?_
  rw [← h.hash i x hx, ← h.hash j y hy, hkey]

section operations

/-- A new element at the front of its chain. -/
def insert (key : α → κ) (hash : κ → Nat) (chains : Nat → List α) (x : α) : Nat → List α :=
  Function.update chains (hash (key x)) (x :: chains (hash (key x)))

variable [DecidableEq κ] {k k' : κ}

/-- The element with a key. -/
def lookup (key : α → κ) (hash : κ → Nat) (chains : Nat → List α) (k : κ) : Option α :=
  find key (chains (hash k)) k

/-- An element in the place of the one with its key. -/
def overwrite (key : α → κ) (hash : κ → Nat) (chains : Nat → List α) (x : α) : Nat → List α :=
  Function.update chains (hash (key x)) (table.overwrite key (chains (hash (key x))) x)

def remove (key : α → κ) (hash : κ → Nat) (chains : Nat → List α) (k : κ) : Nat → List α :=
  Function.update chains (hash k) (table.remove key (chains (hash k)) k)

theorem Placed.insert (h : Placed key hash chains) (hnew : lookup key hash chains (key x) = none) :
    Placed key hash (insert key hash chains x) := by
  refine h.update (fun y hy => ?_) ?_
  · obtain rfl | hy := List.mem_cons.mp hy
    · rfl
    · exact h.hash _ y hy
  · rw [List.map_cons, List.nodup_cons]
    refine ⟨fun hmem => ?_, h.distinct _⟩
    obtain ⟨y, hy, hkey⟩ := List.mem_map.mp hmem
    exact find_eq_none_iff.mp hnew y hy hkey

theorem Placed.overwrite (h : Placed key hash chains) (x : α) : Placed key hash (overwrite key hash chains x) := by
  refine h.update (fun y hy => ?_) ?_
  · obtain rfl | hy := mem_overwrite hy
    · rfl
    · exact h.hash _ y hy
  · rw [map_key_overwrite]
    exact h.distinct _

theorem Placed.remove (h : Placed key hash chains) (k : κ) : Placed key hash (remove key hash chains k) :=
  h.update (fun y hy => h.hash _ y (List.mem_of_mem_eraseP hy))
    ((List.eraseP_sublist.map key).nodup (h.distinct _))

/-- Only the chain of one key changes. -/
theorem lookup_update_of_ne (hne : hash k' ≠ hash k) :
    lookup key hash (Function.update chains (hash k) t) k' = lookup key hash chains k' := by
  rw [lookup, Function.update_of_ne hne, lookup]

theorem lookup_insert (x : α) (k : κ) :
    lookup key hash (insert key hash chains x) k = if k = key x then some x else lookup key hash chains k := by
  by_cases hhash : hash k = hash (key x)
  · rw [lookup, insert, hhash, Function.update_self, lookup, hhash]
    split_ifs with hk
    · rw [hk, find_cons_self]
    · rw [find_cons_of_ne (Ne.symm hk)]
  · rw [insert, lookup_update_of_ne hhash, if_neg fun hk => hhash (congrArg hash hk)]

theorem lookup_overwrite (x : α) (k : κ) :
    lookup key hash (overwrite key hash chains x) k =
      if k = key x then (lookup key hash chains k).map fun _ => x else lookup key hash chains k := by
  by_cases hhash : hash k = hash (key x)
  · rw [lookup, overwrite, hhash, Function.update_self, lookup, hhash]
    split_ifs with hk
    · rw [hk, find_overwrite_self]
    · rw [find_overwrite_of_ne (Ne.symm hk)]
  · rw [overwrite, lookup_update_of_ne hhash, if_neg fun hk => hhash (congrArg hash hk)]

theorem lookup_remove (h : Placed key hash chains) (k k' : κ) :
    lookup key hash (remove key hash chains k) k' = if k' = k then none else lookup key hash chains k' := by
  by_cases hhash : hash k' = hash k
  · rw [lookup, remove, hhash, Function.update_self, lookup, hhash]
    split_ifs with hk
    · rw [hk, find_remove_self (h.distinct _)]
    · rw [find_remove_of_ne (Ne.symm hk)]
  · rw [remove, lookup_update_of_ne hhash, if_neg fun hk => hhash (congrArg hash hk)]

end operations

theorem elements_empty (n : Nat) : elements n (fun _ => ([] : List α)) = [] := by
  simp [elements]

theorem elements_succ (n : Nat) (chains : Nat → List α) :
    elements (n + 1) chains = elements n chains ++ chains n := by
  simp [elements, List.range_succ]

theorem elements_update_of_le (hle : n ≤ i) : elements n (Function.update chains i t) = elements n chains := by
  refine List.flatMap_congr fun j hj => ?_
  rw [List.mem_range] at hj
  rw [Function.update_of_ne (by omega)]

/-- A chain that changes its weight changes that of all elements by as much. -/
theorem weight_update (w : α → Nat) (chains : Nat → List α) (t : List α) (hi : i < n) :
    ((elements n (Function.update chains i t)).map w).sum + ((chains i).map w).sum =
      ((elements n chains).map w).sum + (t.map w).sum := by
  induction n with
  | zero => omega
  | succ n ih =>
    rw [elements_succ, elements_succ, List.map_append, List.map_append, List.sum_append, List.sum_append]
    by_cases hn : i = n
    · subst hn
      rw [elements_update_of_le (Nat.le_refl i), Function.update_self]
      omega
    · have hrest := ih (by omega)
      rw [Function.update_of_ne (Ne.symm hn)]
      omega

section weight

variable (w : α → Nat)

theorem weight_insert (chains : Nat → List α) (hlt : hash (key x) < n) :
    ((elements n (insert key hash chains x)).map w).sum = ((elements n chains).map w).sum + w x := by
  have hchain := weight_update w chains (x :: chains (hash (key x))) hlt
  rw [List.map_cons, List.sum_cons] at hchain
  rw [insert]
  omega

variable [DecidableEq κ] {k : κ} {y : α}

theorem weight_overwrite (hlookup : lookup key hash chains (key x) = some y) (hlt : hash (key x) < n) :
    ((elements n (overwrite key hash chains x)).map w).sum + w y = ((elements n chains).map w).sum + w x := by
  have hchain := weight_update w chains (table.overwrite key (chains (hash (key x))) x) hlt
  have hentry := table.weight_overwrite w hlookup
  rw [overwrite]
  omega

theorem weight_remove (hlookup : lookup key hash chains k = some x) (hlt : hash k < n) :
    ((elements n (remove key hash chains k)).map w).sum + w x = ((elements n chains).map w).sum := by
  have hchain := weight_update w chains (table.remove key (chains (hash k)) k) hlt
  have hentry := table.weight_remove w hlookup
  rw [remove]
  omega

end weight

end buckets
