import Mathlib.Data.List.Basic
import Mathlib.Logic.Function.Basic
import ReliableSocket.Run

/-! # Threads that run straight-line code under locks

A call is a list of instructions that take and give back locks and run parts of a body on shared data.
Any number of threads make calls; an instruction is one step, and a thread whose lock is taken stays
where it is. If each call gives back each lock once, after it has taken it, then who holds a lock can be
read off the code that a thread has left. -/

namespace locks

open run

/-- An instruction over locks `L` and parts of a body `β`. -/
inductive instr (L β : Type) where
  | lock (l : L)
  | body (b : β)
  | unlock (l : L)
deriving DecidableEq

/-- The holder of each lock, what each thread has left of its call, and the shared data. -/
structure State (τ L β σ : Type) where
  owner : L → Option τ
  rest : τ → List (instr L β)
  data : σ

/-- A thread without a call starts one, or a thread executes its next instruction. -/
inductive Action (τ γ : Type) where
  | start (t : τ) (c : γ)
  | next (t : τ)
deriving DecidableEq

section semantics

variable {τ L β σ γ : Type} [DecidableEq τ] [DecidableEq L] (code : γ → List (instr L β))
  (exec : σ → β → σ)

/-- The instruction takes a lock that some thread has. -/
def blocked (s : State τ L β σ) : instr L β → Bool
  | .lock l => (s.owner l).isSome
  | .body _ | .unlock _ => false

def owner_after (s : State τ L β σ) (t : τ) : instr L β → L → Option τ
  | .lock l => Function.update s.owner l (some t)
  | .body _ => s.owner
  | .unlock l => Function.update s.owner l none

def data_after (s : State τ L β σ) : instr L β → σ
  | .body b => exec s.data b
  | .lock _ | .unlock _ => s.data

def next (s : State τ L β σ) (t : τ) : State τ L β σ :=
  match s.rest t with
  | [] => s
  | x :: rest =>
    if blocked s x then s
    else ⟨owner_after s t x, Function.update s.rest t rest, data_after exec s x⟩

def step (s : State τ L β σ) : Action τ γ → State τ L β σ
  | .start t c => if s.rest t = [] then { s with rest := Function.update s.rest t (code c) } else s
  | .next t => next exec s t

end semantics

section held

variable {L β : Type}

/-- The code gives the lock back and does not take it before. -/
def Held (rest : List (instr L β)) (l : L) : Prop := .unlock l ∈ rest ∧ .lock l ∉ rest

/-- Each lock is taken before it is given back, once. -/
def WellFormed : List (instr L β) → Prop
  | [] => True
  | .lock l :: rest => Held rest l ∧ WellFormed rest
  | .body _ :: rest => WellFormed rest
  | .unlock l :: rest => .unlock l ∉ rest ∧ .lock l ∉ rest ∧ WellFormed rest

variable {rest : List (instr L β)} {l l' : L}

theorem held_lock (hne : l ≠ l') : Held (.lock l' :: rest) l ↔ Held rest l := by
  simp [Held, hne]

theorem held_body {b : β} : Held (.body b :: rest) l ↔ Held rest l := by
  simp [Held]

theorem held_unlock (hne : l ≠ l') : Held (.unlock l' :: rest) l ↔ Held rest l := by
  simp [Held, hne]

theorem held_unlock_self (hwf : WellFormed (.unlock l :: rest)) : Held (.unlock l :: rest) l :=
  ⟨by simp, by simpa using hwf.2.1⟩

theorem WellFormed.tail {x : instr L β} (hwf : WellFormed (x :: rest)) :
    WellFormed rest := by
  cases x with
  | lock l => exact hwf.2
  | body b => exact hwf
  | unlock l => exact hwf.2.2

end held

/-- A lock is owned by the thread that has it to give back. -/
structure Consistent {τ L β σ : Type} (s : State τ L β σ) : Prop where
  wellFormed : ∀ t, WellFormed (s.rest t)
  owner : ∀ l t, s.owner l = some t ↔ Held (s.rest t) l

section owners

variable {τ L β σ : Type} {s : State τ L β σ} {t : τ} [DecidableEq L]

/-- The owners after an instruction, for the thread that executes it. -/
theorem Consistent.owner_self {x : instr L β} {rest : List (instr L β)} (hs : Consistent s)
    (hrest : s.rest t = x :: rest) (l : L) : owner_after s t x l = some t ↔ Held rest l := by
  have hwf := hs.wellFormed t
  have hheld := hs.owner l t
  rw [hrest] at hwf hheld
  cases x with
  | lock l₁ =>
    by_cases hl : l = l₁
    · subst hl
      simpa [owner_after] using hwf.1
    · rw [owner_after, Function.update_of_ne hl, hheld, held_lock hl]
  | body b => exact hheld.trans held_body
  | unlock l₁ =>
    by_cases hl : l = l₁
    · subst hl
      have hgone : ¬Held rest l := fun h => hwf.1 h.1
      simpa [owner_after] using hgone
    · rw [owner_after, Function.update_of_ne hl, hheld, held_unlock hl]

/-- The owners after an instruction, for another thread. -/
theorem Consistent.owner_other {x : instr L β} {rest : List (instr L β)} {u : τ} (hs : Consistent s)
    (hrest : s.rest t = x :: rest) (hfree : blocked s x = false) (hu : u ≠ t) (l : L) :
    owner_after s t x l = some u ↔ s.owner l = some u := by
  cases x with
  | lock l₁ =>
    by_cases hl : l = l₁
    · subst hl
      have hnone : s.owner l = none := by simpa [blocked] using hfree
      simpa [owner_after, hnone] using fun heq => hu heq.symm
    · rw [owner_after, Function.update_of_ne hl]
  | body b => exact Iff.rfl
  | unlock l₁ =>
    by_cases hl : l = l₁
    · subst hl
      have hwf := hs.wellFormed t
      rw [hrest] at hwf
      have hself : s.owner l = some t := (hs.owner l t).mpr (hrest ▸ held_unlock_self hwf)
      rw [owner_after, Function.update_self, hself, Option.some.injEq]
      exact iff_of_false (by simp) fun heq => hu heq.symm
    · rw [owner_after, Function.update_of_ne hl]

end owners

section invariant

variable {τ L β σ γ : Type} {code : γ → List (instr L β)} {exec : σ → β → σ} {s : State τ L β σ} {t : τ}

variable [DecidableEq τ]

/-- One thread gets other code to execute; the locks of the others stay theirs. -/
theorem Consistent.advance {rest : List (instr L β)} {owner : L → Option τ} {data : σ} (hs : Consistent s)
    (hwf : WellFormed rest)
    (hself : ∀ l, owner l = some t ↔ Held rest l)
    (hother : ∀ l u, u ≠ t → (owner l = some u ↔ s.owner l = some u)) :
    Consistent ⟨owner, Function.update s.rest t rest, data⟩ where
  wellFormed u := by
    by_cases hu : u = t
    · subst hu
      simpa using hwf
    · simpa [hu] using hs.wellFormed u
  owner l u := by
    by_cases hu : u = t
    · subst hu
      simpa using hself l
    · simpa [hu] using (hother l u hu).trans (hs.owner l u)

variable [DecidableEq L]

/-- A thread stays where it is, or goes on by an instruction that is not blocked. -/
theorem next_cases (exec : σ → β → σ) (s : State τ L β σ) (t : τ) :
    locks.next exec s t = s ∨ ∃ x rest, s.rest t = x :: rest ∧ blocked s x = false ∧
      locks.next exec s t = ⟨owner_after s t x, Function.update s.rest t rest, data_after exec s x⟩ := by
  unfold locks.next
  split
  · exact .inl rfl
  · rename_i x rest hrest
    split
    · exact .inl rfl
    · rename_i hfree
      exact .inr ⟨x, rest, hrest, by simpa using hfree, rfl⟩

theorem Consistent.next (hs : Consistent s) (t : τ) : Consistent (locks.next exec s t) := by
  obtain hsame | ⟨x, rest, hrest, hfree, hnext⟩ := next_cases exec s t
  · rw [hsame]
    exact hs
  · rw [hnext]
    have hwf := hs.wellFormed t
    rw [hrest] at hwf
    exact hs.advance hwf.tail (hs.owner_self hrest) fun l u hu => hs.owner_other hrest hfree hu l

/-- Every step keeps the owners of the locks consistent, if the code of each call is well formed and
    gives back only locks that it has taken. -/
theorem Consistent.step (hcode : ∀ c, WellFormed (code c)) (hstart : ∀ c l, ¬Held (code c) l)
    (hs : Consistent s) (a : Action τ γ) : Consistent (locks.step code exec s a) := by
  cases a with
  | start t c =>
    rw [locks.step]
    by_cases hidle : s.rest t = []
    · rw [if_pos hidle]
      refine hs.advance (hcode c) (fun l => ?_) fun _ _ _ => Iff.rfl
      have hnone := hs.owner l t
      rw [hidle] at hnone
      have hnil : ¬Held ([] : List (instr L β)) l := by simp [Held]
      exact iff_of_false (fun howner => hnil (hnone.mp howner)) (hstart c l)
    · rw [if_neg hidle]
      exact hs
  | next t => exact hs.next t

end invariant
end locks
