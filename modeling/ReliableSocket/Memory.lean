import Mathlib.Algebra.Group.Nat.Defs
import Mathlib.Data.List.Basic

namespace memory

/-- Byte-addressable memory. -/
abbrev Mem := Nat → UInt8

/-- The `n` bytes that start at address `a`. -/
def load (m : Mem) : Nat → Nat → List UInt8
  | _, 0 => []
  | a, n + 1 => m a :: load m (a + 1) n

/-- Write the bytes `bs` from address `a` on. -/
def store (m : Mem) (a : Nat) (bs : List UInt8) : Mem :=
  fun b => if a ≤ b ∧ b < a + bs.length then bs.getD (b - a) 0 else m b

/-- Copy `n` bytes from `src` to the same addresses of `dst`. -/
def copy (src dst : Mem) (a n : Nat) : Mem :=
  fun b => if a ≤ b ∧ b < a + n then src b else dst b

/-- The `w` low bytes of `v`, least significant byte first. -/
def leBytes : Nat → Nat → List UInt8
  | 0, _ => []
  | w + 1, v => UInt8.ofNat v :: leBytes w (v / 256)

/-- The number that a little-endian byte string stands for. -/
def leValue : List UInt8 → Nat
  | [] => 0
  | b :: bs => b.toNat + 256 * leValue bs

@[simp] theorem load_length (m : Mem) (a n : Nat) : (load m a n).length = n := by
  induction n generalizing a with
  | zero => rfl
  | succ n ih => simp [load, ih]

@[simp] theorem leBytes_length (w v : Nat) : (leBytes w v).length = w := by
  induction w generalizing v with
  | zero => rfl
  | succ w ih => simp [leBytes, ih]

theorem load_congr {m m' : Mem} {a n : Nat}
    (hagree : ∀ b, a ≤ b → b < a + n → m b = m' b) :
    load m a n = load m' a n := by
  induction n generalizing a with
  | zero => rfl
  | succ n ih =>
    simp only [load]
    rw [hagree a (by omega) (by omega), ih fun b hlow hhigh => hagree b (by omega) (by omega)]

theorem load_append (m : Mem) (a n k : Nat) :
    load m a (n + k) = load m a n ++ load m (a + n) k := by
  induction n generalizing a with
  | zero => simp [load]
  | succ n ih =>
    have hsum : n + 1 + k = (n + k) + 1 := by omega
    have haddr : a + 1 + n = a + (n + 1) := by omega
    rw [hsum]
    simp only [load, List.cons_append]
    rw [ih, haddr]

/-- A store changes nothing outside the bytes it writes. -/
theorem store_outside {m : Mem} {a b : Nat} {bs : List UInt8}
    (hout : b < a ∨ a + bs.length ≤ b) :
    store m a bs b = m b := by
  unfold store
  rw [if_neg (by omega)]

theorem load_store_outside {m : Mem} {a b n : Nat} {bs : List UInt8}
    (hout : b + n ≤ a ∨ a + bs.length ≤ b) :
    load (store m a bs) b n = load m b n := by
  apply load_congr
  intro c hlow hhigh
  exact store_outside (by omega)

@[simp] theorem store_nil (m : Mem) (a : Nat) : store m a [] = m := by
  funext b
  exact store_outside (by simp; omega)

theorem store_cons_at (m : Mem) (a : Nat) (v : UInt8) (bs : List UInt8) :
    store m a (v :: bs) a = v := by
  simp [store]

theorem load_store_same (m : Mem) (a : Nat) (bs : List UInt8) :
    load (store m a bs) a bs.length = bs := by
  induction bs generalizing m a with
  | nil => rfl
  | cons v bs ih =>
    simp only [List.length_cons, load]
    have hrest : load (store m a (v :: bs)) (a + 1) bs.length =
        load (store m (a + 1) bs) (a + 1) bs.length := by
      apply load_congr
      intro b hlow hhigh
      obtain ⟨k, rfl⟩ : ∃ k, b = a + 1 + k := ⟨b - (a + 1), by omega⟩
      have hshift : a + 1 + k - a = k + 1 := by omega
      simp only [store, List.length_cons]
      rw [if_pos (by omega), if_pos (by omega), hshift, List.getD_cons_succ]
      congr 1
      omega
    rw [store_cons_at, hrest, ih]

/-- Reading back a whole stored block. -/
theorem load_store {m : Mem} {a n : Nat} {bs : List UInt8} (hlen : bs.length = n) :
    load (store m a bs) a n = bs := by
  subst hlen
  exact load_store_same m a bs

theorem copy_inside {src dst : Mem} {a n b : Nat} (hlow : a ≤ b) (hhigh : b < a + n) :
    copy src dst a n b = src b := by
  simp [copy, hlow, hhigh]

theorem copy_outside {src dst : Mem} {a n b : Nat} (hout : b < a ∨ a + n ≤ b) :
    copy src dst a n b = dst b := by
  unfold copy
  rw [if_neg (by omega)]

theorem leValue_leBytes (w v : Nat) : leValue (leBytes w v) = v % 256 ^ w := by
  induction w generalizing v with
  | zero => simp [leBytes, leValue, Nat.mod_one]
  | succ w ih =>
    have hpow : 256 ^ (w + 1) = 256 * 256 ^ w := by rw [Nat.pow_succ, Nat.mul_comm]
    simp only [leBytes, leValue, ih]
    rw [UInt8.toNat_ofNat', hpow, Nat.mod_mul]

/-- The 16-bit word at address `a`. -/
def loadU16 (m : Mem) (a : Nat) : UInt16 := UInt16.ofNat (leValue (load m a 2))

/-- The 32-bit word at address `a`. -/
def loadU32 (m : Mem) (a : Nat) : UInt32 := UInt32.ofNat (leValue (load m a 4))

/-- The 64-bit word at address `a`. -/
def loadU64 (m : Mem) (a : Nat) : UInt64 := UInt64.ofNat (leValue (load m a 8))

theorem loadU16_of_load {m : Mem} {a : Nat} {x : UInt16}
    (hload : load m a 2 = leBytes 2 x.toNat) : loadU16 m a = x := by
  have hlt : x.toNat < 2 ^ 16 := x.toNat_lt
  rw [loadU16, hload, leValue_leBytes, Nat.mod_eq_of_lt (by omega), UInt16.ofNat_toNat]

theorem loadU32_of_load {m : Mem} {a : Nat} {x : UInt32}
    (hload : load m a 4 = leBytes 4 x.toNat) : loadU32 m a = x := by
  have hlt : x.toNat < 2 ^ 32 := x.toNat_lt
  rw [loadU32, hload, leValue_leBytes, Nat.mod_eq_of_lt (by omega), UInt32.ofNat_toNat]

theorem loadU64_of_load {m : Mem} {a : Nat} {x : UInt64}
    (hload : load m a 8 = leBytes 8 x.toNat) : loadU64 m a = x := by
  have hlt : x.toNat < 2 ^ 64 := x.toNat_lt
  rw [loadU64, hload, leValue_leBytes, Nat.mod_eq_of_lt (by omega), UInt64.ofNat_toNat]

/-- Byte strings of one length that stand for the same number are equal. -/
theorem leValue_inj {bs cs : List UInt8} (hlength : bs.length = cs.length)
    (hvalue : leValue bs = leValue cs) : bs = cs := by
  induction bs generalizing cs with
  | nil => exact (List.length_eq_zero_iff.mp hlength.symm).symm
  | cons b bs ih =>
    cases cs with
    | nil => simp at hlength
    | cons c cs =>
      have hb := b.toNat_lt
      have hc := c.toNat_lt
      simp only [leValue] at hvalue
      have hhead : b = c := UInt8.toNat_inj.mp (by omega)
      have htail : bs = cs := ih (by simpa using hlength) (by omega)
      rw [hhead, htail]

theorem leValue_lt (bs : List UInt8) : leValue bs < 256 ^ bs.length := by
  induction bs with
  | nil => simp [leValue]
  | cons b bs ih =>
    have hb := b.toNat_lt
    simp only [leValue, List.length_cons, Nat.pow_succ]
    omega

theorem leBytes_leValue (bs : List UInt8) : leBytes bs.length (leValue bs) = bs := by
  apply leValue_inj (leBytes_length _ _)
  rw [leValue_leBytes, Nat.mod_eq_of_lt (leValue_lt bs)]

/-- Equal blocks have equal bytes. -/
theorem eq_of_load_eq {m m' : Mem} {a n : Nat} (hload : load m a n = load m' a n) {b : Nat}
    (hlow : a ≤ b) (hhigh : b < a + n) : m b = m' b := by
  induction n generalizing a with
  | zero => omega
  | succ n ih =>
    simp only [load, List.cons.injEq] at hload
    obtain rfl | hlt := Nat.eq_or_lt_of_le hlow
    · exact hload.1
    · exact ih hload.2 hlt (by omega)

/-- Words are equal only if their bytes are. -/
theorem load_of_loadU16_eq {m m' : Mem} {a b : Nat} (heq : loadU16 m a = loadU16 m' b) :
    load m a 2 = load m' b 2 := by
  have hlt := leValue_lt (load m a 2)
  have hlt' := leValue_lt (load m' b 2)
  rw [load_length] at hlt hlt'
  have hvalue := congrArg UInt16.toNat heq
  simp only [loadU16, UInt16.toNat_ofNat'] at hvalue
  exact leValue_inj (by simp) (by omega)

theorem load_of_loadU32_eq {m m' : Mem} {a b : Nat} (heq : loadU32 m a = loadU32 m' b) :
    load m a 4 = load m' b 4 := by
  have hlt := leValue_lt (load m a 4)
  have hlt' := leValue_lt (load m' b 4)
  rw [load_length] at hlt hlt'
  have hvalue := congrArg UInt32.toNat heq
  simp only [loadU32, UInt32.toNat_ofNat'] at hvalue
  exact leValue_inj (by simp) (by omega)

theorem load_of_loadU64_eq {m m' : Mem} {a b : Nat} (heq : loadU64 m a = loadU64 m' b) :
    load m a 8 = load m' b 8 := by
  have hlt := leValue_lt (load m a 8)
  have hlt' := leValue_lt (load m' b 8)
  rw [load_length] at hlt hlt'
  have hvalue := congrArg UInt64.toNat heq
  simp only [loadU64, UInt64.toNat_ofNat'] at hvalue
  exact leValue_inj (by simp) (by omega)

/-- Every byte of `m` is the one of `m₁` or the one of `m₂`, as after an interrupted copy. -/
def Mixed (m₁ m₂ m : Mem) : Prop := ∀ b, m b = m₁ b ∨ m b = m₂ b

theorem mixed_copy (src dst : Mem) (a n : Nat) : Mixed src dst (copy src dst a n) := by
  intro b
  unfold copy
  split
  · exact .inl rfl
  · exact .inr rfl

section mixed

variable {m₁ m₂ m : Mem} {a : Nat}

theorem Mixed.byte (hmix : Mixed m₁ m₂ m) (heq : m₁ a = m₂ a) : m a = m₁ a := by
  obtain hfirst | hsecond := hmix a
  · exact hfirst
  · rw [hsecond, heq]

theorem Mixed.load {n : Nat} (hmix : Mixed m₁ m₂ m) (heq : load m₁ a n = load m₂ a n) :
    load m a n = load m₁ a n := by
  induction n generalizing a with
  | zero => rfl
  | succ n ih =>
    simp only [memory.load, List.cons.injEq] at heq ⊢
    exact ⟨hmix.byte heq.1, ih heq.2⟩

theorem Mixed.loadU16 (hmix : Mixed m₁ m₂ m) (heq : loadU16 m₁ a = loadU16 m₂ a) :
    loadU16 m a = loadU16 m₁ a := by
  simp only [memory.loadU16, hmix.load (load_of_loadU16_eq heq)]

theorem Mixed.loadU32 (hmix : Mixed m₁ m₂ m) (heq : loadU32 m₁ a = loadU32 m₂ a) :
    loadU32 m a = loadU32 m₁ a := by
  simp only [memory.loadU32, hmix.load (load_of_loadU32_eq heq)]

theorem Mixed.loadU64 (hmix : Mixed m₁ m₂ m) (heq : loadU64 m₁ a = loadU64 m₂ a) :
    loadU64 m a = loadU64 m₁ a := by
  simp only [memory.loadU64, hmix.load (load_of_loadU64_eq heq)]

end mixed

end memory
