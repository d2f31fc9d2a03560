import ReliableSocket.Memory

open memory

namespace dare

def MAX_SERVER_COUNT : Nat := 13

/-- Only `size_0` counts. -/
def CID_STABLE : UInt8 := 0

/-- Old and new size are given, and both majorities are needed. -/
def CID_TRANSIT : UInt8 := 1

/-- Old and new size are given, and only the old majority is needed. -/
def CID_EXTENDED : UInt8 := 2

/-- Configuration identifier. `size_0` and `size_1` are the two elements of the array `size`; the
    padding byte of the C structure is written as zero. -/
structure dare_cid_t where
  epoch : UInt64
  size_0 : UInt8
  size_1 : UInt8
  state : UInt8
  bitmask : UInt32
deriving DecidableEq, Repr

def CID_IS_SERVER_ON (cid : dare_cid_t) (idx : Nat) : Bool :=
  cid.bitmask.toNat.testBit idx

def CID_SERVER_ADD (cid : dare_cid_t) (idx : Nat) : dare_cid_t :=
  { cid with bitmask := cid.bitmask ||| 1 <<< UInt32.ofNat idx }

def CID_SERVER_RM (cid : dare_cid_t) (idx : Nat) : dare_cid_t :=
  { cid with bitmask := cid.bitmask &&& ~~~(1 <<< UInt32.ofNat idx) }

section bitmask

variable {cid : dare_cid_t} {idx : Nat}

theorem one_shift_toNat (hidx : idx < 32) : ((1 : UInt32) <<< UInt32.ofNat idx).toNat = 2 ^ idx := by
  have hpow : 2 ^ idx < 2 ^ 32 := Nat.pow_lt_pow_right (by decide) hidx
  rw [UInt32.toNat_shiftLeft, UInt32.toNat_ofNat', Nat.mod_eq_of_lt (show idx < 2 ^ 32 by omega),
    Nat.mod_eq_of_lt hidx, Nat.shiftLeft_eq]
  simp
  omega

/-- The mask has 32 bits. -/
theorem lt_of_is_on {i : Nat} (hon : CID_IS_SERVER_ON cid i = true) : i < 32 := by
  by_contra hi
  have hoff : cid.bitmask.toNat.testBit i = false := Nat.testBit_lt_two_pow
    (Nat.lt_of_lt_of_le cid.bitmask.toNat_lt (Nat.pow_le_pow_right (by decide) (Nat.le_of_not_lt hi)))
  rw [CID_IS_SERVER_ON, hoff] at hon
  cases hon

theorem is_on_add (hidx : idx < 32) (i : Nat) :
    CID_IS_SERVER_ON (CID_SERVER_ADD cid idx) i = (CID_IS_SERVER_ON cid i || decide (idx = i)) := by
  rw [CID_IS_SERVER_ON, CID_SERVER_ADD, UInt32.toNat_or, one_shift_toNat hidx, Nat.testBit_or,
    Nat.testBit_two_pow]
  rfl

theorem is_on_rm (hidx : idx < 32) (i : Nat) :
    CID_IS_SERVER_ON (CID_SERVER_RM cid idx) i = (CID_IS_SERVER_ON cid i && !decide (idx = i)) := by
  have hpow : 2 ^ idx < 2 ^ 32 := Nat.pow_lt_pow_right (by decide) hidx
  have hnot : (~~~((1 : UInt32) <<< UInt32.ofNat idx)).toNat = 2 ^ 32 - (2 ^ idx + 1) := by
    rw [UInt32.toNat_not, one_shift_toNat hidx]
    simp only [UInt32.size]
    omega
  have hsplit : CID_IS_SERVER_ON (CID_SERVER_RM cid idx) i =
      (CID_IS_SERVER_ON cid i && (decide (i < 32) && !decide (idx = i))) := by
    rw [CID_IS_SERVER_ON, CID_SERVER_RM, UInt32.toNat_and, Nat.testBit_and, hnot,
      Nat.testBit_two_pow_sub_succ hpow, Nat.testBit_two_pow]
    rfl
  cases hon : CID_IS_SERVER_ON cid i with
  | false => rw [hsplit, hon, Bool.false_and, Bool.false_and]
  | true => rw [hsplit, hon, decide_eq_true (lt_of_is_on hon), Bool.true_and]

end bitmask

/-- The maximum size, servers that are being added included. -/
def get_extended_group_size (cid : dare_cid_t) : Nat :=
  if cid.state = CID_STABLE then cid.size_0.toNat
  else if cid.size_0 < cid.size_1 then cid.size_1.toNat
  else cid.size_0.toNat

/-- The maximum size, servers that are being added ignored. -/
def get_group_size (cid : dare_cid_t) : Nat :=
  if cid.state ≠ CID_TRANSIT then cid.size_0.toNat
  else if cid.size_0 < cid.size_1 then cid.size_1.toNat
  else cid.size_0.toNat

namespace dare_cid_t

/-- The 16 bytes of a configuration identifier in memory. -/
def bytes (cid : dare_cid_t) : List UInt8 :=
  leBytes 8 cid.epoch.toNat ++ [cid.size_0, cid.size_1, cid.state, 0] ++
    leBytes 4 cid.bitmask.toNat

/-- The configuration identifier at address `a`. -/
def read (m : Mem) (a : Nat) : dare_cid_t where
  epoch := loadU64 m a
  size_0 := m (a + 8)
  size_1 := m (a + 9)
  state := m (a + 10)
  bitmask := loadU32 m (a + 12)

@[simp] theorem bytes_length (cid : dare_cid_t) : cid.bytes.length = 16 := by
  simp [bytes]

theorem read_of_load {m : Mem} {a : Nat} {cid : dare_cid_t} (hload : load m a 16 = cid.bytes) :
    read m a = cid := by
  have hsplit : load m a 16 = load m a 8 ++ (load m (a + 8) 4 ++ load m (a + 12) 4) := by
    rw [← load_append m (a + 8) 4 4, ← load_append m a 8 8]
  rw [hsplit, bytes, List.append_assoc] at hload
  obtain ⟨hepoch, hrest⟩ := List.append_inj hload (by simp)
  obtain ⟨hmid, hmask⟩ := List.append_inj hrest (by simp)
  simp only [load, List.cons.injEq] at hmid
  obtain ⟨h0, h1, h2, -, -⟩ := hmid
  cases cid
  simp only [read, mk.injEq]
  exact ⟨loadU64_of_load hepoch, h0, h1, h2, loadU32_of_load hmask⟩

theorem read_congr {m m' : Mem} {a : Nat} (hagree : ∀ b, a ≤ b → b < a + 16 → m b = m' b) :
    read m a = read m' a := by
  have hepoch : load m a 8 = load m' a 8 := load_congr fun b _ _ => hagree b (by omega) (by omega)
  have hmask : load m (a + 12) 4 = load m' (a + 12) 4 :=
    load_congr fun b _ _ => hagree b (by omega) (by omega)
  simp only [read, loadU64, loadU32, hepoch, hmask, hagree (a + 8) (by omega) (by omega),
    hagree (a + 9) (by omega) (by omega), hagree (a + 10) (by omega) (by omega)]

theorem read_mixed {m₁ m₂ m : Mem} {a : Nat} (hmix : Mixed m₁ m₂ m) (heq : read m₁ a = read m₂ a) :
    read m a = read m₁ a := by
  simp only [read, mk.injEq] at heq ⊢
  exact ⟨hmix.loadU64 heq.1, hmix.byte heq.2.1, hmix.byte heq.2.2.1, hmix.byte heq.2.2.2.1,
    hmix.loadU32 heq.2.2.2.2⟩

end dare_cid_t
end dare
