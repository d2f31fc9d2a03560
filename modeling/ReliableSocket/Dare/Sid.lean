import Mathlib.Data.Nat.Bitwise

namespace dare

/-- The state identifier is the word [TERM|L|IDX]: the index of the server that caused the last
    update in the eight low bits, the leader flag in the ninth, the term in the other 55. -/
def SID_GET_IDX (sid : UInt64) : Nat := (sid &&& 0xFF).toNat

def SID_SET_IDX (sid : UInt64) (idx : Nat) : UInt64 := UInt64.ofNat idx ||| ((sid >>> 8) <<< 8)

def SID_GET_L (sid : UInt64) : Bool := sid &&& 0x100 != 0

def SID_SET_L (sid : UInt64) : UInt64 := sid ||| 0x100

/-- The mask is the complement of the `int` 1 << 8, which is extended with its sign to 64 bits. -/
def SID_UNSET_L (sid : UInt64) : UInt64 := sid &&& 0xFFFFFFFFFFFFFEFF

example : (~~~((1 : Int32) <<< 8)).toInt64.toUInt64 = 0xFFFFFFFFFFFFFEFF := by decide

def SID_GET_TERM (sid : UInt64) : UInt64 := sid >>> 9

def SID_SET_TERM (sid term : UInt64) : UInt64 := (term <<< 9) ||| (sid &&& 0x1FF)

def SID_NULL : UInt64 := 0xFF

/-- The word [term|l|idx]. -/
def mk_sid (term : Nat) (l : Bool) (idx : Nat) : UInt64 :=
  UInt64.ofNat (term * 512 + (if l then 256 else 0) + idx)

section macros

variable (sid : UInt64)

theorem sid_get_idx : SID_GET_IDX sid = sid.toNat % 256 := by
  rw [SID_GET_IDX, UInt64.toNat_and]
  exact Nat.and_two_pow_sub_one_eq_mod sid.toNat 8

theorem sid_get_term : (SID_GET_TERM sid).toNat = sid.toNat / 512 := by
  rw [SID_GET_TERM, UInt64.toNat_shiftRight]
  exact Nat.shiftRight_eq_div_pow sid.toNat 9

theorem nat_and_256 (n : Nat) : n &&& 256 = n / 256 % 2 * 256 := by
  have hbit := Nat.and_two_pow n 8
  rw [Nat.testBit_eq_decide_div_mod_eq] at hbit
  have hmod : n / 2 ^ 8 % 2 = 0 ∨ n / 2 ^ 8 % 2 = 1 := by omega
  obtain hzero | hone := hmod
  · simp_all
  · simp_all

theorem sid_get_l : SID_GET_L sid = decide (sid.toNat / 256 % 2 = 1) := by
  have hand : (sid &&& 0x100).toNat = sid.toNat / 256 % 2 * 256 := by
    rw [UInt64.toNat_and]
    exact nat_and_256 sid.toNat
  have hzero : sid &&& 0x100 = 0 ↔ sid.toNat / 256 % 2 = 0 := by
    rw [← UInt64.toNat_inj, hand]
    simp
  rw [SID_GET_L, Bool.eq_iff_iff, bne_iff_ne, ne_eq, hzero, decide_eq_true_eq]
  omega

theorem low_or_256 : ∀ low < 512, low ||| 256 = if low / 256 = 1 then low else low + 256 := by
  decide +kernel

theorem sid_set_l : (SID_SET_L sid).toNat =
    if sid.toNat / 256 % 2 = 1 then sid.toNat else sid.toNat + 256 := by
  have hhigh : (sid.toNat ||| 256) / 2 ^ 9 = sid.toNat / 512 := by
    rw [Nat.or_div_two_pow]
    exact Nat.or_zero _
  have hlow : (sid.toNat ||| 256) % 2 ^ 9 =
      if sid.toNat % 512 / 256 = 1 then sid.toNat % 512 else sid.toNat % 512 + 256 := by
    rw [Nat.or_mod_two_pow]
    exact low_or_256 (sid.toNat % 512) (Nat.mod_lt _ (by decide))
  rw [SID_SET_L, UInt64.toNat_or]
  change sid.toNat ||| 256 = _
  rw [← Nat.div_add_mod (sid.toNat ||| 256) (2 ^ 9), hhigh, hlow]
  split <;> split <;> omega

theorem sid_set_term (term : UInt64) :
    (SID_SET_TERM sid term).toNat = term.toNat % 2 ^ 55 * 512 + sid.toNat % 512 := by
  have hlow : sid.toNat % 512 < 2 ^ 9 := Nat.mod_lt _ (by decide)
  have hjoin := Nat.two_pow_add_eq_or_of_lt hlow (term.toNat % 2 ^ 55)
  have hterm : (term <<< 9).toNat = 2 ^ 9 * (term.toNat % 2 ^ 55) := by
    rw [UInt64.toNat_shiftLeft]
    change term.toNat <<< 9 % 2 ^ 64 = _
    rw [Nat.shiftLeft_eq]
    omega
  have hmask : (sid &&& 0x1FF).toNat = sid.toNat % 512 := by
    rw [UInt64.toNat_and]
    exact Nat.and_two_pow_sub_one_eq_mod sid.toNat 9
  rw [SID_SET_TERM, UInt64.toNat_or, hterm, hmask, ← hjoin]
  omega

theorem sid_set_idx {idx : Nat} (hidx : idx < 256) :
    (SID_SET_IDX sid idx).toNat = sid.toNat / 256 * 256 + idx := by
  have hjoin := Nat.two_pow_add_eq_or_of_lt (i := 8) hidx (sid.toNat / 256)
  have hlt : sid.toNat < 2 ^ 64 := sid.toNat_lt
  have hhigh : ((sid >>> 8) <<< 8).toNat = 2 ^ 8 * (sid.toNat / 256) := by
    rw [UInt64.toNat_shiftLeft, UInt64.toNat_shiftRight]
    change (sid.toNat >>> 8) <<< 8 % 2 ^ 64 = _
    rw [Nat.shiftLeft_eq, Nat.shiftRight_eq_div_pow]
    omega
  have hsmall : (UInt64.ofNat idx).toNat = idx := by
    rw [UInt64.toNat_ofNat', Nat.mod_eq_of_lt (by omega)]
  rw [SID_SET_IDX, UInt64.toNat_or, hhigh, hsmall, Nat.or_comm, ← hjoin]
  omega

theorem sid_unset_l : (SID_UNSET_L sid).toNat =
    if sid.toNat / 256 % 2 = 1 then sid.toNat - 256 else sid.toNat := by
  have hlt : sid.toNat < 2 ^ 64 := sid.toNat_lt
  have hhigh : (sid.toNat &&& 0xFFFFFFFFFFFFFEFF) / 2 ^ 9 = sid.toNat / 512 := by
    rw [Nat.and_div_two_pow]
    change sid.toNat / 512 &&& (2 ^ 55 - 1) = _
    rw [Nat.and_two_pow_sub_one_eq_mod]
    omega
  have hlow : (sid.toNat &&& 0xFFFFFFFFFFFFFEFF) % 2 ^ 9 = sid.toNat % 256 := by
    rw [Nat.and_mod_two_pow]
    change sid.toNat % 512 &&& (2 ^ 8 - 1) = _
    rw [Nat.and_two_pow_sub_one_eq_mod]
    omega
  rw [SID_UNSET_L, UInt64.toNat_and]
  change sid.toNat &&& 0xFFFFFFFFFFFFFEFF = _
  rw [← Nat.div_add_mod (sid.toNat &&& 0xFFFFFFFFFFFFFEFF) (2 ^ 9), hhigh, hlow]
  split <;> omega

end macros

section fields

variable (sid : UInt64)

theorem sid_get_term_lt : (SID_GET_TERM sid).toNat < 2 ^ 55 := by
  have hlt : sid.toNat < 2 ^ 64 := sid.toNat_lt
  rw [sid_get_term]
  omega

theorem sid_get_idx_lt : SID_GET_IDX sid < 256 := by
  rw [sid_get_idx]
  exact Nat.mod_lt _ (by decide)

/-- The word is made of its fields. -/
theorem sid_toNat : sid.toNat =
    (SID_GET_TERM sid).toNat * 512 + (if SID_GET_L sid then 256 else 0) + SID_GET_IDX sid := by
  rw [sid_get_term, sid_get_idx, sid_get_l]
  simp only [decide_eq_true_eq]
  split <;> omega

theorem sid_ext {sid sid' : UInt64} (hterm : SID_GET_TERM sid = SID_GET_TERM sid')
    (hl : SID_GET_L sid = SID_GET_L sid') (hidx : SID_GET_IDX sid = SID_GET_IDX sid') : sid = sid' := by
  rw [← UInt64.toNat_inj, sid_toNat sid, sid_toNat sid', hterm, hl, hidx]

/-- The words are in the order of the terms, then of the leader flags, then of the indexes. -/
theorem sid_lt_iff {sid sid' : UInt64} : sid < sid' ↔ SID_GET_TERM sid < SID_GET_TERM sid' ∨
    SID_GET_TERM sid = SID_GET_TERM sid' ∧ (SID_GET_L sid < SID_GET_L sid' ∨
      SID_GET_L sid = SID_GET_L sid' ∧ SID_GET_IDX sid < SID_GET_IDX sid') := by
  have hidx := sid_get_idx_lt sid
  have hidx' := sid_get_idx_lt sid'
  rw [UInt64.lt_iff_toNat_lt, UInt64.lt_iff_toNat_lt, ← UInt64.toNat_inj, Bool.lt_iff, sid_toNat sid,
    sid_toNat sid']
  cases SID_GET_L sid <;> cases SID_GET_L sid' <;> simp <;> omega

@[simp] theorem sid_set_l_fields : SID_GET_TERM (SID_SET_L sid) = SID_GET_TERM sid ∧
    SID_GET_L (SID_SET_L sid) = true ∧ SID_GET_IDX (SID_SET_L sid) = SID_GET_IDX sid := by
  rw [← UInt64.toNat_inj, sid_get_term, sid_get_term, sid_get_l, sid_get_idx, sid_get_idx, sid_set_l,
    decide_eq_true_eq]
  split <;> omega

@[simp] theorem sid_unset_l_fields : SID_GET_TERM (SID_UNSET_L sid) = SID_GET_TERM sid ∧
    SID_GET_L (SID_UNSET_L sid) = false ∧ SID_GET_IDX (SID_UNSET_L sid) = SID_GET_IDX sid := by
  rw [← UInt64.toNat_inj, sid_get_term, sid_get_term, sid_get_l, sid_get_idx, sid_get_idx, sid_unset_l,
    decide_eq_false_iff_not]
  split <;> omega

@[simp] theorem sid_set_idx_fields {idx : Nat} (hidx : idx < 256) :
    SID_GET_TERM (SID_SET_IDX sid idx) = SID_GET_TERM sid ∧ SID_GET_L (SID_SET_IDX sid idx) = SID_GET_L sid ∧
      SID_GET_IDX (SID_SET_IDX sid idx) = idx := by
  rw [← UInt64.toNat_inj, sid_get_term, sid_get_term, sid_get_l, sid_get_l, sid_get_idx, sid_set_idx sid hidx,
    decide_eq_decide]
  omega

/-- A term of more than 55 bits is cut. -/
theorem sid_set_term_fields (term : UInt64) :
    (SID_GET_TERM (SID_SET_TERM sid term)).toNat = term.toNat % 2 ^ 55 ∧
      SID_GET_L (SID_SET_TERM sid term) = SID_GET_L sid ∧
      SID_GET_IDX (SID_SET_TERM sid term) = SID_GET_IDX sid := by
  rw [sid_get_term, sid_get_l, sid_get_l, sid_get_idx, sid_get_idx, sid_set_term, decide_eq_decide]
  omega

theorem get_term_set_term {term : UInt64} (hterm : term.toNat < 2 ^ 55) :
    SID_GET_TERM (SID_SET_TERM sid term) = term := by
  rw [← UInt64.toNat_inj, (sid_set_term_fields sid term).1, Nat.mod_eq_of_lt hterm]

end fields

end dare
