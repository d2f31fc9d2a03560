import Mathlib.Data.Bool.Basic
import Mathlib.Data.Prod.Lex
import Mathlib.Order.Fin.Basic
import Mathlib.Order.Hom.Basic
import ReliableSocket.Dare.Sid

namespace dare

/-- Term, leader flag and index, in lexicographic order. -/
abbrev SidFields : Type := Fin (2 ^ 55) ×ₗ Bool ×ₗ Fin 256

def sid_fields (sid : UInt64) : SidFields :=
  toLex (⟨(SID_GET_TERM sid).toNat, sid_get_term_lt sid⟩,
    toLex (SID_GET_L sid, ⟨SID_GET_IDX sid, sid_get_idx_lt sid⟩))

/-- The leader flag is set or unset. -/
def sid_write_l (sid : UInt64) (l : Bool) : UInt64 := if l then SID_SET_L sid else SID_UNSET_L sid

/-- The three fields are written over those of `sid`, one after the other. -/
def sid_write (sid : UInt64) (fields : SidFields) : UInt64 :=
  SID_SET_IDX
    (sid_write_l (SID_SET_TERM sid (UInt64.ofNat (ofLex fields).1)) (ofLex (ofLex fields).2).1)
    (ofLex (ofLex fields).2).2

section fields

variable (sid : UInt64)

@[simp] theorem sid_write_l_fields (l : Bool) : SID_GET_TERM (sid_write_l sid l) = SID_GET_TERM sid ∧
    SID_GET_L (sid_write_l sid l) = l ∧ SID_GET_IDX (sid_write_l sid l) = SID_GET_IDX sid := by
  cases l with
  | false => exact sid_unset_l_fields sid
  | true => exact sid_set_l_fields sid

theorem sid_fields_write (fields : SidFields) : sid_fields (sid_write sid fields) = fields := by
  obtain ⟨term, l, idx⟩ := fields
  have hterm : (UInt64.ofNat term).toNat = term := by
    rw [UInt64.toNat_ofNat']
    omega
  have hcut := (sid_set_term_fields sid (UInt64.ofNat term)).1
  rw [hterm, Nat.mod_eq_of_lt term.isLt] at hcut
  have hidx := idx.isLt
  have hread : sid_fields (sid_write sid (toLex (term, toLex (l, idx)))) =
      toLex (⟨term, term.isLt⟩, toLex (l, ⟨idx, idx.isLt⟩)) := by
    simp only [sid_fields, sid_write, ofLex_toLex, sid_set_idx_fields _ hidx, sid_write_l_fields, hcut]
  exact hread

theorem sid_fields_inj {sid sid' : UInt64} (hfields : sid_fields sid = sid_fields sid') : sid = sid' := by
  have hpair := toLex.injective hfields
  have hrest := toLex.injective (congrArg Prod.snd hpair)
  refine sid_ext (UInt64.toNat_inj.mp ?_) ?_ ?_
  · exact congrArg (fun fields => fields.1.val) hpair
  · exact congrArg Prod.fst hrest
  · exact congrArg (fun fields => fields.2.val) hrest

theorem sid_write_fields (prior : UInt64) : sid_write prior (sid_fields sid) = sid :=
  sid_fields_inj (sid_fields_write prior (sid_fields sid))

theorem sid_lt_iff_fields (sid' : UInt64) : sid < sid' ↔ sid_fields sid < sid_fields sid' := by
  rw [sid_lt_iff, sid_fields, sid_fields, Prod.Lex.toLex_lt_toLex, Prod.Lex.toLex_lt_toLex]
  simp only [Fin.lt_def, Fin.mk.injEq, UInt64.lt_iff_toNat_lt, UInt64.toNat_inj]

theorem sid_le_iff_fields (sid' : UInt64) : sid ≤ sid' ↔ sid_fields sid ≤ sid_fields sid' := by
  rw [← UInt64.not_lt, sid_lt_iff_fields]
  exact not_lt

end fields

/-- The words are the triples of their fields, and in the same order. -/
def sid_iso : UInt64 ≃o SidFields where
  toFun := sid_fields
  invFun := sid_write 0
  left_inv sid := sid_write_fields sid 0
  right_inv := sid_fields_write 0
  map_rel_iff' := (sid_le_iff_fields _ _).symm

/-- What the three getters give. -/
def HasFields (sid term : UInt64) (l : Bool) (idx : Nat) : Prop :=
  SID_GET_TERM sid = term ∧ SID_GET_L sid = l ∧ SID_GET_IDX sid = idx

/-- The SID is packed without loss: over every word, each setter writes a value that the getter gives back and
    leaves the other fields alone, and writing back what a getter gives changes nothing. The words are the triples
    of term, leader flag and index, whatever word the setters start from, and the words compare as the triples do
    in lexicographic order. -/
theorem sid_packing_is_order_iso (sid other term : UInt64) (l : Bool) (idx : Nat) (hterm : term.toNat < 2 ^ 55)
    (hidx : idx < 256) :
    HasFields (SID_SET_TERM sid term) term (SID_GET_L sid) (SID_GET_IDX sid) ∧
      HasFields (sid_write_l sid l) (SID_GET_TERM sid) l (SID_GET_IDX sid) ∧
      HasFields (SID_SET_IDX sid idx) (SID_GET_TERM sid) (SID_GET_L sid) idx ∧
      SID_SET_TERM sid (SID_GET_TERM sid) = sid ∧ sid_write_l sid (SID_GET_L sid) = sid ∧
      SID_SET_IDX sid (SID_GET_IDX sid) = sid ∧
      (∀ fields, sid_iso.symm fields = sid_write sid fields) ∧
      (sid < other ↔ sid_iso sid < sid_iso other) ∧ (sid ≤ other ↔ sid_iso sid ≤ sid_iso other) := by
  obtain ⟨-, hflag, hindex⟩ := sid_set_term_fields sid term
  obtain ⟨-, hflag', hindex'⟩ := sid_set_term_fields sid (SID_GET_TERM sid)
  obtain ⟨hsame, hback, hsame'⟩ := sid_write_l_fields sid (SID_GET_L sid)
  obtain ⟨hkept, hkept', hback'⟩ := sid_set_idx_fields sid (sid_get_idx_lt sid)
  refine ⟨⟨get_term_set_term sid hterm, hflag, hindex⟩, sid_write_l_fields sid l, sid_set_idx_fields sid hidx,
    ?_, ?_, ?_, fun fields => ?_, sid_lt_iff_fields sid other, sid_le_iff_fields sid other⟩
  · exact sid_ext (get_term_set_term sid (sid_get_term_lt sid)) hflag' hindex'
  · exact sid_ext hsame hback hsame'
  · exact sid_ext hkept hkept' hback'
  · exact sid_iso.symm_apply_eq.mpr (sid_fields_write sid fields).symm

/-- A vote of the last term for server 7, and the word of all ones. -/
theorem last_term_is_packed :
    HasFields (SID_SET_TERM 0xFFFFFFFFFFFFFFFF 0x7FFFFFFFFFFFFF) 0x7FFFFFFFFFFFFF true 255 ∧
      HasFields (SID_SET_IDX 0xFFFFFFFFFFFFFFFF 7) 0x7FFFFFFFFFFFFF true 7 := by
  obtain ⟨hterm, -, hidx, -⟩ :=
    sid_packing_is_order_iso 0xFFFFFFFFFFFFFFFF 0 0x7FFFFFFFFFFFFF false 7 (by decide) (by decide)
  exact ⟨hterm, hidx⟩

end dare
