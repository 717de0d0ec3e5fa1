import Mathlib.Algebra.Group.Nat.Basic
import Mathlib.Data.Nat.Defs

/-! # The log records

`InsidRec` (`tern/logdefs.h`) heads every record of the log: a 29-bit `insid` bit field (the
3-bit `type` beside it is read by no function modelled here). `setInsid` maps `INVALID_INSID`,
`(unsigned)(-1)`, to its in-record code `INVALID_INSID_IN_REC`, the all-ones 29-bit value, and
asserts that the id fits the field; `validInsid` and `getInsid` decode it.

The in-record code of `INVALID_INSID` is also an id the assertion admits, `2^29 - 1`: that id is
stored as it is and read back as `INVALID_INSID` (`insid_roundTrip`). Every other accepted id
round-trips. -/

namespace Xtern

/-- `INVALID_INSID`: `(unsigned)(-1)`. -/
def invalidInsid : BitVec 32 := BitVec.allOnes 32

/-- `MAX_INSID`: `1 << INSID_BITS`, with `INSID_BITS = 29`. -/
def maxInsid : BitVec 32 := 1#32 <<< 29

/-- `INVALID_INSID_IN_REC`: `INVALID_INSID & ((1 << INSID_BITS) - 1)`. -/
def invalidInsidInRec : BitVec 32 := invalidInsid &&& (maxInsid - 1#32)

/-! ### The constants as numbers -/

@[simp] theorem invalidInsid_toNat : invalidInsid.toNat = 2 ^ 32 - 1 := rfl

@[simp] theorem maxInsid_toNat : maxInsid.toNat = 2 ^ 29 := rfl

@[simp] theorem invalidInsidInRec_toNat : invalidInsidInRec.toNat = 2 ^ 29 - 1 := rfl

/-- The head of a log record: `unsigned insid : INSID_BITS`. -/
structure InsidRec where
  insid : BitVec 29
  deriving DecidableEq, Repr

namespace InsidRec

/-- `validInsid()`: the field is not the in-record code of `INVALID_INSID`. -/
def validInsid (r : InsidRec) : Bool := r.insid.setWidth 32 != invalidInsidInRec

/-- `getInsid()`: the field, or `INVALID_INSID` for its in-record code. -/
def getInsid (r : InsidRec) : BitVec 32 := if r.validInsid then r.insid.setWidth 32 else invalidInsid

/-- `setInsid(id)`; `none` is the failed `assert(id < MAX_INSID)`. -/
def setInsid (r : InsidRec) (id : BitVec 32) : Option InsidRec :=
  let id := if id = invalidInsid then invalidInsidInRec else id
  if id < maxInsid then some { r with insid := id.setWidth 29 } else none

/-! ### Decoding what `setInsid` stored -/

/-- The number `setInsid` stores for an id it accepts. -/
theorem setInsid_eq {r r' : InsidRec} {id : BitVec 32} (h : r.setInsid id = some r') :
    r'.insid.toNat = if id = invalidInsid then 2 ^ 29 - 1 else id.toNat := by
  simp only [setInsid] at h
  by_cases hi : id = invalidInsid
  · simp only [hi, if_true, if_pos (show invalidInsidInRec < maxInsid by decide)] at h
    cases h
    rw [if_pos hi]
    rfl
  · simp only [hi, if_false] at h
    split_ifs at h with hlt
    cases h
    have : id.toNat < 2 ^ 29 := BitVec.lt_def.1 hlt
    rw [if_neg hi, BitVec.toNat_setWidth]
    exact Nat.mod_eq_of_lt this

theorem insid_setWidth_toNat (r : InsidRec) : (r.insid.setWidth 32).toNat = r.insid.toNat := by
  rw [BitVec.toNat_setWidth]
  exact Nat.mod_eq_of_lt (by have := r.insid.isLt; omega)

theorem validInsid_iff (r : InsidRec) : r.validInsid ↔ r.insid.toNat ≠ 2 ^ 29 - 1 := by
  rw [validInsid, bne_iff_ne, ne_eq, BitVec.toNat_eq, insid_setWidth_toNat, invalidInsidInRec_toNat]

theorem getInsid_toNat (r : InsidRec) :
    r.getInsid.toNat = if r.insid.toNat = 2 ^ 29 - 1 then 2 ^ 32 - 1 else r.insid.toNat := by
  unfold getInsid
  by_cases h : r.insid.toNat = 2 ^ 29 - 1
  · rw [if_neg (by rw [validInsid_iff]; exact not_not.2 h), if_pos h, invalidInsid_toNat]
  · rw [if_pos ((validInsid_iff r).2 h), if_neg h, insid_setWidth_toNat]

end InsidRec

/-- The round trip of the instruction id. `setInsid` accepts exactly the ids below `2^29` and
`INVALID_INSID`. For those, `getInsid` returns the id and `validInsid` holds exactly when it is
not `INVALID_INSID`, except at `2^29 - 1`, the in-record code of `INVALID_INSID`, which the
assertion also accepts: stored there, it reads back as `INVALID_INSID`, not valid. -/
theorem insid_roundTrip :
    (∀ (r : InsidRec) id, (r.setInsid id).isSome ↔ id.toNat < 2 ^ 29 ∨ id = invalidInsid) ∧
    (∀ (r r' : InsidRec) id, r.setInsid id = some r' →
      (r'.getInsid = id ↔ id.toNat ≠ 2 ^ 29 - 1) ∧
      (r'.validInsid ↔ id ≠ invalidInsid ∧ id.toNat ≠ 2 ^ 29 - 1)) ∧
    ∃ r' : InsidRec, (⟨0⟩ : InsidRec).setInsid (maxInsid - 1#32) = some r' ∧
      r'.getInsid = invalidInsid ∧ r'.validInsid = false := by
  refine ⟨fun r id => ?_, fun r r' id h => ?_, ⟨⟨BitVec.allOnes 29⟩, rfl, rfl, rfl⟩⟩
  · unfold InsidRec.setInsid
    by_cases hi : id = invalidInsid <;> simp [hi, BitVec.lt_def]
  · have hs := InsidRec.setInsid_eq h
    rw [BitVec.toNat_eq, InsidRec.getInsid_toNat, InsidRec.validInsid_iff]
    by_cases hi : id = invalidInsid
    · subst hi
      rw [if_pos rfl] at hs
      simp [hs]
    · rw [if_neg hi] at hs
      simp only [hs, hi, ne_eq, not_false_eq_true, true_and]
      refine ⟨?_, trivial⟩
      split_ifs with h₁
      · exact iff_of_false (by omega) (not_not.2 h₁)
      · exact iff_of_true rfl h₁

end Xtern
