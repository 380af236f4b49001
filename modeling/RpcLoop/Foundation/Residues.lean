import Mathlib.Data.Int.DivMod

/-! Successive integers and their residues: among as many successive integers as
there are residues, each residue occurs at exactly one offset. -/

namespace RpcLoop.Foundation.Residues

/-- Where the residue occurs behind the start. -/
def offset (start : Int) (modulus : Nat) (residue : Int) : Nat :=
  ((residue - start) % modulus).toNat

variable {start residue : Int} {modulus index : Nat}

theorem cast_offset (start residue : Int) (positive : 0 < modulus) :
    (offset start modulus residue : Int) = (residue - start) % modulus := by
  have nonneg := Int.emod_nonneg (residue - start) (b := modulus) (by omega)
  exact Int.toNat_of_nonneg nonneg

theorem offset_lt (start residue : Int) (positive : 0 < modulus) :
    offset start modulus residue < modulus := by
  have same := cast_offset start residue positive
  have less := Int.emod_lt_of_pos (residue - start) (b := modulus) (by omega)
  omega

/-- The residue is there. -/
theorem emod_offset (positive : 0 < modulus) (low : 0 ≤ residue) (high : residue < modulus) :
    (start + offset start modulus residue) % modulus = residue := by
  calc (start + offset start modulus residue) % modulus
      = (start + (residue - start) % modulus) % modulus := by
        rw [cast_offset start residue positive]
    _ = (start + (residue - start)) % modulus := Int.add_emod_emod _ _ _
    _ = residue % modulus := by
        congr 1
        omega
    _ = residue := Int.emod_eq_of_lt low high

/-- It is nowhere else. -/
theorem offset_unique (inside : index < modulus) (found : (start + index) % modulus = residue) :
    index = offset start modulus residue := by
  have small : (index : Int) % modulus = index := Int.emod_eq_of_lt (by omega) (by omega)
  have same : (residue - start) % (modulus : Int) = index := by
    calc (residue - start) % (modulus : Int)
        = ((start + index) % modulus - start) % modulus := by rw [found]
      _ = (start + index - start) % modulus := Int.emod_sub_emod _ _ _
      _ = index % modulus := by
        congr 1
        omega
      _ = index := small
  have positive : 0 < modulus := by omega
  have whole := cast_offset start residue positive
  omega

end RpcLoop.Foundation.Residues
