import DrumMachine.Framework.Word

/-!
# The first set bit of a word

`__rt_ffs` of `kservice.c` with its table of bytes. The scheduler finds the highest ready
priority with it.
-/

namespace DrumMachine

def lowestBitBitmap : Array Nat := #[
  0, 0, 1, 0, 2, 0, 1, 0, 3, 0, 1, 0, 2, 0, 1, 0,
  4, 0, 1, 0, 2, 0, 1, 0, 3, 0, 1, 0, 2, 0, 1, 0,
  5, 0, 1, 0, 2, 0, 1, 0, 3, 0, 1, 0, 2, 0, 1, 0,
  4, 0, 1, 0, 2, 0, 1, 0, 3, 0, 1, 0, 2, 0, 1, 0,
  6, 0, 1, 0, 2, 0, 1, 0, 3, 0, 1, 0, 2, 0, 1, 0,
  4, 0, 1, 0, 2, 0, 1, 0, 3, 0, 1, 0, 2, 0, 1, 0,
  5, 0, 1, 0, 2, 0, 1, 0, 3, 0, 1, 0, 2, 0, 1, 0,
  4, 0, 1, 0, 2, 0, 1, 0, 3, 0, 1, 0, 2, 0, 1, 0,
  7, 0, 1, 0, 2, 0, 1, 0, 3, 0, 1, 0, 2, 0, 1, 0,
  4, 0, 1, 0, 2, 0, 1, 0, 3, 0, 1, 0, 2, 0, 1, 0,
  5, 0, 1, 0, 2, 0, 1, 0, 3, 0, 1, 0, 2, 0, 1, 0,
  4, 0, 1, 0, 2, 0, 1, 0, 3, 0, 1, 0, 2, 0, 1, 0,
  6, 0, 1, 0, 2, 0, 1, 0, 3, 0, 1, 0, 2, 0, 1, 0,
  4, 0, 1, 0, 2, 0, 1, 0, 3, 0, 1, 0, 2, 0, 1, 0,
  5, 0, 1, 0, 2, 0, 1, 0, 3, 0, 1, 0, 2, 0, 1, 0,
  4, 0, 1, 0, 2, 0, 1, 0, 3, 0, 1, 0, 2, 0, 1, 0]

def lowestBit (byte : BitVec 32) : Nat := lowestBitBitmap.getD byte.toNat 0

/-- `__rt_ffs`: bits are numbered from 1, and 0 means that no bit is set. -/
def rtFfs (value : BitVec 32) : Nat :=
  if value = 0#32 then 0
  else if value &&& 0xff#32 ≠ 0#32 then lowestBit (value &&& 0xff#32) + 1
  else if value &&& 0xff00#32 ≠ 0#32 then lowestBit ((value &&& 0xff00#32) >>> 8) + 9
  else if value &&& 0xff0000#32 ≠ 0#32 then lowestBit ((value &&& 0xff0000#32) >>> 16) + 17
  else lowestBit ((value &&& 0xff000000#32) >>> 24) + 25

/-- The lowest of the set bits of a word. -/
structure LowestBit (value : BitVec 32) (i : Nat) : Prop where
  set : value.getLsbD i = true
  clear : ∀ j < i, value.getLsbD j = false

private theorem lowestBit_byte : ∀ b : Fin 256, b.val ≠ 0 →
    lowestBitBitmap.getD b.val 0 < 8 ∧ b.val.testBit (lowestBitBitmap.getD b.val 0) = true ∧
      ∀ j < lowestBitBitmap.getD b.val 0, b.val.testBit j = false := by
  decide +kernel

theorem lowestBit_spec {byte : BitVec 32} (hne : byte ≠ 0#32) (hbyte : byte.toNat < 256) :
    lowestBit byte < 8 ∧ LowestBit byte (lowestBit byte) := by
  have hval : byte.toNat ≠ 0 := by
    intro hval
    apply hne
    exact BitVec.eq_of_toNat_eq hval
  obtain ⟨hlt, hset, hclear⟩ := lowestBit_byte ⟨byte.toNat, hbyte⟩ hval
  refine ⟨hlt, ?_, ?_⟩
  · rw [← BitVec.testBit_toNat]
    exact hset
  · intro j hj
    rw [← BitVec.testBit_toNat]
    exact hclear j hj

/-- What the table gives for the first byte that is not zero. -/
private theorem lowestBit_shift {value mask : BitVec 32} {k : Nat}
    (hmask : ∀ i < 32, mask.getLsbD i = decide (k ≤ i ∧ i < k + 8))
    (hne : value &&& mask ≠ 0#32) (hlow : ∀ i < k, value.getLsbD i = false) :
    LowestBit value (lowestBit ((value &&& mask) >>> k) + k) := by
  have hbit : ∀ i, ((value &&& mask) >>> k).getLsbD i = (value.getLsbD (k + i) && decide (i < 8)) := by
    intro i
    rw [BitVec.getLsbD_ushiftRight, BitVec.getLsbD_and]
    by_cases hi : k + i < 32
    · rw [hmask (k + i) hi]
      congr 1
      rw [decide_eq_decide]
      omega
    · rw [BitVec.getLsbD_of_ge value _ (not_lt.mp hi), Bool.false_and, Bool.false_and]
  have hbyte : ((value &&& mask) >>> k).toNat < 256 := by
    apply Nat.lt_pow_two_of_testBit (n := 8)
    intro i hi
    rw [BitVec.testBit_toNat, hbit, decide_eq_false (not_lt.mpr hi), Bool.and_false]
  have hshift : (value &&& mask) >>> k ≠ 0#32 := by
    intro hzero
    apply hne
    apply BitVec.eq_of_getLsbD_eq
    intro i hi
    rw [BitVec.getLsbD_and, BitVec.getLsbD_zero]
    by_cases hin : k ≤ i ∧ i < k + 8
    · have hi' := hbit (i - k)
      rw [hzero, BitVec.getLsbD_zero, Nat.add_sub_of_le hin.1,
        decide_eq_true (by omega : i - k < 8), Bool.and_true] at hi'
      rw [← hi', Bool.false_and]
    · rw [hmask i hi, decide_eq_false hin, Bool.and_false]
  obtain ⟨hlt, hset, hclear⟩ := lowestBit_spec hshift hbyte
  rw [hbit, decide_eq_true hlt, Bool.and_true] at hset
  refine ⟨Nat.add_comm k _ ▸ hset, ?_⟩
  intro j hj
  by_cases hjk : j < k
  · exact hlow j hjk
  · have hj' := hclear (j - k) (by omega)
    rwa [hbit, Nat.add_sub_of_le (not_lt.mp hjk), decide_eq_true (by omega : j - k < 8),
      Bool.and_true] at hj'

private theorem low_clear {value mask : BitVec 32} {k : Nat}
    (hmask : ∀ i < 32, mask.getLsbD i = decide (k ≤ i ∧ i < k + 8)) (hk : k + 8 ≤ 32)
    (hzero : value &&& mask = 0#32) (hlow : ∀ i < k, value.getLsbD i = false) :
    ∀ i < k + 8, value.getLsbD i = false := by
  intro i hi
  by_cases hik : i < k
  · exact hlow i hik
  · have hbit : (value &&& mask).getLsbD i = false := by rw [hzero, BitVec.getLsbD_zero]
    rwa [BitVec.getLsbD_and, hmask i (by omega), decide_eq_true ⟨not_lt.mp hik, hi⟩,
      Bool.and_true] at hbit

theorem rtFfs_lowestBit {value : BitVec 32} (hne : value ≠ 0#32) :
    LowestBit value (rtFfs value - 1) := by
  have hmask0 : ∀ i < 32, (0xff#32).getLsbD i = decide (0 ≤ i ∧ i < 0 + 8) := by decide
  have hmask1 : ∀ i < 32, (0xff00#32).getLsbD i = decide (8 ≤ i ∧ i < 8 + 8) := by decide
  have hmask2 : ∀ i < 32, (0xff0000#32).getLsbD i = decide (16 ≤ i ∧ i < 16 + 8) := by decide
  have hmask3 : ∀ i < 32, (0xff000000#32).getLsbD i = decide (24 ≤ i ∧ i < 24 + 8) := by decide
  have hlow0 : ∀ i < 0, value.getLsbD i = false := nofun
  rw [rtFfs, if_neg hne]
  split_ifs with h0 h1 h2
  · have hbyte := lowestBit_shift hmask0 h0 hlow0
    rw [BitVec.ushiftRight_zero, Nat.add_zero] at hbyte
    rw [Nat.add_sub_cancel]
    exact hbyte
  · have hlow1 := low_clear hmask0 (by decide) (not_not.mp h0) hlow0
    exact lowestBit_shift hmask1 h1 hlow1
  · have hlow1 := low_clear hmask0 (by decide) (not_not.mp h0) hlow0
    have hlow2 := low_clear hmask1 (by decide) (not_not.mp h1) hlow1
    exact lowestBit_shift hmask2 h2 hlow2
  · have hlow1 := low_clear hmask0 (by decide) (not_not.mp h0) hlow0
    have hlow2 := low_clear hmask1 (by decide) (not_not.mp h1) hlow1
    have hlow3 := low_clear hmask2 (by decide) (not_not.mp h2) hlow2
    refine lowestBit_shift hmask3 ?_ hlow3
    intro hzero
    apply hne
    apply BitVec.eq_of_getLsbD_eq
    intro i hi
    rw [low_clear hmask3 (by decide) hzero hlow3 i hi, BitVec.getLsbD_zero]

end DrumMachine
