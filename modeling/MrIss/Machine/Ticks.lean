import Mathlib.Order.Interval.Finset.Nat
import Mathlib.Data.Finset.Card
import MrIss.Machine.Run
/-!
# The time base and the decrementer

The interpreter's loop ticks once for each instruction, and the loop that
runs compiled blocks once for each block, by the number of its
instructions. The counters agree, but the decrementer is looked at only
when the ticks have been added.
-/

namespace MrIss

namespace CpuState

/-- The multiples of 4 that `n` single ticks take the time base through. -/
def quarters (tb : BitVec 64) (n : ℕ) : Finset ℕ :=
  (Finset.Ioc tb.toNat (tb.toNat + n)).filter (4 ∣ ·)

/-- One more tick. -/
theorem card_quarters_succ (tb : BitVec 64) (n : ℕ) : (quarters tb (n + 1)).card =
    (quarters tb n).card + if 4 ∣ tb.toNat + n + 1 then 1 else 0 := by
  have hins : Finset.Ioc tb.toNat (tb.toNat + (n + 1)) =
      insert (tb.toNat + n + 1) (Finset.Ioc tb.toNat (tb.toNat + n)) := by
    ext k
    simp only [Finset.mem_insert, Finset.mem_Ioc]
    omega
  rw [quarters, hins, Finset.filter_insert]
  split_ifs
  · rw [Finset.card_insert_of_notMem (by simp)]
    rfl
  · rfl

/-- There is one in four. -/
theorem card_quarters (tb : BitVec 64) (n : ℕ) :
    (quarters tb n).card = (tb.toNat % 4 + n) / 4 := by
  induction n with
  | zero =>
    rw [Nat.add_zero, Nat.div_eq_of_lt (Nat.mod_lt _ (by decide))]
    simp [quarters]
  | succ n ih =>
    rw [card_quarters_succ, ih]
    split_ifs <;> omega

/-- The prescaler's test. -/
theorem and_three_beq (tb : BitVec 64) : (tb &&& 3#64 == 0) = decide (4 ∣ tb.toNat) := by
  have hlow : (tb &&& 3#64).toNat = tb.toNat % 4 := Block.toNat_offset 2 tb
  rw [Bool.eq_iff_iff, beq_iff_eq, decide_eq_true_eq, ← BitVec.toNat_inj, hlow]
  show _ = 0 ↔ _
  omega

/-- One call that adds `n`. -/
theorem cpuTick_eq (p : CpuState) (n : ℕ) : p.cpuTick (BitVec.ofNat 64 n) =
    { p with
      cpuInstCount := p.cpuInstCount + BitVec.ofNat 64 n
      os := { p.os with
        tb := p.os.tb + BitVec.ofNat 64 n
        dec := p.os.dec - BitVec.ofNat 32 (if 4 ∣ p.os.tb.toNat + n then 1 else 0) } } := by
  have hlast : 4 ∣ (p.os.tb + BitVec.ofNat 64 n).toNat ↔ 4 ∣ p.os.tb.toNat + n := by
    rw [BitVec.toNat_add, BitVec.toNat_ofNat]
    omega
  rw [cpuTick]
  simp only [and_three_beq, decide_eq_true_eq, hlast]
  split_ifs <;> simp

/-- **Single ticks** take one from the decrementer at each multiple of 4. -/
theorem iterate_cpuTick (p : CpuState) (n : ℕ) : (·.cpuTick 1)^[n] p =
    { p with
      cpuInstCount := p.cpuInstCount + BitVec.ofNat 64 n
      os := { p.os with
        tb := p.os.tb + BitVec.ofNat 64 n
        dec := p.os.dec - BitVec.ofNat 32 (quarters p.os.tb n).card } } := by
  induction n with
  | zero => simp [quarters]
  | succ n ih =>
    -- the time base wraps at a multiple of 4
    have hwrap : 4 ∣ (p.os.tb + BitVec.ofNat 64 n).toNat + 1 ↔ 4 ∣ p.os.tb.toNat + n + 1 := by
      rw [BitVec.toNat_add, BitVec.toNat_ofNat]
      omega
    have hstep := cpuTick_eq ((·.cpuTick 1)^[n] p) 1
    rw [Function.iterate_succ_apply']
    refine hstep.trans ?_
    rw [ih, card_quarters_succ, BitVec.ofNat_add, BitVec.ofNat_add]
    simp only [hwrap, BitVec.add_assoc, BitVec.sub_sub]

/-- **A block's tick is its instructions' ticks** if and only if the ticks
do not go past the first multiple of 4 that they come to. -/
theorem cpuTick_block_iff (p : CpuState) (n : BitVec 32) :
    (p.cpuTick (n.setWidth 64) = (·.cpuTick 1)^[n.toNat] p ↔
      0 < p.os.tb.toNat % 4 + n.toNat ∧ p.os.tb.toNat % 4 + n.toNat ≤ 4) ∧
    ((p.cpuTick (n.setWidth 64)).os.dec =
        p.os.dec - BitVec.ofNat 32 (quarters p.os.tb n.toNat).card ↔
      0 < p.os.tb.toNat % 4 + n.toNat ∧ p.os.tb.toNat % 4 + n.toNat ≤ 4) := by
  have hn : n.setWidth 64 = BitVec.ofNat 64 n.toNat := (BitVec.ofNat_toNat 64 n).symm
  have hlt := n.isLt
  have hdec : p.os.dec - BitVec.ofNat 32 (if 4 ∣ p.os.tb.toNat + n.toNat then 1 else 0) =
      p.os.dec - BitVec.ofNat 32 (quarters p.os.tb n.toNat).card ↔
        0 < p.os.tb.toNat % 4 + n.toNat ∧ p.os.tb.toNat % 4 + n.toNat ≤ 4 := by
    rw [BitVec.sub_right_inj, ← BitVec.toNat_inj, BitVec.toNat_ofNat, BitVec.toNat_ofNat,
      card_quarters]
    split_ifs <;> omega
  rw [hn, cpuTick_eq, iterate_cpuTick]
  refine ⟨⟨fun h => hdec.mp (congrArg (·.os.dec) h), fun h => ?_⟩, hdec⟩
  rw [hdec.mpr h]

/-- **Time drifts.** A block of eight instructions from tick 0 on is two
counts of the decrementer, of which it takes one. -/
theorem block_tick_drifts : ∃ p : CpuState, p.os.tb = 0 ∧ (p.cpuTick 8).os.dec = p.os.dec - 1 ∧
    ((·.cpuTick 1)^[8] p).os.dec = p.os.dec - 2 :=
  ⟨.construct, rfl, rfl, rfl⟩

end CpuState

end MrIss
