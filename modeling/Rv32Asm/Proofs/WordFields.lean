import Mathlib.Tactic.Ring
import Rv32Asm.Word.Fields

/-!
Reading a word gives back what was packed into it.

Packers shift fields to their places and join them bitwise. As fields in range do not overlap, the
word as a number is the sum of the fields at their places, and each reader divides and cuts its
field out of that sum. The fields of every layout cover the whole word, so that no two words have
the same fields.
-/

set_option autoImplicit false
set_option relaxedAutoImplicit false

namespace Rv32Asm.Word

theorem toNat_ofInt (v : Int) : (UInt32.ofInt v).toNat = (v % 2 ^ 32).toNat := by
  rw [UInt32.ofInt, UInt32.toNat_ofNat']
  omega

/-- Joining bits below bit `k` to a multiple of `2 ^ k` adds them. -/
private theorem toNat_or_of_lt {a b : UInt32} (k : Nat) (high : a.toNat % 2 ^ k = 0)
    (low : b.toNat < 2 ^ k) : (a ||| b).toNat = a.toNat + b.toNat := by
  obtain ⟨c, multiple⟩ := Nat.dvd_of_mod_eq_zero high
  rw [UInt32.toNat_or, multiple, Nat.mul_comm, ← Nat.shiftLeft_eq,
    Nat.shiftLeft_add_eq_or_of_lt low]

private theorem toNat_shiftLeft_of_lt {a : UInt32} (k : Nat) (small : k < 32)
    (fits : a.toNat * 2 ^ k < 2 ^ 32) : (a <<< UInt32.ofNat k).toNat = a.toNat * 2 ^ k := by
  have amount : (UInt32.ofNat k).toNat % 32 = k := by
    rw [UInt32.toNat_ofNat']
    omega
  rw [UInt32.toNat_shiftLeft, amount, Nat.shiftLeft_eq, Nat.mod_eq_of_lt fits]

private theorem toNat_field (w : UInt32) (k m : Nat) (small : k < 32) (mask : UInt32)
    (width : mask.toNat = 2 ^ m - 1) :
    ((w >>> UInt32.ofNat k) &&& mask).toNat = w.toNat / 2 ^ k % 2 ^ m := by
  have amount : (UInt32.ofNat k).toNat % 32 = k := by
    rw [UInt32.toNat_ofNat']
    omega
  rw [UInt32.toNat_and, width, Nat.and_two_pow_sub_one_eq_mod, UInt32.toNat_shiftRight, amount,
    Nat.shiftRight_eq_div_pow]

theorem toNat_low (w : UInt32) (m : Nat) (mask : UInt32)
    (width : mask.toNat = 2 ^ m - 1) : (w &&& mask).toNat = w.toNat % 2 ^ m := by
  rw [UInt32.toNat_and, width, Nat.and_two_pow_sub_one_eq_mod]

theorem toNat_opcodeOf (w : UInt32) : (opcodeOf w).toNat = w.toNat % 2 ^ 7 :=
  toNat_low w 7 0x7f rfl

theorem toNat_rdOf (w : UInt32) : (rdOf w).toNat = w.toNat / 2 ^ 7 % 2 ^ 5 :=
  toNat_field w 7 5 (by omega) 0x1f rfl

theorem toNat_rs1Of (w : UInt32) : (rs1Of w).toNat = w.toNat / 2 ^ 15 % 2 ^ 5 :=
  toNat_field w 15 5 (by omega) 0x1f rfl

theorem toNat_rs2Of (w : UInt32) : (rs2Of w).toNat = w.toNat / 2 ^ 20 % 2 ^ 5 :=
  toNat_field w 20 5 (by omega) 0x1f rfl

theorem toNat_funct3Of (w : UInt32) : (funct3Of w).toNat = w.toNat / 2 ^ 12 % 2 ^ 3 :=
  toNat_field w 12 3 (by omega) 0x7 rfl

theorem toNat_funct7Of (w : UInt32) : (funct7Of w).toNat = w.toNat / 2 ^ 25 % 2 ^ 7 :=
  toNat_field w 25 7 (by omega) 0x7f rfl

private theorem toNat_or_shiftLeft {w v : UInt32} {n : Nat} (k m : Nat) (word : w.toNat = n)
    (place : 0 < m ∧ k + m ≤ 32) (high : n % 2 ^ (k + m) = 0) (low : v.toNat < 2 ^ m) :
    (w ||| v <<< UInt32.ofNat k).toNat = n + v.toNat * 2 ^ k := by
  have top : v.toNat * 2 ^ k < 2 ^ (k + m) := by
    rw [Nat.add_comm, Nat.pow_add]
    exact Nat.mul_lt_mul_of_pos_right low (Nat.two_pow_pos k)
  have fits : 2 ^ (k + m) ≤ 2 ^ 32 := Nat.pow_le_pow_right (by omega) place.2
  have shifted := toNat_shiftLeft_of_lt k (by omega) (Nat.lt_of_lt_of_le top fits)
  rw [toNat_or_of_lt (k + m) (word ▸ high) (by rw [shifted]; exact top), word, shifted]

private theorem toNat_or_low {w v : UInt32} {n : Nat} (k : Nat) (word : w.toNat = n)
    (high : n % 2 ^ k = 0) (low : v.toNat < 2 ^ k) : (w ||| v).toNat = n + v.toNat := by
  rw [toNat_or_of_lt k (word ▸ high) low, word]

/-- The six slots of a word, from the highest bits to the lowest. Every layout fills all of them. -/
private theorem slots_of_sum {n a b c d e o : Nat}
    (sum : n = a * 2 ^ 25 + b * 2 ^ 20 + c * 2 ^ 15 + d * 2 ^ 12 + e * 2 ^ 7 + o)
    (ha : a < 2 ^ 7) (hb : b < 2 ^ 5) (hc : c < 2 ^ 5) (hd : d < 2 ^ 3) (he : e < 2 ^ 5)
    (ho : o < 2 ^ 7) :
    n / 2 ^ 25 % 2 ^ 7 = a ∧ n / 2 ^ 20 % 2 ^ 5 = b ∧ n / 2 ^ 15 % 2 ^ 5 = c ∧
      n / 2 ^ 12 % 2 ^ 3 = d ∧ n / 2 ^ 7 % 2 ^ 5 = e ∧ n % 2 ^ 7 = o := by
  omega

private theorem sum_slots {n : Nat} (bound : n < 2 ^ 32) :
    n = n / 2 ^ 25 % 2 ^ 7 * 2 ^ 25 + n / 2 ^ 20 % 2 ^ 5 * 2 ^ 20 + n / 2 ^ 15 % 2 ^ 5 * 2 ^ 15 +
      n / 2 ^ 12 % 2 ^ 3 * 2 ^ 12 + n / 2 ^ 7 % 2 ^ 5 * 2 ^ 7 + n % 2 ^ 7 := by
  omega

section Register

theorem toNat_packR {f : RFields} (opcode : f.opcode.toNat < 2 ^ 7) (rd : f.rd.toNat < 2 ^ 5)
    (rs1 : f.rs1.toNat < 2 ^ 5) (rs2 : f.rs2.toNat < 2 ^ 5) (funct3 : f.funct3.toNat < 2 ^ 3)
    (funct7 : f.funct7.toNat < 2 ^ 7) :
    (packR f).toNat = f.funct7.toNat * 2 ^ 25 + f.rs2.toNat * 2 ^ 20 + f.rs1.toNat * 2 ^ 15 +
      f.funct3.toNat * 2 ^ 12 + f.rd.toNat * 2 ^ 7 + f.opcode.toNat := by
  have h0 : (f.funct7 <<< 25).toNat = f.funct7.toNat * 2 ^ 25 :=
    toNat_shiftLeft_of_lt 25 (by omega) (by omega)
  have h1 := toNat_or_shiftLeft 20 5 h0 (by omega) (by omega) rs2
  have h2 := toNat_or_shiftLeft 15 5 h1 (by omega) (by omega) rs1
  have h3 := toNat_or_shiftLeft 12 3 h2 (by omega) (by omega) funct3
  have h4 := toNat_or_shiftLeft 7 5 h3 (by omega) (by omega) rd
  exact toNat_or_low 7 h4 (by omega) opcode

theorem readR_packR {f : RFields} (opcode : f.opcode.toNat < 2 ^ 7) (rd : f.rd.toNat < 2 ^ 5)
    (rs1 : f.rs1.toNat < 2 ^ 5) (rs2 : f.rs2.toNat < 2 ^ 5) (funct3 : f.funct3.toNat < 2 ^ 3)
    (funct7 : f.funct7.toNat < 2 ^ 7) : readR (packR f) = f := by
  have word := toNat_packR opcode rd rs1 rs2 funct3 funct7
  obtain ⟨_, _, _, _, _, _⟩ := f
  simp only [readR, RFields.mk.injEq, ← UInt32.toNat_inj, toNat_opcodeOf, toNat_rdOf, toNat_rs1Of,
    toNat_rs2Of, toNat_funct3Of, toNat_funct7Of] at *
  omega

theorem readR_injective {v w : UInt32} (same : readR v = readR w) : v = w := by
  simp only [readR, RFields.mk.injEq, ← UInt32.toNat_inj, toNat_opcodeOf, toNat_rdOf, toNat_rs1Of,
    toNat_rs2Of, toNat_funct3Of, toNat_funct7Of] at same
  obtain ⟨opcode, rd, rs1, rs2, funct7, funct3⟩ := same
  rw [← UInt32.toNat_inj, sum_slots v.toNat_lt, opcode, rd, rs1, rs2, funct7, funct3]
  exact (sum_slots w.toNat_lt).symm

end Register

section Immediate

private theorem sum_immediate {n : Nat} (bound : n < 2 ^ 32) :
    n = n / 2 ^ 20 % 2 ^ 12 * 2 ^ 20 + n / 2 ^ 15 % 2 ^ 5 * 2 ^ 15 + n / 2 ^ 12 % 2 ^ 3 * 2 ^ 12 +
      n / 2 ^ 7 % 2 ^ 5 * 2 ^ 7 + n % 2 ^ 7 := by
  omega

theorem readI_injective {v w : UInt32} (same : readI v = readI w) : v = w := by
  have fieldV : ((v >>> 20) &&& 0xfff).toNat = _ := toNat_field v 20 12 (by omega) 0xfff rfl
  have fieldW : ((w >>> 20) &&& 0xfff).toNat = _ := toNat_field w 20 12 (by omega) 0xfff rfl
  simp only [readI, IFields.mk.injEq, ← UInt32.toNat_inj, toNat_opcodeOf, toNat_rdOf, toNat_rs1Of,
    toNat_funct3Of, fieldV, fieldW] at same
  obtain ⟨opcode, rd, rs1, imm, funct3⟩ := same
  rw [← UInt32.toNat_inj, sum_immediate v.toNat_lt, opcode, rd, rs1, imm, funct3]
  exact (sum_immediate w.toNat_lt).symm

variable {f : IFields} (opcode : f.opcode.toNat < 2 ^ 7) (rd : f.rd.toNat < 2 ^ 5)
  (rs1 : f.rs1.toNat < 2 ^ 5) (funct3 : f.funct3.toNat < 2 ^ 3)
include opcode rd rs1 funct3

theorem toNat_packI :
    (packI f).toNat = f.imm.toNat % 2 ^ 12 * 2 ^ 20 + f.rs1.toNat * 2 ^ 15 +
      f.funct3.toNat * 2 ^ 12 + f.rd.toNat * 2 ^ 7 + f.opcode.toNat := by
  have imm := toNat_low f.imm 12 0xfff rfl
  have h0 : ((f.imm &&& 0xfff) <<< 20).toNat = (f.imm &&& 0xfff).toNat * 2 ^ 20 :=
    toNat_shiftLeft_of_lt 20 (by omega) (by omega)
  have h1 := toNat_or_shiftLeft 15 5 h0 (by omega) (by omega) rs1
  have h2 := toNat_or_shiftLeft 12 3 h1 (by omega) (by omega) funct3
  have h3 := toNat_or_shiftLeft 7 5 h2 (by omega) (by omega) rd
  rw [← imm]
  exact toNat_or_low 7 h3 (by omega) opcode

theorem readI_packI :
    readI (packI f) = { f with imm := UInt32.ofNat (f.imm.toNat % 2 ^ 12) } := by
  have word := toNat_packI opcode rd rs1 funct3
  have field := toNat_field (packI f) 20 12 (by omega) 0xfff rfl
  simp only [readI, IFields.mk.injEq, ← UInt32.toNat_inj, toNat_opcodeOf, toNat_rdOf, toNat_rs1Of,
    toNat_funct3Of, UInt32.toNat_ofNat']
  refine ⟨by omega, by omega, by omega, ?_, by omega⟩
  exact field.trans (by omega)

end Immediate

section Store

private theorem toNat_readS_imm (w : UInt32) :
    (readS w).imm.toNat = w.toNat / 2 ^ 25 % 2 ^ 7 * 2 ^ 5 + w.toNat / 2 ^ 7 % 2 ^ 5 := by
  have upper : ((w >>> 25) &&& 0x7f).toNat = _ := toNat_field w 25 7 (by omega) 0x7f rfl
  have lower : ((w >>> 7) &&& 0x1f).toNat = _ := toNat_field w 7 5 (by omega) 0x1f rfl
  have h0 : (((w >>> 25) &&& 0x7f) <<< 5).toNat = ((w >>> 25) &&& 0x7f).toNat * 2 ^ 5 :=
    toNat_shiftLeft_of_lt 5 (by omega) (by omega)
  have h1 := toNat_or_low (v := (w >>> 7) &&& 0x1f) 5 h0 (by omega) (by omega)
  rw [← upper, ← lower]
  exact h1

theorem readS_injective {v w : UInt32} (same : readS v = readS w) : v = w := by
  have imm : (readS v).imm.toNat = (readS w).imm.toNat := by rw [same]
  rw [toNat_readS_imm, toNat_readS_imm] at imm
  have upper : v.toNat / 2 ^ 25 % 2 ^ 7 = w.toNat / 2 ^ 25 % 2 ^ 7 := by omega
  have lower : v.toNat / 2 ^ 7 % 2 ^ 5 = w.toNat / 2 ^ 7 % 2 ^ 5 := by omega
  simp only [readS, SFields.mk.injEq, ← UInt32.toNat_inj, toNat_opcodeOf, toNat_rs1Of, toNat_rs2Of,
    toNat_funct3Of] at same
  obtain ⟨opcode, rs1, rs2, _, funct3⟩ := same
  rw [← UInt32.toNat_inj, sum_slots v.toNat_lt, opcode, rs1, rs2, upper, lower, funct3]
  exact (sum_slots w.toNat_lt).symm

variable {f : SFields} (opcode : f.opcode.toNat < 2 ^ 7) (rs1 : f.rs1.toNat < 2 ^ 5)
  (rs2 : f.rs2.toNat < 2 ^ 5) (funct3 : f.funct3.toNat < 2 ^ 3)
include opcode rs1 rs2 funct3

theorem toNat_packS :
    (packS f).toNat = f.imm.toNat % 2 ^ 12 / 2 ^ 5 * 2 ^ 25 + f.rs2.toNat * 2 ^ 20 +
      f.rs1.toNat * 2 ^ 15 + f.funct3.toNat * 2 ^ 12 + f.imm.toNat % 2 ^ 5 * 2 ^ 7 +
      f.opcode.toNat := by
  have imm := toNat_low f.imm 12 0xfff rfl
  have upper : ((f.imm &&& 0xfff) >>> 5).toNat = f.imm.toNat % 2 ^ 12 / 2 ^ 5 := by
    rw [UInt32.toNat_shiftRight, imm, Nat.shiftRight_eq_div_pow]
    rfl
  have lower : ((f.imm &&& 0xfff) &&& 0x1f).toNat = f.imm.toNat % 2 ^ 5 := by
    rw [toNat_low _ 5 0x1f rfl, imm]
    omega
  have h0 : (((f.imm &&& 0xfff) >>> 5) <<< 25).toNat = ((f.imm &&& 0xfff) >>> 5).toNat * 2 ^ 25 :=
    toNat_shiftLeft_of_lt 25 (by omega) (by omega)
  have h1 := toNat_or_shiftLeft 20 5 h0 (by omega) (by omega) rs2
  have h2 := toNat_or_shiftLeft 15 5 h1 (by omega) (by omega) rs1
  have h3 := toNat_or_shiftLeft 12 3 h2 (by omega) (by omega) funct3
  have h4 := toNat_or_shiftLeft (v := (f.imm &&& 0xfff) &&& 0x1f) 7 5 h3 (by omega) (by omega)
    (by omega)
  rw [← upper, ← lower]
  exact toNat_or_low 7 h4 (by omega) opcode

theorem readS_packS :
    readS (packS f) = { f with imm := UInt32.ofNat (f.imm.toNat % 2 ^ 12) } := by
  obtain ⟨h7, hrs2, hrs1, hf3, hrd, hop⟩ := slots_of_sum (toNat_packS opcode rs1 rs2 funct3)
    (by omega) rs2 rs1 funct3 (by omega) opcode
  have imm : (readS (packS f)).imm = UInt32.ofNat (f.imm.toNat % 2 ^ 12) := by
    rw [← UInt32.toNat_inj, UInt32.toNat_ofNat', toNat_readS_imm, h7, hrd]
    omega
  simp only [← imm]
  simp only [readS, SFields.mk.injEq, ← UInt32.toNat_inj, toNat_opcodeOf, toNat_rs1Of, toNat_rs2Of,
    toNat_funct3Of]
  exact ⟨hop, hrs1, hrs2, trivial, hf3⟩

end Store

section Branch

variable {f : SFields} (opcode : f.opcode.toNat < 2 ^ 7) (rs1 : f.rs1.toNat < 2 ^ 5)
  (rs2 : f.rs2.toNat < 2 ^ 5) (funct3 : f.funct3.toNat < 2 ^ 3)

private theorem packB_eq (f : SFields) :
    packB f = (((f.imm >>> 12) &&& 0x1) <<< 31) ||| (((f.imm >>> 5) &&& 0x3f) <<< 25)
      ||| (f.rs2 <<< 20) ||| (f.rs1 <<< 15) ||| (f.funct3 <<< 12)
      ||| (((f.imm >>> 1) &&& 0xf) <<< 8) ||| (((f.imm >>> 11) &&& 0x1) <<< 7) ||| f.opcode := by
  unfold packB
  generalize ((f.imm >>> 12) &&& 0x1) <<< 31 = bit12
  generalize ((f.imm >>> 5) &&& 0x3f) <<< 25 = bits5
  generalize ((f.imm >>> 1) &&& 0xf) <<< 8 = bits1
  generalize ((f.imm >>> 11) &&& 0x1) <<< 7 = bit11
  generalize f.rs2 <<< 20 = rs2
  generalize f.rs1 <<< 15 = rs1
  generalize f.funct3 <<< 12 = funct3
  ac_rfl

private theorem branch_pieces {n a b c d : Nat} (high : n / 2 ^ 25 % 2 ^ 7 = a * 2 ^ 6 + b)
    (low : n / 2 ^ 7 % 2 ^ 5 = c * 2 ^ 1 + d) (hb : b < 2 ^ 6) (hd : d < 2 ^ 1) :
    n / 2 ^ 31 % 2 ^ 1 = a ∧ n / 2 ^ 25 % 2 ^ 6 = b ∧ n / 2 ^ 8 % 2 ^ 4 = c ∧
      n / 2 ^ 7 % 2 ^ 1 = d := by
  omega

private theorem toNat_readB_imm (w : UInt32) :
    (readB w).imm.toNat = w.toNat / 2 ^ 31 % 2 ^ 1 * 2 ^ 12 + w.toNat / 2 ^ 7 % 2 ^ 1 * 2 ^ 11 +
      w.toNat / 2 ^ 25 % 2 ^ 6 * 2 ^ 5 + w.toNat / 2 ^ 8 % 2 ^ 4 * 2 ^ 1 := by
  have bit12 : ((w >>> 31) &&& 0x1).toNat = _ := toNat_field w 31 1 (by omega) 0x1 rfl
  have bit11 : ((w >>> 7) &&& 0x1).toNat = _ := toNat_field w 7 1 (by omega) 0x1 rfl
  have bits5 : ((w >>> 25) &&& 0x3f).toNat = _ := toNat_field w 25 6 (by omega) 0x3f rfl
  have bits1 : ((w >>> 8) &&& 0xf).toNat = _ := toNat_field w 8 4 (by omega) 0xf rfl
  have h0 : (((w >>> 31) &&& 0x1) <<< 12).toNat = ((w >>> 31) &&& 0x1).toNat * 2 ^ 12 :=
    toNat_shiftLeft_of_lt 12 (by omega) (by omega)
  have h1 := toNat_or_shiftLeft (v := (w >>> 7) &&& 0x1) 11 1 h0 (by omega) (by omega) (by omega)
  have h2 := toNat_or_shiftLeft (v := (w >>> 25) &&& 0x3f) 5 6 h1 (by omega) (by omega) (by omega)
  have h3 := toNat_or_shiftLeft (v := (w >>> 8) &&& 0xf) 1 4 h2 (by omega) (by omega) (by omega)
  rw [← bit12, ← bit11, ← bits5, ← bits1]
  exact h3

private theorem sum_branch {n : Nat} (bound : n < 2 ^ 32) :
    n = (n / 2 ^ 31 % 2 ^ 1 * 2 ^ 6 + n / 2 ^ 25 % 2 ^ 6) * 2 ^ 25 + n / 2 ^ 20 % 2 ^ 5 * 2 ^ 20 +
      n / 2 ^ 15 % 2 ^ 5 * 2 ^ 15 + n / 2 ^ 12 % 2 ^ 3 * 2 ^ 12 +
      (n / 2 ^ 8 % 2 ^ 4 * 2 ^ 1 + n / 2 ^ 7 % 2 ^ 1) * 2 ^ 7 + n % 2 ^ 7 := by
  have upper : n / 2 ^ 25 % 2 ^ 7 = n / 2 ^ 31 % 2 ^ 1 * 2 ^ 6 + n / 2 ^ 25 % 2 ^ 6 := by omega
  have lower : n / 2 ^ 7 % 2 ^ 5 = n / 2 ^ 8 % 2 ^ 4 * 2 ^ 1 + n / 2 ^ 7 % 2 ^ 1 := by omega
  rw [← upper, ← lower]
  exact sum_slots bound

private theorem branch_imm_pieces {a b c d a' b' c' d' : Nat}
    (sum : a * 2 ^ 12 + b * 2 ^ 11 + c * 2 ^ 5 + d * 2 ^ 1 =
      a' * 2 ^ 12 + b' * 2 ^ 11 + c' * 2 ^ 5 + d' * 2 ^ 1)
    (hb : b < 2 ^ 1) (hc : c < 2 ^ 6) (hd : d < 2 ^ 4) (hb' : b' < 2 ^ 1) (hc' : c' < 2 ^ 6)
    (hd' : d' < 2 ^ 4) : a = a' ∧ b = b' ∧ c = c' ∧ d = d' := by
  omega

theorem readB_injective {v w : UInt32} (same : readB v = readB w) : v = w := by
  have imm : (readB v).imm.toNat = (readB w).imm.toNat := by rw [same]
  rw [toNat_readB_imm, toNat_readB_imm] at imm
  obtain ⟨bit12, bit11, bits5, bits1⟩ := branch_imm_pieces imm (Nat.mod_lt _ (by decide))
    (Nat.mod_lt _ (by decide)) (Nat.mod_lt _ (by decide)) (Nat.mod_lt _ (by decide))
    (Nat.mod_lt _ (by decide)) (Nat.mod_lt _ (by decide))
  simp only [readB, SFields.mk.injEq, ← UInt32.toNat_inj, toNat_opcodeOf, toNat_rs1Of, toNat_rs2Of,
    toNat_funct3Of] at same
  obtain ⟨opcode, rs1, rs2, _, funct3⟩ := same
  rw [← UInt32.toNat_inj, sum_branch v.toNat_lt, opcode, rs1, rs2, funct3, bit12, bit11, bits5,
    bits1]
  exact (sum_branch w.toNat_lt).symm

include opcode rs1 rs2 funct3

theorem toNat_packB :
    (packB f).toNat =
      (f.imm.toNat / 2 ^ 12 % 2 ^ 1 * 2 ^ 6 + f.imm.toNat / 2 ^ 5 % 2 ^ 6) * 2 ^ 25 +
      f.rs2.toNat * 2 ^ 20 + f.rs1.toNat * 2 ^ 15 + f.funct3.toNat * 2 ^ 12 +
      (f.imm.toNat / 2 ^ 1 % 2 ^ 4 * 2 ^ 1 + f.imm.toNat / 2 ^ 11 % 2 ^ 1) * 2 ^ 7 +
      f.opcode.toNat := by
  have bit12 : ((f.imm >>> 12) &&& 0x1).toNat = _ := toNat_field f.imm 12 1 (by omega) 0x1 rfl
  have bits5 : ((f.imm >>> 5) &&& 0x3f).toNat = _ := toNat_field f.imm 5 6 (by omega) 0x3f rfl
  have bits1 : ((f.imm >>> 1) &&& 0xf).toNat = _ := toNat_field f.imm 1 4 (by omega) 0xf rfl
  have bit11 : ((f.imm >>> 11) &&& 0x1).toNat = _ := toNat_field f.imm 11 1 (by omega) 0x1 rfl
  have h0 : (((f.imm >>> 12) &&& 0x1) <<< 31).toNat = ((f.imm >>> 12) &&& 0x1).toNat * 2 ^ 31 :=
    toNat_shiftLeft_of_lt 31 (by omega) (by omega)
  have h1 := toNat_or_shiftLeft (v := (f.imm >>> 5) &&& 0x3f) 25 6 h0 (by omega) (by omega)
    (by omega)
  have h2 := toNat_or_shiftLeft 20 5 h1 (by omega) (by omega) rs2
  have h3 := toNat_or_shiftLeft 15 5 h2 (by omega) (by omega) rs1
  have h4 := toNat_or_shiftLeft 12 3 h3 (by omega) (by omega) funct3
  have h5 := toNat_or_shiftLeft (v := (f.imm >>> 1) &&& 0xf) 8 4 h4 (by omega) (by omega)
    (by omega)
  have h6 := toNat_or_shiftLeft (v := (f.imm >>> 11) &&& 0x1) 7 1 h5 (by omega) (by omega)
    (by omega)
  have h7 := toNat_or_low 7 h6 (by omega) opcode
  rw [packB_eq, ← bit12, ← bits5, ← bits1, ← bit11]
  refine h7.trans ?_
  ring

theorem readB_packB :
    readB (packB f) = { f with imm := UInt32.ofNat (f.imm.toNat % 2 ^ 13 / 2 * 2) } := by
  obtain ⟨h7, hrs2, hrs1, hf3, hrd, hop⟩ := slots_of_sum (toNat_packB opcode rs1 rs2 funct3)
    (by omega) rs2 rs1 funct3 (by omega) opcode
  have imm : (readB (packB f)).imm = UInt32.ofNat (f.imm.toNat % 2 ^ 13 / 2 * 2) := by
    obtain ⟨h12, h5, h1, h11⟩ := branch_pieces h7 hrd (by omega) (by omega)
    rw [← UInt32.toNat_inj, UInt32.toNat_ofNat', toNat_readB_imm, h12, h11, h5, h1]
    clear h7 hrs2 hrs1 hf3 hrd hop h12 h5 h1 h11
    omega
  simp only [← imm]
  simp only [readB, SFields.mk.injEq, ← UInt32.toNat_inj, toNat_opcodeOf, toNat_rs1Of, toNat_rs2Of,
    toNat_funct3Of]
  exact ⟨hop, hrs1, hrs2, trivial, hf3⟩

end Branch

section Upper

private theorem sum_upper {n : Nat} (bound : n < 2 ^ 32) :
    n = n / 2 ^ 12 % 2 ^ 20 * 2 ^ 12 + n / 2 ^ 7 % 2 ^ 5 * 2 ^ 7 + n % 2 ^ 7 := by
  omega

theorem readU_injective {v w : UInt32} (same : readU v = readU w) : v = w := by
  have fieldV : ((v >>> 12) &&& 0xfffff).toNat = _ := toNat_field v 12 20 (by omega) 0xfffff rfl
  have fieldW : ((w >>> 12) &&& 0xfffff).toNat = _ := toNat_field w 12 20 (by omega) 0xfffff rfl
  simp only [readU, UFields.mk.injEq, ← UInt32.toNat_inj, toNat_opcodeOf, toNat_rdOf, fieldV,
    fieldW] at same
  obtain ⟨opcode, rd, imm⟩ := same
  rw [← UInt32.toNat_inj, sum_upper v.toNat_lt, opcode, rd, imm]
  exact (sum_upper w.toNat_lt).symm

variable {f : UFields} (opcode : f.opcode.toNat < 2 ^ 7) (rd : f.rd.toNat < 2 ^ 5)
include opcode rd

theorem toNat_packU :
    (packU f).toNat = f.imm.toNat % 2 ^ 20 * 2 ^ 12 + f.rd.toNat * 2 ^ 7 + f.opcode.toNat := by
  have imm := toNat_low f.imm 20 0xfffff rfl
  have h0 : ((f.imm &&& 0xfffff) <<< 12).toNat = (f.imm &&& 0xfffff).toNat * 2 ^ 12 :=
    toNat_shiftLeft_of_lt 12 (by omega) (by omega)
  have h1 := toNat_or_shiftLeft 7 5 h0 (by omega) (by omega) rd
  rw [← imm]
  exact toNat_or_low 7 h1 (by omega) opcode

theorem readU_packU :
    readU (packU f) = { f with imm := UInt32.ofNat (f.imm.toNat % 2 ^ 20) } := by
  have word := toNat_packU opcode rd
  have field := toNat_field (packU f) 12 20 (by omega) 0xfffff rfl
  simp only [readU, UFields.mk.injEq, ← UInt32.toNat_inj, toNat_opcodeOf, toNat_rdOf,
    UInt32.toNat_ofNat']
  exact ⟨by omega, by omega, field.trans (by omega)⟩

end Upper

section Jump

private theorem packJ_eq (f : UFields) :
    packJ f = (((f.imm >>> 20) &&& 0x1) <<< 31) ||| (((f.imm >>> 1) &&& 0x3ff) <<< 21)
      ||| (((f.imm >>> 11) &&& 0x1) <<< 20) ||| (((f.imm >>> 12) &&& 0xff) <<< 12)
      ||| (f.rd <<< 7) ||| f.opcode := by
  unfold packJ
  generalize ((f.imm >>> 20) &&& 0x1) <<< 31 = bit20
  generalize ((f.imm >>> 1) &&& 0x3ff) <<< 21 = bits1
  generalize ((f.imm >>> 11) &&& 0x1) <<< 20 = bit11
  generalize ((f.imm >>> 12) &&& 0xff) <<< 12 = bits12
  generalize f.rd <<< 7 = rd
  ac_rfl

private theorem readJ_imm_eq (w : UInt32) :
    (readJ w).imm = (((w >>> 31) &&& 0x1) <<< 20) ||| (((w >>> 12) &&& 0xff) <<< 12)
      ||| (((w >>> 20) &&& 0x1) <<< 11) ||| (((w >>> 21) &&& 0x3ff) <<< 1) := by
  unfold readJ
  generalize ((w >>> 31) &&& 0x1) <<< 20 = bit20
  generalize ((w >>> 12) &&& 0xff) <<< 12 = bits12
  generalize ((w >>> 20) &&& 0x1) <<< 11 = bit11
  generalize ((w >>> 21) &&& 0x3ff) <<< 1 = bits1
  ac_rfl

private theorem toNat_readJ_imm (w : UInt32) :
    (readJ w).imm.toNat = w.toNat / 2 ^ 31 % 2 ^ 1 * 2 ^ 20 + w.toNat / 2 ^ 12 % 2 ^ 8 * 2 ^ 12 +
      w.toNat / 2 ^ 20 % 2 ^ 1 * 2 ^ 11 + w.toNat / 2 ^ 21 % 2 ^ 10 * 2 ^ 1 := by
  have bit20 : ((w >>> 31) &&& 0x1).toNat = _ := toNat_field w 31 1 (by omega) 0x1 rfl
  have bits12 : ((w >>> 12) &&& 0xff).toNat = _ := toNat_field w 12 8 (by omega) 0xff rfl
  have bit11 : ((w >>> 20) &&& 0x1).toNat = _ := toNat_field w 20 1 (by omega) 0x1 rfl
  have bits1 : ((w >>> 21) &&& 0x3ff).toNat = _ := toNat_field w 21 10 (by omega) 0x3ff rfl
  have h0 : (((w >>> 31) &&& 0x1) <<< 20).toNat = ((w >>> 31) &&& 0x1).toNat * 2 ^ 20 :=
    toNat_shiftLeft_of_lt 20 (by omega) (by omega)
  have h1 := toNat_or_shiftLeft (v := (w >>> 12) &&& 0xff) 12 8 h0 (by omega) (by omega) (by omega)
  have h2 := toNat_or_shiftLeft (v := (w >>> 20) &&& 0x1) 11 1 h1 (by omega) (by omega) (by omega)
  have h3 := toNat_or_shiftLeft (v := (w >>> 21) &&& 0x3ff) 1 10 h2 (by omega) (by omega) (by omega)
  rw [readJ_imm_eq, ← bit20, ← bits12, ← bit11, ← bits1]
  exact h3

private theorem sum_jump {n : Nat} (bound : n < 2 ^ 32) :
    n = n / 2 ^ 31 % 2 ^ 1 * 2 ^ 31 + n / 2 ^ 21 % 2 ^ 10 * 2 ^ 21 + n / 2 ^ 20 % 2 ^ 1 * 2 ^ 20 +
      n / 2 ^ 12 % 2 ^ 8 * 2 ^ 12 + n / 2 ^ 7 % 2 ^ 5 * 2 ^ 7 + n % 2 ^ 7 := by
  omega

private theorem jump_imm_pieces {a b c d a' b' c' d' : Nat}
    (sum : a * 2 ^ 20 + b * 2 ^ 12 + c * 2 ^ 11 + d * 2 ^ 1 =
      a' * 2 ^ 20 + b' * 2 ^ 12 + c' * 2 ^ 11 + d' * 2 ^ 1)
    (hb : b < 2 ^ 8) (hc : c < 2 ^ 1) (hd : d < 2 ^ 10) (hb' : b' < 2 ^ 8) (hc' : c' < 2 ^ 1)
    (hd' : d' < 2 ^ 10) : a = a' ∧ b = b' ∧ c = c' ∧ d = d' := by
  omega

theorem readJ_injective {v w : UInt32} (same : readJ v = readJ w) : v = w := by
  have imm : (readJ v).imm.toNat = (readJ w).imm.toNat := by rw [same]
  rw [toNat_readJ_imm, toNat_readJ_imm] at imm
  obtain ⟨bit20, bits12, bit11, bits1⟩ := jump_imm_pieces imm (Nat.mod_lt _ (by decide))
    (Nat.mod_lt _ (by decide)) (Nat.mod_lt _ (by decide)) (Nat.mod_lt _ (by decide))
    (Nat.mod_lt _ (by decide)) (Nat.mod_lt _ (by decide))
  simp only [readJ, UFields.mk.injEq, ← UInt32.toNat_inj, toNat_opcodeOf, toNat_rdOf] at same
  obtain ⟨opcode, rd, _⟩ := same
  rw [← UInt32.toNat_inj, sum_jump v.toNat_lt, opcode, rd, bit20, bits12, bit11, bits1]
  exact (sum_jump w.toNat_lt).symm

private theorem jump_slots_of_sum {n a b c d e o : Nat}
    (sum : n = a * 2 ^ 31 + b * 2 ^ 21 + c * 2 ^ 20 + d * 2 ^ 12 + e * 2 ^ 7 + o)
    (ha : a < 2 ^ 1) (hb : b < 2 ^ 10) (hc : c < 2 ^ 1) (hd : d < 2 ^ 8) (he : e < 2 ^ 5)
    (ho : o < 2 ^ 7) :
    n / 2 ^ 31 % 2 ^ 1 = a ∧ n / 2 ^ 21 % 2 ^ 10 = b ∧ n / 2 ^ 20 % 2 ^ 1 = c ∧
      n / 2 ^ 12 % 2 ^ 8 = d ∧ n / 2 ^ 7 % 2 ^ 5 = e ∧ n % 2 ^ 7 = o := by
  omega

variable {f : UFields} (opcode : f.opcode.toNat < 2 ^ 7) (rd : f.rd.toNat < 2 ^ 5)
include opcode rd

theorem toNat_packJ :
    (packJ f).toNat = f.imm.toNat / 2 ^ 20 % 2 ^ 1 * 2 ^ 31 + f.imm.toNat / 2 ^ 1 % 2 ^ 10 * 2 ^ 21 +
      f.imm.toNat / 2 ^ 11 % 2 ^ 1 * 2 ^ 20 + f.imm.toNat / 2 ^ 12 % 2 ^ 8 * 2 ^ 12 +
      f.rd.toNat * 2 ^ 7 + f.opcode.toNat := by
  have bit20 : ((f.imm >>> 20) &&& 0x1).toNat = _ := toNat_field f.imm 20 1 (by omega) 0x1 rfl
  have bits1 : ((f.imm >>> 1) &&& 0x3ff).toNat = _ := toNat_field f.imm 1 10 (by omega) 0x3ff rfl
  have bit11 : ((f.imm >>> 11) &&& 0x1).toNat = _ := toNat_field f.imm 11 1 (by omega) 0x1 rfl
  have bits12 : ((f.imm >>> 12) &&& 0xff).toNat = _ := toNat_field f.imm 12 8 (by omega) 0xff rfl
  have h0 : (((f.imm >>> 20) &&& 0x1) <<< 31).toNat = ((f.imm >>> 20) &&& 0x1).toNat * 2 ^ 31 :=
    toNat_shiftLeft_of_lt 31 (by omega) (by omega)
  have h1 := toNat_or_shiftLeft (v := (f.imm >>> 1) &&& 0x3ff) 21 10 h0 (by omega) (by omega)
    (by omega)
  have h2 := toNat_or_shiftLeft (v := (f.imm >>> 11) &&& 0x1) 20 1 h1 (by omega) (by omega)
    (by omega)
  have h3 := toNat_or_shiftLeft (v := (f.imm >>> 12) &&& 0xff) 12 8 h2 (by omega) (by omega)
    (by omega)
  have h4 := toNat_or_shiftLeft 7 5 h3 (by omega) (by omega) rd
  rw [packJ_eq, ← bit20, ← bits1, ← bit11, ← bits12]
  exact toNat_or_low 7 h4 (by omega) opcode

theorem readJ_packJ :
    readJ (packJ f) = { f with imm := UInt32.ofNat (f.imm.toNat % 2 ^ 21 / 2 * 2) } := by
  obtain ⟨h20, h1, h11, h12, hrd, hop⟩ := jump_slots_of_sum (toNat_packJ opcode rd)
    (by omega) (by omega) (by omega) (by omega) rd opcode
  have imm : (readJ (packJ f)).imm = UInt32.ofNat (f.imm.toNat % 2 ^ 21 / 2 * 2) := by
    rw [← UInt32.toNat_inj, UInt32.toNat_ofNat', toNat_readJ_imm, h20, h1, h11, h12]
    clear h20 h1 h11 h12 hrd hop
    omega
  simp only [← imm]
  simp only [readJ, UFields.mk.injEq, ← UInt32.toNat_inj, toNat_opcodeOf, toNat_rdOf]
  exact ⟨hop, hrd, trivial⟩

end Jump

end Rv32Asm.Word
