import Mathlib.Algebra.Group.Nat.Defs
import Mathlib.Data.Nat.Init

/-!
# Little-endian integers

Integers as they lie in memory, least significant byte first.  A value of `n` bytes written and
read again is the same, whatever stands after it.
-/

namespace ObHtap

/-- The `n` low bytes of a number. -/
def leBytes : Nat → Nat → List UInt8
  | 0, _ => []
  | n + 1, x => UInt8.ofNat x :: leBytes n (x / 256)

/-- The number that the bytes stand for. -/
def leNat : List UInt8 → Nat
  | [] => 0
  | b :: bytes => b.toNat + 256 * leNat bytes

@[simp] theorem length_leBytes (n x : Nat) : (leBytes n x).length = n := by
  induction n generalizing x with
  | zero => rfl
  | succ n ih => simp [leBytes, ih]

theorem leNat_leBytes (n x : Nat) : leNat (leBytes n x) = x % 256 ^ n := by
  induction n generalizing x with
  | zero => simp [leBytes, leNat, Nat.mod_one]
  | succ n ih =>
    rw [leBytes, leNat, ih, Nat.pow_succ, Nat.mul_comm (256 ^ n), Nat.mod_mul]
    rfl

theorem leNat_lt (bytes : List UInt8) : leNat bytes < 256 ^ bytes.length := by
  induction bytes with
  | nil => simp [leNat]
  | cons b bytes ih =>
    have hb := b.toNat_lt
    rw [leNat, List.length_cons, Nat.pow_succ]
    omega

theorem leBytes_leNat (bytes : List UInt8) : leBytes bytes.length (leNat bytes) = bytes := by
  induction bytes with
  | nil => rfl
  | cons b bytes ih =>
    have hb := b.toNat_lt
    have hlow : UInt8.ofNat (b.toNat + 256 * leNat bytes) = b := by
      apply UInt8.toNat_inj.mp
      rw [UInt8.toNat_ofNat']
      omega
    have hhigh : (b.toNat + 256 * leNat bytes) / 256 = leNat bytes := by omega
    rw [List.length_cons, leNat, leBytes, hlow, hhigh, ih]

/-- `int32_t` in memory. -/
def int32Bytes (x : Int32) : List UInt8 := leBytes 4 x.toBitVec.toNat

def bytesInt32 (bytes : List UInt8) : Int32 := Int32.ofBitVec (BitVec.ofNat 32 (leNat bytes))

/-- `int64_t` in memory. -/
def int64Bytes (x : Int64) : List UInt8 := leBytes 8 x.toBitVec.toNat

def bytesInt64 (bytes : List UInt8) : Int64 := Int64.ofBitVec (BitVec.ofNat 64 (leNat bytes))

@[simp] theorem length_int32Bytes (x : Int32) : (int32Bytes x).length = 4 := length_leBytes _ _

@[simp] theorem length_int64Bytes (x : Int64) : (int64Bytes x).length = 8 := length_leBytes _ _

@[simp] theorem bytesInt32_int32Bytes (x : Int32) : bytesInt32 (int32Bytes x) = x := by
  have hlt : x.toBitVec.toNat < 256 ^ 4 := x.toBitVec.isLt
  unfold bytesInt32 int32Bytes
  rw [leNat_leBytes, Nat.mod_eq_of_lt hlt, BitVec.ofNat_toNat, BitVec.setWidth_eq,
    Int32.ofBitVec_toBitVec]

@[simp] theorem bytesInt64_int64Bytes (x : Int64) : bytesInt64 (int64Bytes x) = x := by
  have hlt : x.toBitVec.toNat < 256 ^ 8 := x.toBitVec.isLt
  unfold bytesInt64 int64Bytes
  rw [leNat_leBytes, Nat.mod_eq_of_lt hlt, BitVec.ofNat_toNat, BitVec.setWidth_eq,
    Int64.ofBitVec_toBitVec]

theorem int32Bytes_bytesInt32 {bytes : List UInt8} (h : bytes.length = 4) :
    int32Bytes (bytesInt32 bytes) = bytes := by
  have hlt := leNat_lt bytes
  unfold int32Bytes bytesInt32
  rw [Int32.toBitVec_ofBitVec, BitVec.toNat_ofNat, Nat.mod_eq_of_lt (by rwa [h] at hlt)]
  exact h ▸ leBytes_leNat bytes

theorem int64Bytes_bytesInt64 {bytes : List UInt8} (h : bytes.length = 8) :
    int64Bytes (bytesInt64 bytes) = bytes := by
  have hlt := leNat_lt bytes
  unfold int64Bytes bytesInt64
  rw [Int64.toBitVec_ofBitVec, BitVec.toNat_ofNat, Nat.mod_eq_of_lt (by rwa [h] at hlt)]
  exact h ▸ leBytes_leNat bytes

end ObHtap
