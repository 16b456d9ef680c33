import SoupDB.Common.Value
import SoupDB.Lib.Except

/-!
# SoupDB: fixed-width binary fields

The `struct` formats the page codecs use: little-endian unsigned and signed
integers of a fixed number of bytes.  Packing checks the range of the value and
raises `struct.error` outside it; unpacking inverts packing.  The readers take a
prefix of the bytes that are left, as the codecs do by advancing an offset.
-/

namespace SoupDB

/-- A byte string. -/
abbrev Bytes := List UInt8

namespace Pack

/-- The `k` low-order bytes of `n`, least significant first. -/
def packLE : Nat → Nat → Bytes
  | 0, _ => []
  | k + 1, n => UInt8.ofNat (n % 256) :: packLE k (n / 256)

/-- The number a byte string denotes, least significant byte first. -/
def unpackLE : Bytes → Nat
  | [] => 0
  | b :: bs => b.toNat + 256 * unpackLE bs

@[simp] theorem length_packLE (k n : Nat) : (packLE k n).length = k := by
  induction k generalizing n with
  | zero => rfl
  | succ k ih => simp [packLE, ih]

theorem unpackLE_packLE (k n : Nat) (h : n < 256 ^ k) : unpackLE (packLE k n) = n := by
  induction k generalizing n with
  | zero =>
      simp only [pow_zero, Nat.lt_one_iff] at h
      simp [packLE, unpackLE, h]
  | succ k ih =>
      have hdiv : n / 256 < 256 ^ k := by
        rw [Nat.div_lt_iff_lt_mul (by omega)]
        rw [pow_succ] at h
        exact h
      simp only [packLE, unpackLE, ih (n / 256) hdiv]
      have hbyte : (UInt8.ofNat (n % 256)).toNat = n % 256 := by simp
      rw [hbyte]
      omega

theorem unpackLE_lt (bs : Bytes) : unpackLE bs < 256 ^ bs.length := by
  induction bs with
  | nil => simp [unpackLE]
  | cons b bs ih =>
      have hbyte := b.toNat_lt
      rw [unpackLE, List.length_cons, pow_succ]
      omega

/-- Packing the number that a byte string denotes gives the bytes back. -/
theorem packLE_unpackLE (bs : Bytes) : packLE bs.length (unpackLE bs) = bs := by
  induction bs with
  | nil => rfl
  | cons b bs ih =>
      have hbyte : b.toNat < 256 := b.toNat_lt
      have hmod : (b.toNat + 256 * unpackLE bs) % 256 = b.toNat := by omega
      have hdiv : (b.toNat + 256 * unpackLE bs) / 256 = unpackLE bs := by omega
      simp only [List.length_cons, packLE, unpackLE, hmod, hdiv, ih]
      simp

/-- An unsigned field of `k` bytes. -/
def packU (k n : Nat) : Except PyError Bytes :=
  if n < 256 ^ k then .ok (packLE k n)
  else .error (.StructError "argument out of range")

/-- The two's complement representation of `i` in `k` bytes, as a natural number. -/
def twosComplement (k : Nat) (i : Int) : Nat := (i % (256 ^ k : Nat)).toNat

/-- A signed field of `k` bytes. -/
def packI (k : Nat) (i : Int) : Except PyError Bytes :=
  if -((256 ^ k / 2 : Nat) : Int) ≤ i ∧ i < ((256 ^ k / 2 : Nat) : Int) then
    .ok (packLE k (twosComplement k i))
  else .error (.StructError "argument out of range")

/-- The signed number that `k` bytes denote. -/
def unpackI (k : Nat) (bs : Bytes) : Int :=
  if unpackLE bs < 256 ^ k / 2 then (unpackLE bs : Int)
  else (unpackLE bs : Int) - (256 ^ k : Nat)

variable {k : Nat} {bs : Bytes}

theorem length_packU {n : Nat} (h : packU k n = .ok bs) : bs.length = k := by
  unfold packU at h
  split at h
  · cases h
    exact length_packLE k n
  · cases h

theorem unpackLE_of_packU {n : Nat} (h : packU k n = .ok bs) : unpackLE bs = n := by
  unfold packU at h
  split at h
  · next hn =>
      cases h
      exact unpackLE_packLE k n hn
  · cases h

theorem packU_eq_ok {n : Nat} : packU k n = .ok bs ↔ n < 256 ^ k ∧ bs = packLE k n := by
  unfold packU
  split
  · next h => simp [h, eq_comm]
  · next h => simp [h]

theorem length_packI {i : Int} (h : packI k i = .ok bs) : bs.length = k := by
  unfold packI at h
  split at h
  · cases h
    exact length_packLE k _
  · cases h

theorem packI_ok_iff {i : Int} :
    (∃ bs, packI k i = .ok bs) ↔
      -((256 ^ k / 2 : Nat) : Int) ≤ i ∧ i < ((256 ^ k / 2 : Nat) : Int) := by
  unfold packI
  split <;> simp_all

/-- Unpacking a packed signed field gives the number back. -/
theorem unpackI_of_packI {i : Int} (hk : 0 < k) (h : packI k i = .ok bs) : unpackI k bs = i := by
  have hrange := packI_ok_iff.mp ⟨bs, h⟩
  have heven : 256 ^ k / 2 * 2 = 256 ^ k := by
    obtain ⟨j, rfl⟩ := Nat.exists_eq_succ_of_ne_zero hk.ne'
    rw [pow_succ]
    omega
  have hpos : 0 < 256 ^ k := Nat.pow_pos (by omega)
  unfold packI at h
  rw [if_pos hrange] at h
  cases h
  have hbound : twosComplement k i < 256 ^ k := by
    unfold twosComplement
    have hlt := Int.emod_lt_of_pos i (b := ((256 ^ k : Nat) : Int)) (by exact_mod_cast hpos)
    have hnn := Int.emod_nonneg i (b := ((256 ^ k : Nat) : Int)) (by exact_mod_cast hpos.ne')
    omega
  unfold unpackI
  rw [unpackLE_packLE k _ hbound]
  unfold twosComplement at hbound ⊢
  generalize 256 ^ k = m at *
  by_cases hi : 0 ≤ i
  · have hmod : i % (m : Int) = i := Int.emod_eq_of_lt hi (by omega)
    rw [hmod, if_pos (by omega)]
    omega
  · have hmod : i % (m : Int) = i + m := by
      rw [← Int.add_emod_right]
      exact Int.emod_eq_of_lt (by omega) (by omega)
    rw [hmod, if_neg (by omega)]
    omega

/-- The number that a field of `k` bytes denotes is in the range of the field. -/
theorem unpackI_range (hk : 0 < k) (h : bs.length = k) :
    -((256 ^ k / 2 : Nat) : Int) ≤ unpackI k bs ∧ unpackI k bs < ((256 ^ k / 2 : Nat) : Int) := by
  have hlt := unpackLE_lt bs
  rw [h] at hlt
  have heven : 256 ^ k / 2 * 2 = 256 ^ k := by
    obtain ⟨j, rfl⟩ := Nat.exists_eq_succ_of_ne_zero hk.ne'
    rw [pow_succ]
    omega
  unfold unpackI
  generalize 256 ^ k = m at *
  split <;> omega

/-- Packing an unpacked signed field gives the bytes back. -/
theorem packI_unpackI (hk : 0 < k) (h : bs.length = k) : packI k (unpackI k bs) = .ok bs := by
  have hlt := unpackLE_lt bs
  rw [h] at hlt
  have hcomplement : twosComplement k (unpackI k bs) = unpackLE bs := by
    unfold twosComplement unpackI
    generalize 256 ^ k = m at *
    split
    · rw [Int.emod_eq_of_lt (by omega) (by omega)]
      omega
    · rw [Int.sub_emod_right, Int.emod_eq_of_lt (by omega) (by omega)]
      omega
  rw [packI, if_pos (unpackI_range hk h), hcomplement]
  subst h
  rw [packLE_unpackLE]

/-- The next `n` bytes and the bytes after them. -/
def take (n : Nat) (data : Bytes) (message : String) : Except PyError (Bytes × Bytes) :=
  if n ≤ data.length then .ok (data.take n, data.drop n)
  else .error (.ValueError message)

theorem take_append {a b : Bytes} {n : Nat} (message : String) (h : a.length = n) :
    take n (a ++ b) message = .ok (a, b) := by
  unfold take
  rw [if_pos (by simp; omega)]
  subst h
  simp

end Pack
end SoupDB
