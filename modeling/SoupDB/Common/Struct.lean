import SoupDB.Common.Pack
import SoupDB.Lib.Effect
import SoupDB.Lib.Region

/-!
# Fields of fixed size in byte buffers

`Struct α` packs a value in so many bytes and unpacks what was packed.  Structs are built of
fields: one after the other (`Struct.pair`), and so many of one kind (`Struct.times`).

What `packInto` writes at an offset of a buffer is read there by `unpackFrom`, and what is
read beside it stays (`unpack_pack_into`, `unpack_splice_of_disjoint`).
-/

namespace SoupDB

open Pack

/-- `struct.Struct` of a format without alignment. -/
structure Struct (α : Type) where
  size : Nat
  /-- There are as many values as fields. -/
  counts : α → Bool
  pack : α → Except PyError Bytes
  unpack : Bytes → α
  packed : ∀ {a : α} {data : Bytes}, pack a = .ok data →
    counts a = true ∧ data.length = size ∧ unpack data = a

namespace Struct

variable {α β : Type}

/-! ## Fields -/

/-- A signed field: `i` of four bytes, `q` of eight. -/
def signed (k : Nat) (hk : 0 < k) : Struct Int where
  size := k
  counts _ := true
  pack := packI k
  unpack := unpackI k
  packed h := ⟨rfl, length_packI h, unpackI_of_packI hk h⟩

/-- An unsigned field: `B` of one byte, `H` of two, `I` of four, `Q` of eight. -/
def unsigned (k : Nat) : Struct Nat where
  size := k
  counts _ := true
  pack := packU k
  unpack := unpackLE
  packed h := ⟨rfl, length_packU h, unpackLE_of_packU h⟩

/-- A byte string of this length. -/
def raw (k : Nat) : Struct Bytes where
  size := k
  counts _ := true
  pack data := if data.length = k then .ok data else .error (.StructError "bad length")
  unpack data := data
  packed := by
    intro a data h
    split at h
    · next hlength =>
        cases h
        exact ⟨rfl, hlength, rfl⟩
    · cases h

/-- The bit pattern of a FLOAT of four bytes: `f`. -/
def float32 : Struct UInt32 where
  size := 4
  counts _ := true
  pack bits := .ok (packLE 4 bits.toNat)
  unpack data := UInt32.ofNat (unpackLE data)
  packed := by
    intro a data h
    cases h
    refine ⟨rfl, length_packLE 4 _, ?_⟩
    rw [unpackLE_packLE 4 _ a.toNat_lt, UInt32.ofNat_toNat]

/-- The bit pattern of a FLOAT of eight bytes: `d`. -/
def float64 : Struct UInt64 where
  size := 8
  counts _ := true
  pack bits := .ok (packLE 8 bits.toNat)
  unpack data := UInt64.ofNat (unpackLE data)
  packed := by
    intro a data h
    cases h
    refine ⟨rfl, length_packLE 8 _, ?_⟩
    rw [unpackLE_packLE 8 _ a.toNat_lt, UInt64.ofNat_toNat]

/-- The fields of the one, then those of the other. -/
def pair (S : Struct α) (T : Struct β) : Struct (α × β) where
  size := S.size + T.size
  counts ab := S.counts ab.1 && T.counts ab.2
  pack ab := do
    let first ← S.pack ab.1
    let rest ← T.pack ab.2
    .ok (first ++ rest)
  unpack data := (S.unpack (data.take S.size), T.unpack (data.drop S.size))
  packed := by
    intro ab data h
    obtain ⟨first, hfirst, h⟩ := bind_eq_ok.mp h
    obtain ⟨rest, hrest, h⟩ := bind_eq_ok.mp h
    cases h
    obtain ⟨hcounts, hlength, hunpack⟩ := S.packed hfirst
    obtain ⟨hcounts', hlength', hunpack'⟩ := T.packed hrest
    refine ⟨by rw [hcounts, hcounts', Bool.and_self], by rw [List.length_append, hlength, hlength'],
      ?_⟩
    rw [List.take_left' hlength, List.drop_left' hlength, hunpack, hunpack']

/-- The bytes of one field the other way round: the most significant byte first. -/
def reversed (S : Struct α) : Struct α where
  size := S.size
  counts := S.counts
  pack a := (S.pack a).map List.reverse
  unpack data := S.unpack data.reverse
  packed := by
    intro a data h
    cases hpack : S.pack a with
    | error e =>
        rw [hpack] at h
        cases h
    | ok bytes =>
        rw [hpack] at h
        cases h
        obtain ⟨hcounts, hlength, hunpack⟩ := S.packed hpack
        exact ⟨hcounts, by rw [List.length_reverse, hlength], by rw [List.reverse_reverse, hunpack]⟩

def record (S : Struct α) (make : α → β) (fields : β → α) (h : ∀ b, make (fields b) = b) :
    Struct β where
  size := S.size
  counts b := S.counts (fields b)
  pack b := S.pack (fields b)
  unpack data := make (S.unpack data)
  packed := by
    intro b data hpack
    obtain ⟨hcounts, hlength, hunpack⟩ := S.packed hpack
    exact ⟨hcounts, hlength, by rw [hunpack, h]⟩

/-- The bytes of so many fields. -/
def packs (S : Struct α) : Nat → List α → Except PyError Bytes
  | 0, [] => .ok []
  | n + 1, a :: as => do
      let first ← S.pack a
      let rest ← packs S n as
      .ok (first ++ rest)
  | _, _ => .error (.StructError "bad number of values")

def unpacks (S : Struct α) : Nat → Bytes → List α
  | 0, _ => []
  | n + 1, data => S.unpack (data.take S.size) :: unpacks S n (data.drop S.size)

theorem packs_ok (S : Struct α) {n : Nat} {as : List α} {data : Bytes}
    (h : S.packs n as = .ok data) :
    decide (as.length = n) = true ∧ data.length = n * S.size ∧ S.unpacks n data = as := by
  induction n generalizing as data with
  | zero =>
      cases as with
      | nil =>
          cases h
          exact ⟨rfl, by simp, rfl⟩
      | cons a as => cases h
  | succ n ih =>
      cases as with
      | nil => cases h
      | cons a as =>
          rw [packs] at h
          obtain ⟨first, hfirst, h⟩ := bind_eq_ok.mp h
          obtain ⟨rest, hrest, h⟩ := bind_eq_ok.mp h
          cases h
          obtain ⟨-, hlength, hunpack⟩ := S.packed hfirst
          obtain ⟨hcounts, hlength', hunpack'⟩ := ih hrest
          refine ⟨?_, ?_, ?_⟩
          · rw [List.length_cons, of_decide_eq_true hcounts, decide_eq_true_eq]
          · rw [List.length_append, hlength, hlength', Nat.succ_mul, Nat.add_comm]
          · rw [unpacks, List.take_left' hlength, List.drop_left' hlength, hunpack, hunpack']

/-- So many fields of one kind. -/
def times (S : Struct α) (n : Nat) : Struct (List α) where
  size := n * S.size
  counts as := as.length = n
  pack := S.packs n
  unpack := S.unpacks n
  packed := S.packs_ok

/-! ## The values that fit -/

/-- The value can be packed. -/
def Fits (S : Struct α) (a : α) : Prop := ∃ data, S.pack a = .ok data

/-- Packing decides it. -/
instance (S : Struct α) (a : α) : Decidable (S.Fits a) :=
  match h : S.pack a with
  | .ok data => .isTrue ⟨data, h⟩
  | .error _ => .isFalse fun ⟨_, h'⟩ => nomatch h.symm.trans h'

section Fits

variable {S : Struct α} {T : Struct β}

@[simp] theorem fits_signed {k : Nat} {hk : 0 < k} {z : Int} :
    (signed k hk).Fits z ↔ -((256 ^ k / 2 : Nat) : Int) ≤ z ∧ z < ((256 ^ k / 2 : Nat) : Int) :=
  packI_ok_iff

@[simp] theorem fits_unsigned {k n : Nat} : (unsigned k).Fits n ↔ n < 256 ^ k := by
  refine ⟨fun ⟨data, h⟩ => (packU_eq_ok.mp h).1, fun h => ?_⟩
  exact ⟨_, packU_eq_ok.mpr ⟨h, rfl⟩⟩

@[simp] theorem fits_raw {k : Nat} {data : Bytes} : (raw k).Fits data ↔ data.length = k := by
  refine ⟨fun ⟨bytes, h⟩ => ?_, fun h => ⟨data, if_pos h⟩⟩
  obtain ⟨-, hlength, rfl⟩ := (raw k).packed h
  exact hlength

@[simp] theorem fits_pair {a : α} {b : β} :
    (S.pair T).Fits (a, b) ↔ S.Fits a ∧ T.Fits b := by
  constructor
  · rintro ⟨data, h⟩
    obtain ⟨first, hfirst, h⟩ := bind_eq_ok.mp h
    obtain ⟨rest, hrest, -⟩ := bind_eq_ok.mp h
    exact ⟨⟨first, hfirst⟩, ⟨rest, hrest⟩⟩
  · rintro ⟨⟨first, hfirst⟩, ⟨rest, hrest⟩⟩
    refine ⟨first ++ rest, bind_eq_ok.mpr ⟨first, hfirst, bind_eq_ok.mpr ⟨rest, hrest, rfl⟩⟩⟩

@[simp] theorem fits_reversed {a : α} : S.reversed.Fits a ↔ S.Fits a := by
  have hpack : S.reversed.pack a = (S.pack a).map List.reverse := rfl
  rw [Fits, Fits, hpack]
  cases S.pack a with
  | ok data => exact iff_of_true ⟨_, rfl⟩ ⟨_, rfl⟩
  | error e => exact iff_of_false (fun ⟨_, h⟩ => nomatch h) (fun ⟨_, h⟩ => nomatch h)

@[simp] theorem fits_record {make : α → β} {fields : β → α} {h : ∀ b, make (fields b) = b}
    {b : β} : (S.record make fields h).Fits b ↔ S.Fits (fields b) := Iff.rfl

@[simp] theorem fits_times {n : Nat} {as : List α} :
    (S.times n).Fits as ↔ as.length = n ∧ ∀ a ∈ as, S.Fits a := by
  induction as generalizing n with
  | nil =>
      cases n with
      | zero => exact ⟨fun _ => ⟨rfl, by simp⟩, fun _ => ⟨[], rfl⟩⟩
      | succ n => exact ⟨fun ⟨_, h⟩ => (by cases h), fun h => (by cases h.1)⟩
  | cons a as ih =>
      cases n with
      | zero => exact ⟨fun ⟨_, h⟩ => (by cases h), fun h => (by cases h.1)⟩
      | succ n =>
          have hstep : (S.times (n + 1)).Fits (a :: as) ↔ S.Fits a ∧ (S.times n).Fits as :=
            fits_pair (S := S) (T := S.times n)
          rw [hstep, ih, List.length_cons, Nat.succ_inj, List.forall_mem_cons]
          tauto

end Fits

/-! ## Buffers -/

/-- `S.pack_into(buffer, offset, a)`: the buffer with the value in it. -/
def packInto (S : Struct α) (offset : Nat) (a : α) (buffer : Bytes) : Except PyError Bytes :=
  if S.counts a = false then
    .error (.StructError "pack_into expected another number of items")
  else if buffer.length < offset + S.size then
    .error (.StructError s!"pack_into requires a buffer of at least {offset + S.size} bytes")
  else do
    let data ← S.pack a
    .ok (splice buffer offset data)

/-- `S.unpack_from(buffer, offset)`. -/
def unpackFrom (S : Struct α) (offset : Nat) (buffer : Bytes) : Except PyError α :=
  if buffer.length < offset + S.size then
    .error (.StructError s!"unpack_from requires a buffer of at least {offset + S.size} bytes")
  else .ok (S.unpack (slice buffer offset (offset + S.size)))

section Buffers

variable {S : Struct α} {T : Struct β} {offset offset' : Nat} {a : α} {b : β}
  {buffer data : Bytes}

theorem pack_into_of_fits (hroom : offset + S.size ≤ buffer.length) (h : S.pack a = .ok data) :
    S.packInto offset a buffer = .ok (splice buffer offset data) := by
  rw [packInto, if_neg (by rw [(S.packed h).1]; simp), if_neg (by omega), h, ok_bind]

theorem unpack_pack_into (hroom : offset + S.size ≤ buffer.length) (h : S.pack a = .ok data) :
    S.unpackFrom offset (splice buffer offset data) = .ok a := by
  obtain ⟨-, hlength, hunpack⟩ := S.packed h
  rw [unpackFrom, length_splice (by omega), if_neg (by omega), ← hlength,
    slice_splice_self (by omega), hunpack]

theorem unpack_from_append {before after : Bytes} (hoffset : offset = before.length)
    (h : S.pack a = .ok data) : S.unpackFrom offset (before ++ (data ++ after)) = .ok a := by
  obtain ⟨-, hlength, hunpack⟩ := S.packed h
  have hslice : slice (before ++ (data ++ after)) offset (offset + S.size) = data := by
    rw [← List.append_assoc]
    exact slice_append hoffset (by omega)
  rw [unpackFrom, if_neg (by simp only [List.length_append]; omega), hslice, hunpack]

/-- What stands beside the bytes that are overwritten stays. -/
theorem unpack_splice_of_disjoint (hroom : offset + data.length ≤ buffer.length)
    (hread : T.unpackFrom offset' buffer = .ok b)
    (hdisjoint : offset' + T.size ≤ offset ∨ offset + data.length ≤ offset') :
    T.unpackFrom offset' (splice buffer offset data) = .ok b := by
  rw [unpackFrom] at hread ⊢
  rw [length_splice hroom]
  split at hread
  · cases hread
  · next hin =>
      rw [if_neg hin, slice_splice_of_disjoint hroom (by omega)]
      exact hread

theorem unpack_first {ab : α × β} (h : (S.pair T).unpackFrom offset buffer = .ok ab) :
    S.unpackFrom offset buffer = .ok ab.1 := by
  rw [unpackFrom] at h ⊢
  split at h
  · cases h
  · next hin =>
      cases h
      have hsize : (S.pair T).size = S.size + T.size := rfl
      rw [hsize] at hin
      rw [if_neg (by omega), hsize]
      have htake : (slice buffer offset (offset + (S.size + T.size))).take S.size =
          slice buffer offset (offset + S.size) := by
        rw [slice, slice, List.take_take]
        congr 1
        omega
      show _ = Except.ok (S.unpack _)
      rw [htake]

end Buffers

end Struct

end SoupDB
