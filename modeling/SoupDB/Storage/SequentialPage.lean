import SoupDB.Storage.SlottedPage

/-!
# SoupDB: pages of sequential files

A page of a sequential file is a header (kind, next page, first overflow page) and a body,
which is a slotted page; -1 stands for no page.  The header links the main pages to a
chain, and every main page to the chain of its overflow pages.
-/

namespace SoupDB.SequentialPage

open Pack List

def HEADER_SIZE : Nat := 9
def MAIN : Nat := 0
def OVERFLOW : Nat := 1
def NONE_PAGE : Int := -1

def bodySize (pageSize : Int) : Int := pageSize - HEADER_SIZE

def readHeader (page : Bytes) : Except PyError (Nat × Int × Int) :=
  if HEADER_SIZE ≤ page.length then
    .ok (unpackLE (slice page 0 1), unpackI 4 (slice page 1 5), unpackI 4 (slice page 5 9))
  else .error (.StructError "unpack_from requires a larger buffer")

def writeHeader (page : Bytes) (kind : Nat) (nextId firstOverflow : Int) :
    Except PyError Bytes := do
  let kind ← packU 1 kind
  let nextId ← packI 4 nextId
  let firstOverflow ← packI 4 firstOverflow
  if HEADER_SIZE ≤ page.length then .ok (splice page 0 (kind ++ nextId ++ firstOverflow))
  else .error (.StructError "pack_into requires a larger buffer")

def body (page : Bytes) : Bytes := page.drop HEADER_SIZE

/-- The body is a view of the page: what is written to it is written to the page. -/
def withBody (page body : Bytes) : Bytes := page.take HEADER_SIZE ++ body

def newPage (pageSize : Nat) (kind : Nat) : Except PyError Bytes := do
  let page ← writeHeader (replicate pageSize 0) kind NONE_PAGE NONE_PAGE
  let body ← SlottedPage.newPage (bodySize pageSize)
  .ok (withBody page body)

def nextPageId (page : Bytes) : Except PyError (Option Int) := do
  let (_, value, _) ← readHeader page
  .ok (if value = NONE_PAGE then none else some value)

def setNextPageId (page : Bytes) (value : Int) : Except PyError Bytes := do
  let (kind, _, firstOverflow) ← readHeader page
  writeHeader page kind value firstOverflow

def firstOverflowPageId (page : Bytes) : Except PyError (Option Int) := do
  let (_, _, value) ← readHeader page
  .ok (if value = NONE_PAGE then none else some value)

def setFirstOverflowPageId (page : Bytes) (value : Int) : Except PyError Bytes := do
  let (kind, nextId, _) ← readHeader page
  writeHeader page kind nextId value

/-! ## Headers -/

structure HasHeader (page : Bytes) (kind : Nat) (nextId firstOverflow : Int) : Prop where
  length : HEADER_SIZE ≤ page.length
  read : readHeader page = .ok (kind, nextId, firstOverflow)
  kind_lt : kind < 256
  next_range : -2147483648 ≤ nextId ∧ nextId < 2147483648
  first_range : -2147483648 ≤ firstOverflow ∧ firstOverflow < 2147483648

section Headers

variable {page : Bytes} {kind : Nat} {nextId firstOverflow value : Int}

theorem packI_ok {i : Int} (h : -2147483648 ≤ i ∧ i < 2147483648) :
    ∃ bs, packI 4 i = .ok bs ∧ bs.length = 4 ∧ unpackI 4 bs = i := by
  obtain ⟨bs, hbs⟩ := packI_ok_iff.mpr (show -((256 ^ 4 / 2 : Nat) : Int) ≤ i ∧
    i < ((256 ^ 4 / 2 : Nat) : Int) from h)
  exact ⟨bs, hbs, length_packI hbs, unpackI_of_packI (by omega) hbs⟩

theorem write_header_ok (hlen : HEADER_SIZE ≤ page.length) (hkind : kind < 256)
    (hnext : -2147483648 ≤ nextId ∧ nextId < 2147483648)
    (hfirst : -2147483648 ≤ firstOverflow ∧ firstOverflow < 2147483648) :
    ∃ page', writeHeader page kind nextId firstOverflow = .ok page' ∧
      HasHeader page' kind nextId firstOverflow ∧ page'.length = page.length ∧
      body page' = body page := by
  obtain ⟨bs, hbs, hbslen, hbsval⟩ := packI_ok hnext
  obtain ⟨cs, hcs, hcslen, hcsval⟩ := packI_ok hfirst
  have hks : packU 1 kind = .ok (packLE 1 kind) := by
    rw [packU, if_pos (by simpa using hkind)]
  have hfields : (packLE 1 kind ++ bs ++ cs).length = 9 := by
    simp [hbslen, hcslen]
  have hsplice : splice page 0 (packLE 1 kind ++ bs ++ cs) =
      packLE 1 kind ++ bs ++ cs ++ page.drop 9 := by
    rw [splice, take_zero, nil_append, hfields]
  have hkslen : (packLE 1 kind).length = 1 := length_packLE 1 kind
  have hslice₀ : slice (packLE 1 kind ++ bs ++ cs ++ page.drop 9) 0 1 = packLE 1 kind := by
    rw [slice, drop_zero, append_assoc, append_assoc,
      take_left' (by rw [hkslen])]
  have hslice₁ : slice (packLE 1 kind ++ bs ++ cs ++ page.drop 9) 1 5 = bs := by
    rw [slice, append_assoc, append_assoc, drop_left' hkslen,
      take_left' (by rw [hbslen])]
  have hslice₂ : slice (packLE 1 kind ++ bs ++ cs ++ page.drop 9) 5 9 = cs := by
    rw [slice, append_assoc _ cs, drop_left' (by simp [hbslen]),
      take_left' (by rw [hcslen])]
  refine ⟨packLE 1 kind ++ bs ++ cs ++ page.drop 9, ?_, ⟨?_, ?_, hkind, hnext, hfirst⟩, ?_, ?_⟩
  · rw [writeHeader, hks, ok_bind, hbs, ok_bind, hcs, ok_bind, if_pos hlen, hsplice]
  · simp only [length_append, length_drop, hkslen, hbslen, hcslen, HEADER_SIZE]
    omega
  · rw [readHeader, if_pos, hslice₀, hslice₁, hslice₂, hbsval, hcsval,
      unpackLE_packLE 1 kind (by simpa using hkind)]
    simp only [length_append, length_drop, hkslen, hbslen, hcslen, HEADER_SIZE]
    omega
  · simp only [length_append, length_drop, hkslen, hbslen, hcslen]
    simp only [HEADER_SIZE] at hlen
    omega
  · rw [body, body, HEADER_SIZE, drop_left' hfields]

theorem length_with_body {body : Bytes} (hlen : HEADER_SIZE ≤ page.length) :
    (withBody page body).length = HEADER_SIZE + body.length := by
  rw [withBody, length_append, length_take, Nat.min_eq_left hlen]

theorem body_with_body {b : Bytes} (hlen : HEADER_SIZE ≤ page.length) :
    body (withBody page b) = b := by
  rw [body, withBody, drop_left' (by rw [length_take, Nat.min_eq_left hlen])]

namespace HasHeader

variable (h : HasHeader page kind nextId firstOverflow)
include h

theorem nextPageId : nextPageId page = .ok (if nextId = NONE_PAGE then none else some nextId) := by
  rw [SequentialPage.nextPageId, h.read, ok_bind]

theorem firstOverflowPageId :
    firstOverflowPageId page =
      .ok (if firstOverflow = NONE_PAGE then none else some firstOverflow) := by
  rw [SequentialPage.firstOverflowPageId, h.read, ok_bind]

theorem withBody (b : Bytes) : HasHeader (withBody page b) kind nextId firstOverflow := by
  have hlen : (SequentialPage.withBody page b).length = HEADER_SIZE + b.length :=
    length_with_body h.length
  have hslice : ∀ start stop, stop ≤ HEADER_SIZE →
      slice (SequentialPage.withBody page b) start stop = slice page start stop := by
    intro start stop hstop
    refine ext_getElem? ?_
    intro i
    have htake : (page.take HEADER_SIZE).length = HEADER_SIZE := by
      rw [length_take, Nat.min_eq_left h.length]
    rw [getElem?_slice, getElem?_slice]
    by_cases hi : i < stop - start
    · rw [if_pos hi, if_pos hi, SequentialPage.withBody,
        getElem?_append_left (by omega), getElem?_take, if_pos (by omega)]
    · rw [if_neg hi, if_neg hi]
  refine ⟨by omega, ?_, h.kind_lt, h.next_range, h.first_range⟩
  have hread := h.read
  rw [readHeader, if_pos h.length] at hread
  rw [readHeader, if_pos (by omega), hslice 0 1 (by decide), hslice 1 5 (by decide),
    hslice 5 9 (by decide)]
  exact hread

theorem setNextPageId (hvalue : -2147483648 ≤ value ∧ value < 2147483648) :
    ∃ page', setNextPageId page value = .ok page' ∧
      HasHeader page' kind value firstOverflow ∧ page'.length = page.length ∧
      body page' = body page := by
  rw [SequentialPage.setNextPageId, h.read, ok_bind]
  exact write_header_ok h.length h.kind_lt hvalue h.first_range

theorem setFirstOverflowPageId (hvalue : -2147483648 ≤ value ∧ value < 2147483648) :
    ∃ page', setFirstOverflowPageId page value = .ok page' ∧
      HasHeader page' kind nextId value ∧ page'.length = page.length ∧
      body page' = body page := by
  rw [SequentialPage.setFirstOverflowPageId, h.read, ok_bind]
  exact write_header_ok h.length h.kind_lt h.next_range hvalue

end HasHeader

theorem write_header_range {page' : Bytes}
    (h : writeHeader page kind nextId firstOverflow = .ok page') :
    (-2147483648 ≤ nextId ∧ nextId < 2147483648) ∧
      (-2147483648 ≤ firstOverflow ∧ firstOverflow < 2147483648) := by
  rw [writeHeader, bind_eq_ok] at h
  obtain ⟨_, _, h⟩ := h
  rw [bind_eq_ok] at h
  obtain ⟨bs, hbs, h⟩ := h
  rw [bind_eq_ok] at h
  obtain ⟨cs, hcs, _⟩ := h
  exact ⟨packI_ok_iff.mp ⟨bs, hbs⟩, packI_ok_iff.mp ⟨cs, hcs⟩⟩

end Headers

end SoupDB.SequentialPage
