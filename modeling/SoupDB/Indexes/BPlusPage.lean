import SoupDB.Indexes.KeyCodec

/-!
# SoupDB: binary page codec of the B+ tree

A B+ tree file holds three kinds of fixed-size pages: the metadata page with the
root and the first leaf, leaf pages with (key, RID) entries, and internal pages
with separators and children.  All share one header; the payload follows it and
zeros fill the page.

Main facts: a page that was encoded decodes to the node it was encoded from
(`decode_leaf_encode_leaf`, `decode_internal_encode_internal`,
`decode_metadata_encode_metadata`), and dropping entries of a leaf that fits in a
page leaves one that fits (`encode_leaf_sublist`).
-/

namespace SoupDB.BPlusPage

open KeyCodec Pack

/-- An entry of a leaf. -/
abbrev Entry := Value × RID

/-- `b"SBP1"`. -/
def MAGIC : Bytes := [83, 66, 80, 49]
def VERSION : UInt8 := 1
def PAGE_TYPE_METADATA : UInt8 := 0
def PAGE_TYPE_LEAF : UInt8 := 1
def PAGE_TYPE_INTERNAL : UInt8 := 2
def NONE_PAGE_ID : Int := -1
def HEADER_SIZE : Nat := 16

structure Metadata where
  rootPageId : Option Int
  firstLeafPageId : Option Int
deriving DecidableEq, Repr

structure LeafNode where
  parentPageId : Option Int
  nextLeafPageId : Option Int
  entries : List Entry
deriving Repr

structure InternalNode where
  parentPageId : Option Int
  keys : List Value
  children : List Int
deriving Repr

/-! ## Encoding -/

def encodePageId : Option Int → Except PyError Int
  | none => .ok NONE_PAGE_ID
  | some pageId =>
      if pageId < 0 then .error (.ValueError "page id must be non-negative")
      else .ok pageId

/-- `raise ValueError(message) from struct.error`. -/
def packInt32 (i : Int) (message : String) : Except PyError Bytes :=
  match packI 4 i with
  | .ok field => .ok field
  | .error _ => .error (.ValueError message)

def writeHeader (pageType : UInt8) (count : Nat) (firstPageId secondPageId : Option Int) :
    Except PyError Bytes := do
  if count > 0xFFFF then .error (.ValueError "too many entries for B+ page header")
  else do
    let first ← encodePageId firstPageId
    let second ← encodePageId secondPageId
    let firstField ← packInt32 first "page id is outside signed 32-bit range"
    let secondField ← packInt32 second "page id is outside signed 32-bit range"
    .ok (MAGIC ++ VERSION :: pageType :: (packLE 2 count ++ firstField ++ secondField))

/-- The check `_new_page` makes before it allocates the page. -/
def newPage (pageSize : Nat) : Except PyError Unit :=
  if pageSize < HEADER_SIZE then .error (.ValueError "page_size must be at least 16 bytes")
  else .ok ()

def ensureFits (pageSize payloadSize : Nat) : Except PyError Unit :=
  if HEADER_SIZE + payloadSize > pageSize then
    .error (.ValueError "B+ node does not fit in one page")
  else .ok ()

def fillPage (pageSize : Nat) (header payload : Bytes) : Bytes :=
  header ++ payload ++ List.replicate (pageSize - (HEADER_SIZE + payload.length)) 0

/-- Encode B+ tree metadata into one fixed-size page. -/
def encodeMetadata (pageSize : Nat) (rootPageId firstLeafPageId : Option Int) :
    Except PyError Bytes := do
  newPage pageSize
  let header ← writeHeader PAGE_TYPE_METADATA 0 rootPageId firstLeafPageId
  .ok (fillPage pageSize header [])

def encodeKeyField (key : Value) : Except PyError Bytes := do
  let encodedKey ← encodeKey key
  let length ← packU 4 encodedKey.length
  .ok (length ++ encodedKey)

def encodeEntries : List Entry → Except PyError Bytes
  | [] => .ok []
  | (key, rid) :: entries => do
      let keyField ← encodeKeyField key
      let pageId ← packInt32 rid.pageId "RID is outside signed 32-bit range"
      let slot ← packInt32 rid.slot "RID is outside signed 32-bit range"
      let rest ← encodeEntries entries
      .ok (keyField ++ pageId ++ slot ++ rest)

def encodeLeaf (pageSize : Nat) (node : LeafNode) : Except PyError Bytes := do
  newPage pageSize
  let payload ← encodeEntries node.entries
  ensureFits pageSize payload.length
  let header ← writeHeader PAGE_TYPE_LEAF node.entries.length node.parentPageId
    node.nextLeafPageId
  .ok (fillPage pageSize header payload)

def encodeChildren : List Value → List Int → Except PyError Bytes
  | key :: keys, childPageId :: children => do
      let keyField ← encodeKeyField key
      let child ← packInt32 childPageId "child page id is outside signed 32-bit range"
      let rest ← encodeChildren keys children
      .ok (keyField ++ child ++ rest)
  | _, _ => .ok []

def encodeInternal (pageSize : Nat) (node : InternalNode) : Except PyError Bytes :=
  if node.children.length ≠ node.keys.length + 1 then
    .error (.ValueError "internal node must have exactly one more child than keys")
  else
    match node.children with
    | [] => .error (.ValueError "internal node must have exactly one more child than keys")
    | first :: children => do
        let firstField ← packInt32 first "child page id is outside signed 32-bit range"
        let rest ← encodeChildren node.keys children
        ensureFits pageSize (firstField ++ rest).length
        newPage pageSize
        let header ← writeHeader PAGE_TYPE_INTERNAL node.keys.length node.parentPageId none
        .ok (fillPage pageSize header (firstField ++ rest))

/-! ## Decoding -/

def readHeader (page : Bytes) : Except PyError ((UInt8 × Nat × Int × Int) × Bytes) := do
  let (header, rest) ← take HEADER_SIZE page "truncated B+ page header"
  let magic := header.take 4
  let version := header.getD 4 0
  let pageTypeValue := header.getD 5 0
  let count := unpackLE ((header.drop 6).take 2)
  let firstPageId := unpackI 4 ((header.drop 8).take 4)
  let secondPageId := unpackI 4 ((header.drop 12).take 4)
  if magic ≠ MAGIC then .error (.ValueError "invalid B+ page magic")
  else if version ≠ VERSION then .error (.ValueError "unsupported B+ page version")
  else if pageTypeValue ≠ PAGE_TYPE_METADATA ∧ pageTypeValue ≠ PAGE_TYPE_LEAF ∧
      pageTypeValue ≠ PAGE_TYPE_INTERNAL then .error (.ValueError "unknown B+ page type")
  else .ok ((pageTypeValue, count, firstPageId, secondPageId), rest)

/-- Return the persisted B+ page type. -/
def pageType (page : Bytes) : Except PyError UInt8 := do
  let ((pageTypeValue, _), _) ← readHeader page
  .ok pageTypeValue

def decodePageId (pageId : Int) : Except PyError (Option Int) :=
  if pageId = NONE_PAGE_ID then .ok none
  else if pageId < 0 then .error (.ValueError "invalid negative page id")
  else .ok (some pageId)

def decodeMetadata (page : Bytes) : Except PyError Metadata := do
  let ((pageTypeValue, count, rootPageId, firstLeafPageId), _) ← readHeader page
  if pageTypeValue ≠ PAGE_TYPE_METADATA then .error (.ValueError "page is not B+ tree metadata")
  else if count ≠ 0 then .error (.ValueError "metadata page must have zero entries")
  else do
    let rootPageId ← decodePageId rootPageId
    let firstLeafPageId ← decodePageId firstLeafPageId
    .ok { rootPageId, firstLeafPageId }

def decodeKeyField (data : Bytes) (message : String) : Except PyError (Value × Bytes) := do
  let (field, data) ← take 4 data "truncated B+ entry length"
  let (encodedKey, data) ← take (unpackLE field) data message
  let key ← decodeKey encodedKey
  .ok (key, data)

def decodeEntries : Nat → Bytes → Except PyError (List Entry)
  | 0, _ => .ok []
  | count + 1, data => do
      let (key, data) ← decodeKeyField data "truncated leaf key"
      let (field, data) ← take 8 data "truncated leaf RID"
      let rid : RID :=
        { pageId := unpackI 4 (field.take 4), slot := unpackI 4 (field.drop 4) }
      let entries ← decodeEntries count data
      .ok ((key, rid) :: entries)

def decodeLeaf (page : Bytes) : Except PyError LeafNode := do
  let ((pageTypeValue, count, parentPageId, nextLeafPageId), data) ← readHeader page
  if pageTypeValue ≠ PAGE_TYPE_LEAF then .error (.ValueError "page is not a B+ tree leaf")
  else do
    let entries ← decodeEntries count data
    let parentPageId ← decodePageId parentPageId
    let nextLeafPageId ← decodePageId nextLeafPageId
    .ok { parentPageId, nextLeafPageId, entries }

def decodeChildren : Nat → Bytes → Except PyError (List Value × List Int)
  | 0, _ => .ok ([], [])
  | count + 1, data => do
      let (key, data) ← decodeKeyField data "truncated internal key"
      let (field, data) ← take 4 data "truncated internal child"
      let (keys, children) ← decodeChildren count data
      .ok (key :: keys, unpackI 4 field :: children)

def decodeInternal (page : Bytes) : Except PyError InternalNode := do
  let ((pageTypeValue, count, parentPageId, unused), data) ← readHeader page
  if pageTypeValue ≠ PAGE_TYPE_INTERNAL then
    .error (.ValueError "page is not a B+ tree internal node")
  else if unused ≠ NONE_PAGE_ID then
    .error (.ValueError "internal node contains invalid header data")
  else do
    let (first, data) ← take 4 data "truncated internal child"
    let (keys, children) ← decodeChildren count data
    let parentPageId ← decodePageId parentPageId
    .ok { parentPageId, keys, children := unpackI 4 first :: children }

/-! ## Decoding inverts encoding -/

variable {message : String} {pageId first second : Option Int} {t : UInt8} {count pageSize : Nat}
    {header page : Bytes} {node : LeafNode} {entries : List Entry} {e : PyError}

theorem packInt32_ok {i : Int} {field : Bytes} (h : packInt32 i message = .ok field) :
    packI 4 i = .ok field := by
  unfold packInt32 at h
  split at h
  · next hp => rw [hp, Except.ok.inj h]
  · cases h

theorem decodePageId_encodePageId {i : Int} (h : encodePageId pageId = .ok i) :
    decodePageId i = .ok pageId := by
  cases pageId with
  | none =>
      cases h
      rfl
  | some p =>
      simp only [encodePageId] at h
      split at h
      · cases h
      · next hp =>
          obtain rfl := Except.ok.inj h
          have hne : p ≠ NONE_PAGE_ID := by
            unfold NONE_PAGE_ID
            omega
          simp [decodePageId, hne, hp]

theorem readHeader_writeHeader
    (ht : t = PAGE_TYPE_METADATA ∨ t = PAGE_TYPE_LEAF ∨ t = PAGE_TYPE_INTERNAL)
    (h : writeHeader t count first second = .ok header) (rest : Bytes) :
    ∃ i j, encodePageId first = .ok i ∧ encodePageId second = .ok j ∧
      header.length = HEADER_SIZE ∧
      readHeader (header ++ rest) = .ok ((t, count, i, j), rest) := by
  unfold writeHeader at h
  split at h
  · cases h
  · next hcount =>
      simp only [bind_eq_ok, Except.ok.injEq] at h
      obtain ⟨i, hi, j, hj, fi, hfi, fj, hfj, rfl⟩ := h
      have hli := length_packI (packInt32_ok hfi)
      have hlj := length_packI (packInt32_ok hfj)
      have hlen : (MAGIC ++ VERSION :: t :: (packLE 2 count ++ fi ++ fj)).length
          = HEADER_SIZE := by
        simp [MAGIC, HEADER_SIZE, hli, hlj]
      refine ⟨i, j, hi, hj, hlen, ?_⟩
      have htype : ¬ (t ≠ PAGE_TYPE_METADATA ∧ t ≠ PAGE_TYPE_LEAF ∧ t ≠ PAGE_TYPE_INTERNAL) := by
        tauto
      unfold readHeader
      simp only [take_append _ hlen, ok_bind]
      obtain ⟨a, b, hab⟩ : ∃ a b, packLE 2 count = [a, b] := by
        exact ⟨_, _, rfl⟩
      have hcnt : unpackLE [a, b] = count := by
        rw [← hab]
        exact unpackLE_packLE 2 count (by omega)
      have hti : ((fi ++ fj).take 4) = fi := by simp [hli]
      have htj : ((fi ++ fj).drop 4) = fj := by simp [hli]
      have htj' : fj.take 4 = fj := List.take_of_length_le (by omega)
      have hmagic : (MAGIC ++ VERSION :: t :: ([a, b] ++ fi ++ fj)).take 4 = MAGIC := rfl
      have hdrop8 : (MAGIC ++ VERSION :: t :: ([a, b] ++ fi ++ fj)).drop 8 = fi ++ fj := rfl
      have hdrop12 : (MAGIC ++ VERSION :: t :: ([a, b] ++ fi ++ fj)).drop 12 = (fi ++ fj).drop 4 :=
        rfl
      have hcount2 : ((MAGIC ++ VERSION :: t :: ([a, b] ++ fi ++ fj)).drop 6).take 2 = [a, b] := rfl
      have hver : (MAGIC ++ VERSION :: t :: ([a, b] ++ fi ++ fj)).getD 4 0 = VERSION := rfl
      have htyp : (MAGIC ++ VERSION :: t :: ([a, b] ++ fi ++ fj)).getD 5 0 = t := rfl
      rw [hab]
      simp only [hmagic, hdrop8, hdrop12, hcount2, hver, htyp, hti, htj, htj', hcnt,
        unpackI_of_packI (by omega : 0 < 4) (packInt32_ok hfi),
        unpackI_of_packI (by omega : 0 < 4) (packInt32_ok hfj), htype, ne_eq,
        not_true_eq_false, if_false]

theorem decodeKeyField_encodeKeyField {key : Value} {field : Bytes} (message : String)
    (h : encodeKeyField key = .ok field) (rest : Bytes) :
    decodeKeyField (field ++ rest) message = .ok (key, rest) := by
  simp only [encodeKeyField, bind_eq_ok, Except.ok.injEq] at h
  obtain ⟨encoded, he, length, hl, rfl⟩ := h
  unfold decodeKeyField
  simp only [List.append_assoc, take_append _ (length_packU hl), ok_bind,
    unpackLE_of_packU hl, take_append _ rfl, decode_key_encode_key he]

theorem decodeEntries_encodeEntries : ∀ (entries : List Entry) (payload rest : Bytes),
    encodeEntries entries = .ok payload →
      decodeEntries entries.length (payload ++ rest) = .ok entries
  | [], _, _, _ => rfl
  | (key, rid) :: entries, payload, rest, h => by
      simp only [encodeEntries, bind_eq_ok, Except.ok.injEq] at h
      obtain ⟨kf, hk, p, hp, s, hs, body, hb, rfl⟩ := h
      have hlp := length_packI (packInt32_ok hp)
      have hls := length_packI (packInt32_ok hs)
      have hps : (p ++ s).length = 8 := by simp [hlp, hls]
      have htake : (p ++ s).take 4 = p := by simp [hlp]
      have hdrop : (p ++ s).drop 4 = s := by simp [hlp]
      have hbytes : kf ++ p ++ s ++ body ++ rest = kf ++ ((p ++ s) ++ (body ++ rest)) := by simp
      rw [hbytes, List.length_cons]
      simp only [decodeEntries, decodeKeyField_encodeKeyField _ hk, ok_bind,
        take_append _ hps, htake, hdrop,
        unpackI_of_packI (by omega : 0 < 4) (packInt32_ok hp),
        unpackI_of_packI (by omega : 0 < 4) (packInt32_ok hs),
        decodeEntries_encodeEntries entries body rest hb]

theorem decodeChildren_encodeChildren : ∀ (keys : List Value) (children : List Int)
    (payload rest : Bytes), children.length = keys.length →
      encodeChildren keys children = .ok payload →
      decodeChildren keys.length (payload ++ rest) = .ok (keys, children)
  | [], [], _, _, _, _ => rfl
  | [], _ :: _, _, _, hlen, _ => by simp at hlen
  | _ :: _, [], _, _, hlen, _ => by simp at hlen
  | key :: keys, child :: children, payload, rest, hlen, h => by
      simp only [encodeChildren, bind_eq_ok, Except.ok.injEq] at h
      obtain ⟨kf, hk, c, hc, body, hb, rfl⟩ := h
      have hlc := length_packI (packInt32_ok hc)
      have hlen' : children.length = keys.length := by simpa using hlen
      have hbytes : kf ++ c ++ body ++ rest = kf ++ (c ++ (body ++ rest)) := by simp
      rw [hbytes, List.length_cons]
      simp only [decodeChildren, decodeKeyField_encodeKeyField _ hk, ok_bind,
        take_append _ hlc,
        unpackI_of_packI (by omega : 0 < 4) (packInt32_ok hc),
        decodeChildren_encodeChildren keys children body rest hlen' hb]

theorem encode_leaf_ok (h : encodeLeaf pageSize node = .ok page) :
    ∃ payload header, HEADER_SIZE ≤ pageSize ∧ encodeEntries node.entries = .ok payload ∧
      HEADER_SIZE + payload.length ≤ pageSize ∧
      writeHeader PAGE_TYPE_LEAF node.entries.length node.parentPageId node.nextLeafPageId
        = .ok header ∧
      page = fillPage pageSize header payload := by
  simp only [encodeLeaf, bind_eq_ok, Except.ok.injEq] at h
  obtain ⟨_, hnew, payload, hp, _, hfit, header, hh, rfl⟩ := h
  refine ⟨payload, header, ?_, hp, ?_, hh, rfl⟩
  · unfold newPage at hnew
    split at hnew
    · cases hnew
    · omega
  · unfold ensureFits at hfit
    split at hfit
    · cases hfit
    · omega

theorem decode_leaf_encode_leaf (h : encodeLeaf pageSize node = .ok page) :
    pageType page = .ok PAGE_TYPE_LEAF ∧ decodeLeaf page = .ok node := by
  obtain ⟨payload, header, _, hp, _, hh, rfl⟩ := encode_leaf_ok h
  unfold fillPage
  rw [List.append_assoc]
  obtain ⟨i, j, hi, hj, _, hr⟩ := readHeader_writeHeader (Or.inr (Or.inl rfl)) hh
    (payload ++ List.replicate (pageSize - (HEADER_SIZE + payload.length)) 0)
  refine ⟨by simp [pageType, hr], ?_⟩
  unfold decodeLeaf
  simp only [hr, ok_bind, ne_eq, not_true_eq_false, if_false,
    decodeEntries_encodeEntries node.entries payload _ hp, decodePageId_encodePageId hi,
    decodePageId_encodePageId hj]

theorem decode_internal_encode_internal {node : InternalNode}
    (h : encodeInternal pageSize node = .ok page) :
    pageType page = .ok PAGE_TYPE_INTERNAL ∧ decodeInternal page = .ok node := by
  obtain ⟨parent, keys, children⟩ := node
  unfold encodeInternal at h
  split at h
  · cases h
  · next hlen =>
      simp only [ne_eq, not_not] at hlen
      cases children with
      | nil => simp at hlen
      | cons first children =>
          simp only [bind_eq_ok, Except.ok.injEq] at h
          obtain ⟨ff, hff, body, hb, _, _, _, _, header, hh, rfl⟩ := h
          unfold fillPage
          generalize (List.replicate (pageSize - (HEADER_SIZE + (ff ++ body).length)) 0 : Bytes)
            = zeros
          obtain ⟨i, j, hi, hj, _, hr⟩ := readHeader_writeHeader (Or.inr (Or.inr rfl)) hh
            (ff ++ (body ++ zeros))
          rw [List.append_assoc, List.append_assoc]
          refine ⟨by simp [pageType, hr], ?_⟩
          have hj' : j = NONE_PAGE_ID := (Except.ok.inj hj).symm
          have hlf := length_packI (packInt32_ok hff)
          have hlen' : children.length = keys.length := by simpa using hlen
          unfold decodeInternal
          simp only [hr, ok_bind, ne_eq, not_true_eq_false, if_false, hj',
            take_append _ hlf, decodeChildren_encodeChildren keys children body _ hlen' hb,
            decodePageId_encodePageId hi,
            unpackI_of_packI (by omega : 0 < 4) (packInt32_ok hff)]

theorem decode_metadata_encode_metadata {root : Option Int}
    (h : encodeMetadata pageSize root first = .ok page) :
    pageType page = .ok PAGE_TYPE_METADATA ∧
      decodeMetadata page = .ok { rootPageId := root, firstLeafPageId := first } := by
  simp only [encodeMetadata, bind_eq_ok, Except.ok.injEq] at h
  obtain ⟨_, _, header, hh, rfl⟩ := h
  unfold fillPage
  generalize (List.replicate (pageSize - (HEADER_SIZE + ([] : Bytes).length)) 0 : Bytes) = zeros
  rw [List.append_nil]
  obtain ⟨i, j, hi, hj, _, hr⟩ := readHeader_writeHeader (Or.inl rfl) hh zeros
  refine ⟨by simp [pageType, hr], ?_⟩
  unfold decodeMetadata
  simp only [hr, ok_bind, ne_eq, not_true_eq_false, if_false, decodePageId_encodePageId hi,
    decodePageId_encodePageId hj]

/-! ## The length of a page -/

theorem length_writeHeader (h : writeHeader t count first second = .ok header) :
    header.length = HEADER_SIZE := by
  rw [writeHeader] at h
  split at h
  · cases h
  · simp only [bind_eq_ok, Except.ok.injEq] at h
    obtain ⟨i, _, j, _, field, hfield, field', hfield', rfl⟩ := h
    have hlength := length_packI (packInt32_ok hfield)
    have hlength' := length_packI (packInt32_ok hfield')
    simp [MAGIC, HEADER_SIZE, hlength, hlength', length_packLE]

theorem length_fillPage {payload : Bytes} (hheader : header.length = HEADER_SIZE)
    (hfit : HEADER_SIZE + payload.length ≤ pageSize) :
    (fillPage pageSize header payload).length = pageSize := by
  rw [fillPage]
  simp only [List.length_append, List.length_replicate, hheader]
  omega

theorem length_encode_leaf (h : encodeLeaf pageSize node = .ok page) : page.length = pageSize := by
  obtain ⟨payload, header, _, _, hfit, hheader, rfl⟩ := encode_leaf_ok h
  exact length_fillPage (length_writeHeader hheader) hfit

theorem length_encode_internal {node : InternalNode} (h : encodeInternal pageSize node = .ok page) :
    page.length = pageSize := by
  obtain ⟨parent, keys, children⟩ := node
  rw [encodeInternal] at h
  split at h
  · cases h
  · cases children with
    | nil => cases h
    | cons first children =>
        simp only [bind_eq_ok, Except.ok.injEq] at h
        obtain ⟨field, _, rest, _, _, hfit, _, _, header, hheader, rfl⟩ := h
        refine length_fillPage (length_writeHeader hheader) ?_
        rw [ensureFits] at hfit
        split at hfit
        · cases hfit
        · omega

theorem length_encode_metadata {root : Option Int}
    (h : encodeMetadata pageSize root first = .ok page) : page.length = pageSize := by
  simp only [encodeMetadata, bind_eq_ok, Except.ok.injEq] at h
  obtain ⟨_, hnew, header, hheader, rfl⟩ := h
  refine length_fillPage (length_writeHeader hheader) ?_
  rw [newPage] at hnew
  split at hnew
  · cases hnew
  · rw [List.length_nil]
    omega

/-! ## What fits in a page -/

/-- A page id that a header field can hold. -/
def IdFits : Option Int → Prop
  | none => True
  | some pageId => 0 ≤ pageId ∧ pageId < 2 ^ 31

/-- A key that fits in an internal page as its only separator. -/
def KeyFits (pageSize : Nat) (key : Value) : Prop :=
  ∃ field, encodeKeyField key = .ok field ∧ HEADER_SIZE + 4 + field.length + 4 ≤ pageSize

theorem packInt32_ok_iff (i : Int) (message : String) :
    (∃ field, packInt32 i message = .ok field) ↔ -2 ^ 31 ≤ i ∧ i < 2 ^ 31 := by
  have hpack := packI_ok_iff (k := 4) (i := i)
  have hbound : ((256 ^ 4 / 2 : Nat) : Int) = 2 ^ 31 := by decide
  rw [hbound] at hpack
  rw [← hpack]
  unfold packInt32
  cases packI 4 i <;> simp

theorem encodePageId_pack_ok_iff (pageId : Option Int) (message : String) :
    (∃ i field, encodePageId pageId = .ok i ∧ packInt32 i message = .ok field) ↔
      IdFits pageId := by
  cases pageId with
  | none =>
      simp only [IdFits, iff_true]
      obtain ⟨field, hf⟩ := (packInt32_ok_iff NONE_PAGE_ID message).mpr
        (by unfold NONE_PAGE_ID; omega)
      exact ⟨NONE_PAGE_ID, field, rfl, hf⟩
  | some p =>
      simp only [encodePageId, IdFits]
      constructor
      · rintro ⟨i, field, hi, hf⟩
        split at hi
        · cases hi
        · obtain rfl := Except.ok.inj hi
          have hrange := (packInt32_ok_iff p message).mp ⟨field, hf⟩
          omega
      · rintro ⟨h0, h1⟩
        obtain ⟨field, hf⟩ := (packInt32_ok_iff p message).mpr (by omega)
        exact ⟨p, field, by rw [if_neg (by omega)], hf⟩

theorem writeHeader_ok_iff (t : UInt8) (count : Nat) (first second : Option Int) :
    (∃ header, writeHeader t count first second = .ok header) ↔
      count ≤ 0xFFFF ∧ IdFits first ∧ IdFits second := by
  rw [← encodePageId_pack_ok_iff first "page id is outside signed 32-bit range",
    ← encodePageId_pack_ok_iff second "page id is outside signed 32-bit range"]
  unfold writeHeader
  constructor
  · rintro ⟨header, h⟩
    split at h
    · cases h
    · next hcount =>
        simp only [bind_eq_ok] at h
        obtain ⟨i, hi, j, hj, fi, hfi, fj, hfj, _⟩ := h
        exact ⟨by omega, ⟨i, fi, hi, hfi⟩, ⟨j, fj, hj, hfj⟩⟩
  · rintro ⟨hcount, ⟨i, fi, hi, hfi⟩, ⟨j, fj, hj, hfj⟩⟩
    rw [if_neg (by omega)]
    simp only [hi, hj, hfi, hfj, ok_bind, Except.ok.injEq, exists_eq']

theorem newPage_ok_iff : newPage pageSize = .ok () ↔ HEADER_SIZE ≤ pageSize := by
  unfold newPage
  split
  · simp only [reduceCtorEq, false_iff]
    omega
  · simp only [true_iff]
    omega

theorem ensureFits_ok_iff {payloadSize : Nat} :
    ensureFits pageSize payloadSize = .ok () ↔ HEADER_SIZE + payloadSize ≤ pageSize := by
  unfold ensureFits
  split
  · simp only [reduceCtorEq, false_iff]
    omega
  · simp only [true_iff]
    omega

theorem encode_leaf_ok_iff :
    (∃ page, encodeLeaf pageSize node = .ok page) ↔
      ∃ payload, encodeEntries node.entries = .ok payload ∧
        HEADER_SIZE + payload.length ≤ pageSize ∧ node.entries.length ≤ 0xFFFF ∧
        IdFits node.parentPageId ∧ IdFits node.nextLeafPageId := by
  unfold encodeLeaf
  constructor
  · rintro ⟨page, h⟩
    simp only [bind_eq_ok] at h
    obtain ⟨_, _, payload, hp, _, hfit, header, hh, _⟩ := h
    exact ⟨payload, hp, ensureFits_ok_iff.mp hfit, (writeHeader_ok_iff _ _ _ _).mp ⟨header, hh⟩⟩
  · rintro ⟨payload, hp, hfit, hheader⟩
    obtain ⟨header, hh⟩ := (writeHeader_ok_iff PAGE_TYPE_LEAF _ _ _).mpr hheader
    simp only [newPage_ok_iff.mpr (by omega : HEADER_SIZE ≤ pageSize), hp,
      ensureFits_ok_iff.mpr hfit, hh, ok_bind,
      Except.ok.injEq, exists_eq']

theorem encode_internal_ok_iff {node : InternalNode} :
    (∃ page, encodeInternal pageSize node = .ok page) ↔
      ∃ first children firstField rest, node.children = first :: children ∧
        children.length = node.keys.length ∧
        packInt32 first "child page id is outside signed 32-bit range" = .ok firstField ∧
        encodeChildren node.keys children = .ok rest ∧
        HEADER_SIZE + (firstField ++ rest).length ≤ pageSize ∧ node.keys.length ≤ 0xFFFF ∧
        IdFits node.parentPageId := by
  obtain ⟨parent, keys, children⟩ := node
  unfold encodeInternal
  constructor
  · rintro ⟨page, h⟩
    split at h
    · cases h
    · next hlen =>
        cases children with
        | nil => simp at hlen
        | cons first children =>
            simp only [bind_eq_ok] at h
            obtain ⟨ff, hff, rest, hrest, _, hfit, _, _, header, hh, _⟩ := h
            obtain ⟨hcount, hparent, _⟩ := (writeHeader_ok_iff _ _ _ _).mp ⟨header, hh⟩
            exact ⟨first, children, ff, rest, rfl, by simpa using hlen, hff, hrest,
              ensureFits_ok_iff.mp hfit, hcount, hparent⟩
  · rintro ⟨first, children', ff, rest, hchildren, hlen, hff, hrest, hfit, hcount, hparent⟩
    simp only at hchildren hlen hrest hcount hparent
    subst hchildren
    obtain ⟨header, hh⟩ :=
      (writeHeader_ok_iff PAGE_TYPE_INTERNAL _ _ none).mpr ⟨hcount, hparent, trivial⟩
    rw [if_neg (by simp [hlen])]
    simp only [hff, hrest, ensureFits_ok_iff.mpr hfit, hh, ok_bind,
      newPage_ok_iff.mpr (by omega : HEADER_SIZE ≤ pageSize), Except.ok.injEq, exists_eq']

theorem encode_metadata_ok_iff {root : Option Int} :
    (∃ page, encodeMetadata pageSize root first = .ok page) ↔
      HEADER_SIZE ≤ pageSize ∧ IdFits root ∧ IdFits first := by
  unfold encodeMetadata
  constructor
  · rintro ⟨page, h⟩
    simp only [bind_eq_ok] at h
    obtain ⟨_, hnew, header, hh, _⟩ := h
    exact ⟨newPage_ok_iff.mp hnew, ((writeHeader_ok_iff _ _ _ _).mp ⟨header, hh⟩).2⟩
  · rintro ⟨hnew, hids⟩
    obtain ⟨header, hh⟩ := (writeHeader_ok_iff PAGE_TYPE_METADATA _ _ _).mpr
      ⟨Nat.zero_le _, hids⟩
    simp only [newPage_ok_iff.mpr hnew, hh, ok_bind, Except.ok.injEq, exists_eq']

theorem encodeKeyField_of_encodeEntries :
    ∀ {payload : Bytes}, encodeEntries entries = .ok payload → ∀ entry ∈ entries,
      ∃ field, encodeKeyField entry.1 = .ok field ∧ field.length + 8 ≤ payload.length := by
  induction entries with
  | nil => simp
  | cons head entries ih =>
      intro payload h entry hmem
      simp only [encodeEntries, bind_eq_ok, Except.ok.injEq] at h
      obtain ⟨kf, hk, p, hp, s, hs, body, hb, rfl⟩ := h
      have hlp := length_packI (packInt32_ok hp)
      have hls := length_packI (packInt32_ok hs)
      simp only [List.length_append]
      rcases List.mem_cons.mp hmem with rfl | hmem
      · exact ⟨kf, hk, by omega⟩
      · obtain ⟨field, hf, hle⟩ := ih hb entry hmem
        exact ⟨field, hf, by omega⟩

theorem encodeKeyField_of_encodeChildren {keys : List Value} :
    ∀ {children : List Int} {payload : Bytes}, children.length = keys.length →
      encodeChildren keys children = .ok payload → ∀ key ∈ keys,
        ∃ field, encodeKeyField key = .ok field ∧ field.length + 4 ≤ payload.length := by
  induction keys with
  | nil => simp
  | cons head keys ih =>
      intro children payload hlen h key hmem
      cases children with
      | nil => simp at hlen
      | cons child children =>
          simp only [encodeChildren, bind_eq_ok, Except.ok.injEq] at h
          obtain ⟨kf, hk, c, hc, body, hb, rfl⟩ := h
          have hlc := length_packI (packInt32_ok hc)
          simp only [List.length_append]
          rcases List.mem_cons.mp hmem with rfl | hmem
          · exact ⟨kf, hk, by omega⟩
          · obtain ⟨field, hf, hle⟩ := ih (by simpa using hlen) hb key hmem
            exact ⟨field, hf, by omega⟩

theorem keyFits_of_encode_leaf (h : encodeLeaf pageSize node = .ok page) : ∀ entry ∈ node.entries,
      KeyFits pageSize entry.1 := by
  intro entry hmem
  obtain ⟨payload, hp, hfit, _⟩ := encode_leaf_ok_iff.mp ⟨page, h⟩
  obtain ⟨field, hf, hle⟩ := encodeKeyField_of_encodeEntries hp entry hmem
  exact ⟨field, hf, by omega⟩

theorem keyFits_of_encode_internal {node : InternalNode}
    (h : encodeInternal pageSize node = .ok page) : ∀ key ∈ node.keys,
      KeyFits pageSize key := by
  intro key hmem
  obtain ⟨first, children, ff, rest, _, hlen, hff, hrest, hfit, _⟩ :=
    encode_internal_ok_iff.mp ⟨page, h⟩
  obtain ⟨field, hf, hle⟩ := encodeKeyField_of_encodeChildren hlen hrest key hmem
  have hlff := length_packI (packInt32_ok hff)
  rw [List.length_append] at hfit
  exact ⟨field, hf, by omega⟩

/-- A root with one separator fits when the separator does. -/
theorem encode_internal_single {key : Value} {left right : Int} (hkey : KeyFits pageSize key)
    (hleft : IdFits (some left)) (hright : IdFits (some right)) :
    ∃ page, encodeInternal pageSize
      { parentPageId := none, keys := [key], children := [left, right] } = .ok page := by
  obtain ⟨field, hf, hfit⟩ := hkey
  obtain ⟨ff, hff⟩ := (packInt32_ok_iff left
    "child page id is outside signed 32-bit range").mpr
      (by unfold IdFits at hleft; omega)
  obtain ⟨rf, hrf⟩ := (packInt32_ok_iff right
    "child page id is outside signed 32-bit range").mpr
      (by unfold IdFits at hright; omega)
  have hlff := length_packI (packInt32_ok hff)
  have hlrf := length_packI (packInt32_ok hrf)
  refine encode_internal_ok_iff.mpr
    ⟨left, [right], ff, field ++ rf ++ [], rfl, rfl, hff, ?_, ?_, ?_, trivial⟩
  · simp only [encodeChildren, hf, hrf, ok_bind]
  · simp only [List.length_append, List.length_nil]
    omega
  · simp

theorem encode_leaf_parent (h : encodeLeaf pageSize node = .ok page) (parent : Option Int) :
    (∃ page', encodeLeaf pageSize { node with parentPageId := parent } = .ok page') ↔
      IdFits parent := by
  obtain ⟨payload, hp, hfit, hcount, _, hnext⟩ := encode_leaf_ok_iff.mp ⟨page, h⟩
  rw [encode_leaf_ok_iff]
  constructor
  · rintro ⟨_, _, _, _, hparent, _⟩
    exact hparent
  · intro hparent
    exact ⟨payload, hp, hfit, hcount, hparent, hnext⟩

theorem encode_internal_parent {node : InternalNode} (h : encodeInternal pageSize node = .ok page)
    (parent : Option Int) :
    (∃ page', encodeInternal pageSize { node with parentPageId := parent } = .ok page') ↔
      IdFits parent := by
  obtain ⟨first, children, ff, rest, hc, hlen, hff, hrest, hfit, hcount, _⟩ :=
    encode_internal_ok_iff.mp ⟨page, h⟩
  rw [encode_internal_ok_iff]
  constructor
  · rintro ⟨_, _, _, _, _, _, _, _, _, _, hparent⟩
    exact hparent
  · intro hparent
    exact ⟨first, children, ff, rest, hc, hlen, hff, hrest, hfit, hcount, hparent⟩

/-! ## Smaller leaves fit -/

theorem encodeEntries_sublist {as bs : List Entry} (hsub : as.Sublist bs) :
    ∀ {payload : Bytes}, encodeEntries bs = .ok payload →
      ∃ payload', encodeEntries as = .ok payload' ∧ payload'.length ≤ payload.length := by
  induction hsub with
  | slnil =>
      intro payload h
      exact ⟨payload, h, le_rfl⟩
  | @cons as bs b hsub ih =>
      intro payload h
      simp only [encodeEntries, bind_eq_ok, Except.ok.injEq] at h
      obtain ⟨kf, hk, p, hp, s, hs, body, hb, rfl⟩ := h
      obtain ⟨payload', h', hle⟩ := ih hb
      refine ⟨payload', h', ?_⟩
      simp only [List.length_append]
      omega
  | @cons_cons as bs b hsub ih =>
      intro payload h
      simp only [encodeEntries, bind_eq_ok, Except.ok.injEq] at h
      obtain ⟨kf, hk, p, hp, s, hs, body, hb, rfl⟩ := h
      obtain ⟨payload', h', hle⟩ := ih hb
      refine ⟨kf ++ p ++ s ++ payload', ?_, ?_⟩
      · simp only [encodeEntries, hk, hp, hs, h', ok_bind]
      · simp only [List.length_append]
        omega

/-- A leaf that fits in a page still fits after some of its entries are dropped. -/
theorem encode_leaf_sublist (hsub : entries.Sublist node.entries)
    (h : encodeLeaf pageSize node = .ok page) :
    ∃ page', encodeLeaf pageSize { node with entries } = .ok page' := by
  obtain ⟨payload, hp, hfit, hcount, hids⟩ := encode_leaf_ok_iff.mp ⟨page, h⟩
  obtain ⟨payload', hp', hle⟩ := encodeEntries_sublist hsub hp
  have hlen := hsub.length_le
  exact encode_leaf_ok_iff.mpr ⟨payload', hp', by omega, by simpa using by omega, hids⟩

/-! ## What encoding raises -/

theorem newPage_error (h : newPage pageSize = .error e) : ∃ message, e = .ValueError message := by
  unfold newPage at h
  split at h
  · exact ⟨_, (Except.error.inj h).symm⟩
  · cases h

theorem ensureFits_error {size : Nat} (h : ensureFits pageSize size = .error e) :
    ∃ message, e = .ValueError message := by
  unfold ensureFits at h
  split at h
  · exact ⟨_, (Except.error.inj h).symm⟩
  · cases h

theorem encodePageId_error (h : encodePageId pageId = .error e) :
    ∃ message, e = .ValueError message := by
  cases pageId with
  | none => cases h
  | some p =>
      rw [encodePageId] at h
      split at h
      · exact ⟨_, (Except.error.inj h).symm⟩
      · cases h

theorem packInt32_error {i : Int} (h : packInt32 i message = .error e) :
    e = .ValueError message := by
  unfold packInt32 at h
  split at h
  · cases h
  · exact (Except.error.inj h).symm

theorem writeHeader_error (h : writeHeader t count first second = .error e) :
    ∃ message, e = .ValueError message := by
  unfold writeHeader at h
  split at h
  · exact ⟨_, (Except.error.inj h).symm⟩
  · rcases bind_eq_error.mp h with h | ⟨i, _, h⟩
    · exact encodePageId_error h
    · rcases bind_eq_error.mp h with h | ⟨j, _, h⟩
      · exact encodePageId_error h
      · rcases bind_eq_error.mp h with h | ⟨_, _, h⟩
        · exact ⟨_, packInt32_error h⟩
        · rcases bind_eq_error.mp h with h | ⟨_, _, h⟩
          · exact ⟨_, packInt32_error h⟩
          · cases h

/-- If an entry cannot be encoded, it is refused with `ValueError`. -/
def Refusable (entry : Entry) : Prop :=
  ∀ e, encodeEntries [entry] = .error e → ∃ message, e = .ValueError message

theorem encodeEntries_error (h : encodeEntries entries = .error e) :
    ∃ entry ∈ entries, encodeEntries [entry] = .error e := by
  induction entries with
  | nil => cases h
  | cons entry entries ih =>
      obtain ⟨key, rid⟩ := entry
      simp only [encodeEntries, bind_eq_error, reduceCtorEq, and_false, exists_false,
        or_false] at h
      rcases h with h | ⟨field, hfield, h | ⟨p, hp, h | ⟨s, hs, h⟩⟩⟩
      · exact ⟨(key, rid), by simp, by rw [encodeEntries, h, error_bind]⟩
      · exact ⟨(key, rid), by simp, by rw [encodeEntries, hfield, ok_bind, h, error_bind]⟩
      · exact ⟨(key, rid), by simp, by
          rw [encodeEntries, hfield, ok_bind, hp, ok_bind, h, error_bind]⟩
      · obtain ⟨entry, hmem, hentry⟩ := ih h
        exact ⟨entry, List.mem_cons_of_mem _ hmem, hentry⟩

theorem encodeEntries_ne_error {payload : Bytes} {entry : Entry}
    (h : encodeEntries entries = .ok payload) (hmem : entry ∈ entries) :
    encodeEntries [entry] ≠ .error e := by
  obtain ⟨payload', h', -⟩ := encodeEntries_sublist (List.singleton_sublist.mpr hmem) h
  rw [h']
  exact fun heq => by cases heq

theorem encode_leaf_error (hentries : ∀ entry ∈ node.entries, Refusable entry)
    (h : encodeLeaf pageSize node = .error e) : ∃ message, e = .ValueError message := by
  unfold encodeLeaf at h
  rcases bind_eq_error.mp h with h | ⟨_, -, h⟩
  · exact newPage_error h
  · rcases bind_eq_error.mp h with h | ⟨payload, -, h⟩
    · obtain ⟨entry, hmem, hentry⟩ := encodeEntries_error h
      exact hentries entry hmem e hentry
    · rcases bind_eq_error.mp h with h | ⟨_, -, h⟩
      · exact ensureFits_error h
      · rcases bind_eq_error.mp h with h | ⟨header, -, h⟩
        · exact writeHeader_error h
        · cases h

theorem refusable_of_leaf {entry : Entry} (hperm : entries.Perm (node.entries ++ [entry]))
    (hpage : encodeLeaf pageSize node = .ok page)
    (h : encodeLeaf pageSize { node with entries } = .error (.ValueError message)) :
    ∀ entry' ∈ entries, Refusable entry' := by
  obtain ⟨payload, hpayload, hfit, -⟩ := encode_leaf_ok_iff.mp ⟨page, hpage⟩
  have honly : ∀ entry' ∈ entries, ∀ e, encodeEntries [entry'] = .error e → entry' = entry := by
    intro entry' hmem e he
    rcases List.mem_append.mp (hperm.mem_iff.mp hmem) with hold | hnew
    · exact absurd he (encodeEntries_ne_error hpayload hold)
    · exact List.mem_singleton.mp hnew
  intro entry' hmem e he
  obtain rfl := honly entry' hmem e he
  rw [encodeLeaf, newPage_ok_iff.mpr (by omega), ok_bind] at h
  cases hencode : encodeEntries entries with
  | ok payload' => exact absurd he (encodeEntries_ne_error hencode hmem)
  | error e' =>
      rw [hencode] at h
      obtain rfl := Except.error.inj h
      obtain ⟨other, hother, herror⟩ := encodeEntries_error hencode
      obtain rfl := honly other hother _ herror
      rw [herror] at he
      exact ⟨message, (Except.error.inj he).symm⟩

theorem encodeChildren_error {keys : List Value} {children : List Int}
    (hkeys : ∀ key ∈ keys, ∃ field, encodeKeyField key = .ok field)
    (h : encodeChildren keys children = .error e) : ∃ message, e = .ValueError message := by
  induction keys generalizing children with
  | nil => cases h
  | cons key keys ih =>
      cases children with
      | nil => cases h
      | cons child children =>
          obtain ⟨field, hfield⟩ := hkeys key (by simp)
          rw [encodeChildren, hfield, ok_bind] at h
          rcases bind_eq_error.mp h with h | ⟨_, -, h⟩
          · exact ⟨_, packInt32_error h⟩
          · rcases bind_eq_error.mp h with h | ⟨_, -, h⟩
            · exact ih (fun key hkey => hkeys key (List.mem_cons_of_mem _ hkey)) h
            · cases h

theorem encode_internal_error {node : InternalNode}
    (hkeys : ∀ key ∈ node.keys, ∃ field, encodeKeyField key = .ok field)
    (h : encodeInternal pageSize node = .error e) : ∃ message, e = .ValueError message := by
  unfold encodeInternal at h
  split at h
  · exact ⟨_, (Except.error.inj h).symm⟩
  · split at h
    · exact ⟨_, (Except.error.inj h).symm⟩
    · rcases bind_eq_error.mp h with h | ⟨ff, -, h⟩
      · exact ⟨_, packInt32_error h⟩
      · rcases bind_eq_error.mp h with h | ⟨_, -, h⟩
        · exact encodeChildren_error hkeys h
        · rcases bind_eq_error.mp h with h | ⟨_, -, h⟩
          · exact ensureFits_error h
          · rcases bind_eq_error.mp h with h | ⟨_, -, h⟩
            · exact newPage_error h
            · rcases bind_eq_error.mp h with h | ⟨header, -, h⟩
              · exact writeHeader_error h
              · cases h

end SoupDB.BPlusPage
