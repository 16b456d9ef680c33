import SoupDB.Indexes.BPlusPage
import SoupDB.Indexes.KeyTrees
import SoupDB.Common.Record

/-!
# SoupDB: the page codec of the B+ tree is exact

The fields of a node are written in order, and `Fault` says what is wrong with the first that
has no place in the format: a number outside the range of its field, or a length of 2 ^ 32 bytes
or more.  Encoding raises a `ValueError` for the one and a `struct.error` for the other
(`Outcome`), so that the codec keeps its contract exactly on the nodes whose first fault is not a
length.  What decoding accepts is encoded again (`decode_leaf_encodes`).
-/

namespace SoupDB.BPlusPage

open KeyCodec Pack List

/-- A key of a type that is encoded. -/
inductive SupportedKey : Value → Prop
  | int (i : Int) : SupportedKey (.int i)
  | str (s : String) : SupportedKey (.str s)
  | tuple (items : List Value) : (∀ v ∈ items, SupportedKey v) → SupportedKey (.tuple items)

/-- Why a field has no place in the format. -/
inductive Fault
  | range
  | length
deriving DecidableEq

def rangeFault (bits : Nat) (i : Int) : Option Fault :=
  if -2 ^ bits ≤ i ∧ i < 2 ^ bits then none else some .range

def lengthFault (n : Nat) : Option Fault := if n < 2 ^ 32 then none else some .length

mutual

/-- The first fault of a key: of its items, then of the lengths of a tuple. -/
def keyFault : Value → Option Fault
  | .int i => rangeFault 63 i
  | .str s => lengthFault (encodeUtf8 s).length
  | .tuple items => ((itemsFault items).or (lengthFault items.length)).or
      (items.findSome? (fun v => lengthFault (encodedLength v)))
  | .null => none
  | .bool _ => none
  | .float _ => none

def itemsFault : List Value → Option Fault
  | [] => none
  | v :: vs => (keyFault v).or (itemsFault vs)

end

def fieldFault (key : Value) : Option Fault :=
  (keyFault key).or (lengthFault (encodedLength key))

def entryFault (entry : Entry) : Option Fault :=
  (fieldFault entry.1).or ((rangeFault 31 entry.2.pageId).or (rangeFault 31 entry.2.slot))

def leafFault (node : LeafNode) : Option Fault := node.entries.findSome? entryFault

def childFault (keyChild : Value × Int) : Option Fault :=
  (fieldFault keyChild.1).or (rangeFault 31 keyChild.2)

def internalFault (node : InternalNode) : Option Fault :=
  (rangeFault 31 (node.children.headD 0)).or
    ((node.keys.zip node.children.tail).findSome? childFault)

/-- The bytes of the entries. -/
def entriesSize (entries : List Entry) : Nat :=
  (entries.map (fun entry => 4 + encodedLength entry.1 + 8)).sum

def childrenSize (keys : List Value) : Nat := (keys.map (fun key => 4 + encodedLength key + 4)).sum

/-- The leaf is in the ranges of the format and fits in a page. -/
structure LeafFits (pageSize : Nat) (node : LeafNode) : Prop where
  fields : leafFault node = none
  count : node.entries.length ≤ 0xFFFF
  parent : IdFits node.parentPageId
  next : IdFits node.nextLeafPageId
  size : HEADER_SIZE + entriesSize node.entries ≤ pageSize

/-- The internal node is in the ranges of the format and fits in a page. -/
structure InternalFits (pageSize : Nat) (node : InternalNode) : Prop where
  children : node.children.length = node.keys.length + 1
  fields : internalFault node = none
  count : node.keys.length ≤ 0xFFFF
  parent : IdFits node.parentPageId
  size : HEADER_SIZE + 4 + childrenSize node.keys ≤ pageSize

structure MetadataFits (pageSize : Nat) (node : Metadata) : Prop where
  size : HEADER_SIZE ≤ pageSize
  root : IdFits node.rootPageId
  first : IdFits node.firstLeafPageId

/-- Encoding raises a `ValueError` and the node does not fit, or gives a page of this size that
decodes to the node. -/
def KeepsContract {ν : Type} (pageSize : Nat) (node : ν) (fits : Prop)
    (encode : Except PyError Bytes) (decode : Bytes → Except PyError ν) : Prop :=
  (∃ message, encode = .error (.ValueError message) ∧ ¬ fits) ∨
    ∃ page, encode = .ok page ∧ page.length = pageSize ∧ decode page = .ok node

def LeafContract (pageSize : Nat) (node : LeafNode) : Prop :=
  KeepsContract pageSize node (LeafFits pageSize node) (encodeLeaf pageSize node) decodeLeaf

def InternalContract (pageSize : Nat) (node : InternalNode) : Prop :=
  KeepsContract pageSize node (InternalFits pageSize node) (encodeInternal pageSize node)
    decodeInternal

def MetadataContract (pageSize : Nat) (node : Metadata) : Prop :=
  KeepsContract pageSize node (MetadataFits pageSize node)
    (encodeMetadata pageSize node.rootPageId node.firstLeafPageId) decodeMetadata

/-! ## The outcome of an encoding -/

/-- The outcome for fields with this first fault, of so many bytes. -/
def Outcome (fault : Option Fault) (size : Nat) (x : Except PyError Bytes) : Prop :=
  match fault with
  | none => ∃ data, x = .ok data ∧ data.length = size
  | some .range => ∃ message, x = .error (.ValueError message)
  | some .length => ∃ message, x = .error (.StructError message)

section Outcomes

variable {fault fault' : Option Fault} {size size' : Nat} {x y : Except PyError Bytes}

/-- Fields one after the other. -/
theorem Outcome.bind {α : Type} {z : Except PyError α} {k : α → Except PyError Bytes}
    (hz : match fault with
      | none => ∃ a, z = .ok a ∧ Outcome fault' size (k a)
      | some .range => ∃ message, z = .error (.ValueError message)
      | some .length => ∃ message, z = .error (.StructError message)) :
    Outcome (fault.or fault') size (z >>= k) := by
  rcases fault with _ | _ | _
  · obtain ⟨a, rfl, hk⟩ := hz
    exact hk
  · obtain ⟨message, rfl⟩ := hz
    exact ⟨message, rfl⟩
  · obtain ⟨message, rfl⟩ := hz
    exact ⟨message, rfl⟩

theorem Outcome.andThen {k : Bytes → Except PyError Bytes} (hx : Outcome fault size x)
    (hk : ∀ data, data.length = size → Outcome fault' size' (k data)) :
    Outcome (fault.or fault') size' (x >>= k) := by
  refine Outcome.bind ?_
  rcases fault with _ | _ | _
  · obtain ⟨data, hdata, hlength⟩ := hx
    exact ⟨data, hdata, hk data hlength⟩
  · exact hx
  · exact hx

/-- Bytes that are put between others. -/
theorem Outcome.map {k : Bytes → Bytes} (hx : Outcome fault size x)
    (hk : ∀ data, data.length = size → (k data).length = size') :
    Outcome fault size' (do
      let data ← x
      .ok (k data)) := by
  rw [← Option.or_none (o := fault)]
  exact hx.andThen (fun data hdata => ⟨k data, rfl, hk data hdata⟩)

theorem Outcome.of_ok {data : Bytes} (h : Outcome fault size (.ok data)) :
    fault = none ∧ data.length = size := by
  rcases fault with _ | _ | _
  · obtain ⟨data', hdata, hlength⟩ := h
    cases hdata
    exact ⟨rfl, hlength⟩
  · obtain ⟨message, hmessage⟩ := h
    cases hmessage
  · obtain ⟨message, hmessage⟩ := h
    cases hmessage

theorem Outcome.of_error {e : PyError} (h : Outcome fault size (.error e)) :
    fault = some .length ∨ ∃ message, e = .ValueError message := by
  rcases fault with _ | _ | _
  · obtain ⟨data, hdata, -⟩ := h
    cases hdata
  · obtain ⟨message, hmessage⟩ := h
    exact .inr ⟨message, Except.error.inj hmessage⟩
  · exact .inl rfl

theorem findSome?_cons_or {α β : Type} (f : α → Option β) (a : α) (as : List α) :
    (a :: as).findSome? f = (f a).or (as.findSome? f) := by
  rw [findSome?_cons]
  cases f a <;> rfl

theorem outcome_packU (n : Nat) : Outcome (lengthFault n) 4 (packU 4 n) := by
  unfold lengthFault packU
  by_cases h : n < 2 ^ 32
  · rw [if_pos h, if_pos (by simpa using h)]
    exact ⟨_, rfl, length_packLE 4 n⟩
  · rw [if_neg h, if_neg (by simpa using h)]
    exact ⟨_, rfl⟩

theorem outcome_packInt32 (i : Int) (message : String) :
    Outcome (rangeFault 31 i) 4 (packInt32 i message) := by
  unfold rangeFault
  split
  · next h =>
      obtain ⟨field, hfield⟩ := (packInt32_ok_iff i message).mpr h
      exact ⟨field, hfield, length_packI (packInt32_ok hfield)⟩
  · next h =>
      cases hpack : packInt32 i message with
      | ok field => exact absurd ((packInt32_ok_iff i message).mp ⟨field, hpack⟩) h
      | error e =>
          unfold packInt32 at hpack
          split at hpack
          · cases hpack
          · exact ⟨message, hpack.symm⟩

end Outcomes

theorem outcome_encode_items {vs : List Value}
    (h : ∀ v ∈ vs, Outcome (keyFault v) (encodedLength v) (encodeKey v)) :
    match itemsFault vs with
    | none => ∃ encoded, encodeItems vs = .ok encoded ∧
        encoded.map List.length = vs.map encodedLength
    | some .range => ∃ message, encodeItems vs = .error (.ValueError message)
    | some .length => ∃ message, encodeItems vs = .error (.StructError message) := by
  induction vs with
  | nil => exact ⟨[], rfl, rfl⟩
  | cons v vs ih =>
      have hfirst := h v mem_cons_self
      have hrest := ih (fun w hw => h w (mem_cons_of_mem v hw))
      rw [itemsFault]
      rcases hfault : keyFault v with _ | _ | _
      · rw [hfault] at hfirst
        obtain ⟨item, hitem, hlength⟩ := hfirst
        rw [Option.none_or]
        rcases hfaults : itemsFault vs with _ | _ | _
        · rw [hfaults] at hrest
          obtain ⟨items, hitems, hlengths⟩ := hrest
          refine ⟨item :: items, ?_, by rw [map_cons, map_cons, hlength, hlengths]⟩
          rw [encodeItems, hitem, ok_bind, hitems, ok_bind]
        · rw [hfaults] at hrest
          obtain ⟨message, hitems⟩ := hrest
          exact ⟨message, by rw [encodeItems, hitem, ok_bind, hitems, error_bind]⟩
        · rw [hfaults] at hrest
          obtain ⟨message, hitems⟩ := hrest
          exact ⟨message, by rw [encodeItems, hitem, ok_bind, hitems, error_bind]⟩
      · rw [hfault] at hfirst
        obtain ⟨message, hitem⟩ := hfirst
        exact ⟨message, by rw [encodeItems, hitem, error_bind]⟩
      · rw [hfault] at hfirst
        obtain ⟨message, hitem⟩ := hfirst
        exact ⟨message, by rw [encodeItems, hitem, error_bind]⟩

theorem outcome_joinItems (items : List Bytes) :
    Outcome (items.findSome? (fun item => lengthFault item.length))
      (items.map (fun item => 4 + item.length)).sum (joinItems items) := by
  induction items with
  | nil => exact ⟨[], rfl, rfl⟩
  | cons item items ih =>
      rw [joinItems, findSome?_cons_or, map_cons, sum_cons]
      refine (outcome_packU item.length).andThen (fun field hfield => ih.map ?_)
      intro rest hrest
      rw [length_append, length_append, hfield, hrest]

theorem items_length_eq_sum (vs : List Value) :
    itemsLength vs = (vs.map (fun v => 4 + encodedLength v)).sum := by
  induction vs with
  | nil => rfl
  | cons v vs ih => rw [itemsLength, ih, map_cons, sum_cons]

theorem outcome_encode_key {v : Value} (h : SupportedKey v) :
    Outcome (keyFault v) (encodedLength v) (encodeKey v) := by
  induction h with
  | int i =>
      rw [keyFault, rangeFault, encodedLength, encodeKey]
      have hpack := packI_ok_iff (k := 8) (i := i)
      have hbound : ((256 ^ 8 / 2 : Nat) : Int) = 2 ^ 63 := by decide
      rw [hbound] at hpack
      cases hrun : packI 8 i with
      | ok payload =>
          rw [if_pos (hpack.mp ⟨payload, hrun⟩)]
          exact ⟨_, rfl, by rw [length_cons, length_packI hrun]⟩
      | error e =>
          rw [if_neg (fun hin => by
            obtain ⟨payload, hpayload⟩ := hpack.mpr hin
            rw [hrun] at hpayload
            cases hpayload)]
          exact ⟨_, rfl⟩
  | str s =>
      rw [keyFault, encodedLength, encodeKey]
      refine (outcome_packU (encodeUtf8 s).length).map ?_
      intro field hfield
      rw [length_cons, length_append, hfield]
      omega
  | tuple items _ ih =>
      have hitems := outcome_encode_items ih
      rw [keyFault, encodedLength, encodeKey, Option.or_assoc]
      refine Outcome.bind ?_
      rcases hfault : itemsFault items with _ | _ | _
      · rw [hfault] at hitems
        obtain ⟨encoded, hencoded, hlengths⟩ := hitems
        refine ⟨encoded, hencoded, ?_⟩
        have hcount : encoded.length = items.length := encode_items_length hencoded
        have hjoin := outcome_joinItems encoded
        have hfaults : encoded.findSome? (fun item => lengthFault item.length) =
            items.findSome? (fun v => lengthFault (encodedLength v)) := by
          have hmap := congrArg (findSome? lengthFault) hlengths
          rw [findSome?_map, findSome?_map] at hmap
          exact hmap
        have hsizes : (encoded.map (fun item => 4 + item.length)).sum = itemsLength items := by
          have hmap := congrArg (fun ns => (ns.map (fun n => 4 + n)).sum) hlengths
          simp only [map_map] at hmap
          rw [items_length_eq_sum]
          exact hmap
        rw [hfaults, hsizes] at hjoin
        rw [← hcount]
        refine (outcome_packU encoded.length).andThen (fun count hsize => hjoin.map ?_)
        intro body hbody
        rw [length_cons, length_append, hsize, hbody]
        omega
      · rw [hfault] at hitems
        exact hitems
      · rw [hfault] at hitems
        exact hitems

theorem outcome_encodeKeyField {key : Value} (h : SupportedKey key) :
    Outcome (fieldFault key) (4 + encodedLength key) (encodeKeyField key) := by
  refine (outcome_encode_key h).andThen ?_
  intro encoded hencoded
  rw [← hencoded]
  refine (outcome_packU encoded.length).map ?_
  intro field hfield
  rw [length_append, hfield]

theorem outcome_encodeEntries {entries : List Entry} (h : ∀ e ∈ entries, SupportedKey e.1) :
    Outcome (entries.findSome? entryFault) (entriesSize entries) (encodeEntries entries) := by
  induction entries with
  | nil => exact ⟨[], rfl, rfl⟩
  | cons entry entries ih =>
      obtain ⟨key, rid⟩ := entry
      have hrest := ih (fun e he => h e (mem_cons_of_mem _ he))
      rw [findSome?_cons_or, entryFault, Option.or_assoc, Option.or_assoc, encodeEntries]
      refine (outcome_encodeKeyField (h (key, rid) mem_cons_self)).andThen ?_
      intro keyField hkeyField
      refine (outcome_packInt32 rid.pageId _).andThen (fun pageId hpageId => ?_)
      refine (outcome_packInt32 rid.slot _).andThen (fun slot hslot => hrest.map ?_)
      intro rest hlength
      simp only [length_append, entriesSize, map_cons, sum_cons] at hlength ⊢
      rw [hkeyField, hpageId, hslot, hlength]

theorem outcome_encodeChildren {keys : List Value} (h : ∀ key ∈ keys, SupportedKey key) :
    ∀ {children : List Int}, children.length = keys.length →
      Outcome ((keys.zip children).findSome? childFault) (childrenSize keys)
        (encodeChildren keys children) := by
  induction keys with
  | nil =>
      intro children hlength
      obtain rfl : children = [] := length_eq_zero_iff.mp hlength
      exact ⟨[], rfl, rfl⟩
  | cons key keys ih =>
      intro children hlength
      cases children with
      | nil => cases hlength
      | cons child children =>
          have hrest := ih (fun k hk => h k (mem_cons_of_mem _ hk))
            (by simpa using hlength : children.length = keys.length)
          rw [zip_cons_cons, findSome?_cons_or, childFault, Option.or_assoc, encodeChildren]
          refine (outcome_encodeKeyField (h key mem_cons_self)).andThen ?_
          intro keyField hkeyField
          refine (outcome_packInt32 child _).andThen (fun field hfield => hrest.map ?_)
          intro rest hlength'
          simp only [length_append, childrenSize, map_cons, sum_cons] at hlength' ⊢
          rw [hkeyField, hfield, hlength']

/-! ## The contract of the codec -/

variable {pageSize : Nat} {encode : Except PyError Bytes} {node : InternalNode} {page : Bytes}

/-- The contract holds where encoding returns exactly what fits and raises nothing else. -/
theorem keepsContract_of {ν : Type} {node : ν} {fits : Prop} {decode : Bytes → Except PyError ν}
    (hfits : fits → ∃ page, encode = .ok page)
    (hok : ∀ page, encode = .ok page → page.length = pageSize ∧ decode page = .ok node)
    (herror : ∀ e, encode = .error e → ∃ message, e = .ValueError message) :
    KeepsContract pageSize node fits encode decode := by
  cases hencode : encode with
  | ok page => exact .inr ⟨page, rfl, hok page hencode⟩
  | error e =>
      obtain ⟨message, rfl⟩ := herror e hencode
      refine .inl ⟨message, rfl, fun hin => ?_⟩
      obtain ⟨page, hpage⟩ := hfits hin
      rw [hencode] at hpage
      cases hpage

theorem not_keepsContract {ν : Type} {node : ν} {fits : Prop} {decode : Bytes → Except PyError ν}
    {message : String} (h : encode = .error (.StructError message)) :
    ¬ KeepsContract pageSize node fits encode decode := by
  subst h
  rintro (⟨message', hvalue, -⟩ | ⟨page, hpage, -, -⟩)
  · cases hvalue
  · cases hpage

theorem encode_leaf_fits {node : LeafNode} (h : ∀ e ∈ node.entries, SupportedKey e.1) :
    (∃ page, encodeLeaf pageSize node = .ok page) ↔ LeafFits pageSize node := by
  have houtcome := outcome_encodeEntries h
  rw [encode_leaf_ok_iff]
  constructor
  · rintro ⟨payload, hpayload, hsize, hcount, hparent, hnext⟩
    rw [hpayload] at houtcome
    obtain ⟨hfault, hlength⟩ := houtcome.of_ok
    exact ⟨hfault, hcount, hparent, hnext, by rw [← hlength]; exact hsize⟩
  · rintro ⟨hfault, hcount, hparent, hnext, hsize⟩
    rw [leafFault] at hfault
    rw [hfault] at houtcome
    obtain ⟨payload, hpayload, hlength⟩ := houtcome
    exact ⟨payload, hpayload, by rw [hlength]; exact hsize, hcount, hparent, hnext⟩

theorem leaf_contract_iff {node : LeafNode} (h : ∀ e ∈ node.entries, SupportedKey e.1) :
    LeafContract pageSize node ↔
      ¬ (HEADER_SIZE ≤ pageSize ∧ leafFault node = some .length) := by
  have houtcome := outcome_encodeEntries h
  constructor
  · rintro hcontract ⟨hsize, hfault⟩
    rw [leafFault] at hfault
    rw [hfault] at houtcome
    obtain ⟨message, hmessage⟩ := houtcome
    have hencode : encodeLeaf pageSize node = .error (.StructError message) := by
      rw [encodeLeaf, newPage_ok_iff.mpr hsize, ok_bind, hmessage, error_bind]
    exact not_keepsContract hencode hcontract
  · intro hnot
    refine keepsContract_of (encode_leaf_fits h).mpr
      (fun page hpage => ⟨length_encode_leaf hpage, (decode_leaf_encode_leaf hpage).2⟩) ?_
    intro e hencode
    rw [encodeLeaf] at hencode
    rcases bind_eq_error.mp hencode with hnew | ⟨_, hnew, hencode⟩
    · exact newPage_error hnew
    · rcases bind_eq_error.mp hencode with hentries | ⟨payload, _, hencode⟩
      · rw [hentries] at houtcome
        exact houtcome.of_error.resolve_left
          (fun hfault => hnot ⟨newPage_ok_iff.mp hnew, hfault⟩)
      · rcases bind_eq_error.mp hencode with hfit | ⟨_, _, hencode⟩
        · exact ensureFits_error hfit
        · rcases bind_eq_error.mp hencode with hheader | ⟨_, _, hencode⟩
          · exact writeHeader_error hheader
          · cases hencode

theorem encode_internal_fits (h : ∀ key ∈ node.keys, SupportedKey key) :
    (∃ page, encodeInternal pageSize node = .ok page) ↔ InternalFits pageSize node := by
  rw [encode_internal_ok_iff]
  constructor
  · rintro ⟨first, children, field, rest, hchildren, hcount, hfield, hrest, hsize, hkeys, hparent⟩
    have hfirst := outcome_packInt32 first "child page id is outside signed 32-bit range"
    have houtcome := outcome_encodeChildren h hcount
    rw [hfield] at hfirst
    rw [hrest] at houtcome
    obtain ⟨hfault, hlength⟩ := hfirst.of_ok
    obtain ⟨hfault', hlength'⟩ := houtcome.of_ok
    refine ⟨by rw [hchildren, length_cons, hcount], ?_, hkeys, hparent, ?_⟩
    · rw [internalFault, hchildren, headD_cons, tail_cons, hfault, hfault']
      rfl
    · rw [length_append, hlength, hlength'] at hsize
      omega
  · rintro ⟨hcount, hfault, hkeys, hparent, hsize⟩
    cases hchildren : node.children with
    | nil =>
        rw [hchildren] at hcount
        cases hcount
    | cons first children =>
        rw [hchildren, length_cons, Nat.succ_inj] at hcount
        rw [internalFault, hchildren, headD_cons, tail_cons, Option.or_eq_none_iff]
          at hfault
        have hfirst := outcome_packInt32 first "child page id is outside signed 32-bit range"
        have houtcome := outcome_encodeChildren h hcount
        rw [hfault.1] at hfirst
        rw [hfault.2] at houtcome
        obtain ⟨field, hfield, hlength⟩ := hfirst
        obtain ⟨rest, hrest, hlength'⟩ := houtcome
        refine ⟨first, children, field, rest, rfl, hcount, hfield, hrest, ?_, hkeys, hparent⟩
        rw [length_append, hlength, hlength']
        omega

theorem internal_contract_iff (h : ∀ key ∈ node.keys, SupportedKey key) :
    InternalContract pageSize node ↔
      ¬ (node.children.length = node.keys.length + 1 ∧ internalFault node = some .length) := by
  constructor
  · rintro hcontract ⟨hcount, hfault⟩
    cases hchildren : node.children with
    | nil =>
        rw [hchildren] at hcount
        cases hcount
    | cons first children =>
        have hlength : children.length = node.keys.length := by
          rw [hchildren, length_cons, Nat.succ_inj] at hcount
          exact hcount
        rw [internalFault, hchildren, headD_cons, tail_cons] at hfault
        have hpayload := (outcome_packInt32 first
          "child page id is outside signed 32-bit range").andThen
            (fun field _ => outcome_encodeChildren h hlength)
        rw [hfault] at hpayload
        obtain ⟨message, hmessage⟩ := hpayload
        have hencode : encodeInternal pageSize node = .error (.StructError message) := by
          rw [encodeInternal, if_neg (by rw [hcount]; simp), hchildren]
          cases hfield : packInt32 first "child page id is outside signed 32-bit range" with
          | error e =>
              rw [hfield, error_bind] at hmessage
              simp only [hfield, error_bind, hmessage]
          | ok field =>
              rw [hfield, ok_bind] at hmessage
              simp only [hfield, ok_bind, hmessage, error_bind]
        exact not_keepsContract hencode hcontract
  · intro hnot
    refine keepsContract_of (encode_internal_fits h).mpr
      (fun page hpage =>
        ⟨length_encode_internal hpage, (decode_internal_encode_internal hpage).2⟩) ?_
    intro e hencode
    rw [encodeInternal] at hencode
    split at hencode
    · exact ⟨_, (Except.error.inj hencode).symm⟩
    · next hcount =>
        rw [ne_eq, not_not] at hcount
        cases hchildren : node.children with
        | nil =>
            rw [hchildren] at hcount
            cases hcount
        | cons first children =>
            have hlength : children.length = node.keys.length := by
              rw [hchildren, length_cons, Nat.succ_inj] at hcount
              exact hcount
            simp only [hchildren] at hencode
            rcases bind_eq_error.mp hencode with hfirst | ⟨field, hfield, hencode⟩
            · exact ⟨_, packInt32_error hfirst⟩
            · rcases bind_eq_error.mp hencode with hrest | ⟨rest, _, hencode⟩
              · have houtcome := outcome_encodeChildren h hlength
                rw [hrest] at houtcome
                refine houtcome.of_error.resolve_left (fun hfault => hnot ⟨hcount, ?_⟩)
                have hrange := outcome_packInt32 first
                  "child page id is outside signed 32-bit range"
                rw [hfield] at hrange
                rw [internalFault, hchildren, headD_cons, tail_cons, hrange.of_ok.1,
                  hfault]
                rfl
              · rcases bind_eq_error.mp hencode with hfit | ⟨_, _, hencode⟩
                · exact ensureFits_error hfit
                · rcases bind_eq_error.mp hencode with hnew | ⟨_, _, hencode⟩
                  · exact newPage_error hnew
                  · rcases bind_eq_error.mp hencode with hheader | ⟨_, _, hencode⟩
                    · exact writeHeader_error hheader
                    · cases hencode

theorem metadata_contract (pageSize : Nat) (node : Metadata) :
    MetadataContract pageSize node := by
  refine keepsContract_of ?_
    (fun page hpage =>
      ⟨length_encode_metadata hpage, (decode_metadata_encode_metadata hpage).2⟩) ?_
  · rintro ⟨hsize, hroot, hfirst⟩
    exact encode_metadata_ok_iff.mpr ⟨hsize, hroot, hfirst⟩
  · intro e hencode
    rw [encodeMetadata] at hencode
    rcases bind_eq_error.mp hencode with hnew | ⟨_, _, hencode⟩
    · exact newPage_error hnew
    · rcases bind_eq_error.mp hencode with hheader | ⟨_, _, hencode⟩
      · exact writeHeader_error hheader
      · cases hencode

/-! ## What decoding accepts -/

theorem readHeader_eq_ok {rest : Bytes} {t : UInt8} {count : Nat} {first second : Int}
    (h : readHeader page = .ok ((t, count, first, second), rest)) :
    page.length = HEADER_SIZE + rest.length ∧ count ≤ 0xFFFF ∧ first < 2 ^ 31 ∧
      second < 2 ^ 31 := by
  obtain ⟨⟨header, rest'⟩, htake, hchecks⟩ := bind_eq_ok.mp h
  obtain ⟨hlength, rfl⟩ := take_eq_ok htake
  have hsize : header.length = 16 := hlength
  dsimp only at hchecks
  split at hchecks
  · cases hchecks
  · split at hchecks
    · cases hchecks
    · split at hchecks
      · cases hchecks
      · cases hchecks
        have hcount := unpackLE_lt ((header.drop 6).take 2)
        have hcountLength : ((header.drop 6).take 2).length = 2 := by
          rw [length_take, length_drop, hsize]
          rfl
        have hfirst : ((header.drop 8).take 4).length = 4 := by
          rw [length_take, length_drop, hsize]
          rfl
        have hsecond : ((header.drop 12).take 4).length = 4 := by
          rw [length_take, length_drop, hsize]
          rfl
        rw [hcountLength] at hcount
        refine ⟨by rw [length_append, hlength], by omega, ?_, ?_⟩
        · exact (unpackI_range (by decide) hfirst).2
        · exact (unpackI_range (by decide) hsecond).2

theorem supportedKey_of_keyTree {v : Value} (h : KeyTree v) : SupportedKey v := by
  induction h with
  | int i => exact .int i
  | str s => exact .str s
  | tuple items _ ih => exact .tuple items ih

/-- A number that is read is written in the bytes it was read from. -/
theorem packInt32_unpackI {field : Bytes} (h : field.length = 4) (message : String) :
    packInt32 (unpackI 4 field) message = .ok field := by
  rw [packInt32, packI_unpackI (by decide) h]

theorem decodeKeyField_eq_ok {data rest : Bytes} {key : Value} {message : String}
    (h : decodeKeyField data message = .ok (key, rest)) :
    SupportedKey key ∧ ∃ field, encodeKeyField key = .ok field ∧ data = field ++ rest := by
  obtain ⟨⟨field, data₁⟩, hfield, h⟩ := bind_eq_ok.mp h
  obtain ⟨⟨encoded, data₂⟩, hencoded, h⟩ := bind_eq_ok.mp h
  obtain ⟨key', hkey, h⟩ := bind_eq_ok.mp h
  cases h
  obtain ⟨hlength, rfl⟩ := take_eq_ok hfield
  obtain ⟨hlength', rfl⟩ := take_eq_ok hencoded
  rcases encode_key_of_decode_key encoded with ⟨message', herror⟩ | ⟨v, htree, hdecode, hencode⟩
  · rw [hkey] at herror
    cases herror
  · rw [hkey] at hdecode
    cases hdecode
    refine ⟨supportedKey_of_keyTree htree, field ++ encoded, ?_, by rw [append_assoc]⟩
    have hpack : packU 4 encoded.length = .ok field := by
      have hlt := unpackLE_lt field
      have hbytes := packLE_unpackLE field
      rw [hlength] at hlt hbytes
      rw [hlength']
      exact packU_eq_ok.mpr ⟨hlt, hbytes.symm⟩
    rw [encodeKeyField, hencode, ok_bind, hpack, ok_bind]

theorem decodeEntries_eq_ok : ∀ {count : Nat} {data : Bytes} {entries : List Entry},
    decodeEntries count data = .ok entries →
      (∀ e ∈ entries, SupportedKey e.1) ∧ entries.length = count ∧
        ∃ payload rest, encodeEntries entries = .ok payload ∧ data = payload ++ rest := by
  intro count
  induction count with
  | zero =>
      intro data entries h
      cases h
      exact ⟨by simp, rfl, [], data, rfl, rfl⟩
  | succ count ih =>
      intro data entries h
      obtain ⟨⟨key, data₁⟩, hkey, h⟩ := bind_eq_ok.mp h
      obtain ⟨⟨field, data₂⟩, hfield, h⟩ := bind_eq_ok.mp h
      obtain ⟨entries', hentries, h⟩ := bind_eq_ok.mp h
      cases h
      obtain ⟨hsupported, keyField, hkeyField, rfl⟩ := decodeKeyField_eq_ok hkey
      obtain ⟨hlength, rfl⟩ := take_eq_ok hfield
      obtain ⟨hall, hcount, payload, rest, hpayload, rfl⟩ := ih hentries
      refine ⟨forall_mem_cons.mpr ⟨hsupported, hall⟩, by rw [length_cons, hcount],
        keyField ++ field ++ payload, rest, ?_, by simp only [append_assoc]⟩
      have hpageId : (field.take 4).length = 4 := by
        rw [length_take, hlength]
        rfl
      have hslot : (field.drop 4).length = 4 := by rw [length_drop, hlength]
      rw [encodeEntries, hkeyField, ok_bind, packInt32_unpackI hpageId, ok_bind,
        packInt32_unpackI hslot, ok_bind, hpayload, ok_bind, append_assoc keyField,
        take_append_drop]

theorem decodeChildren_eq_ok : ∀ {count : Nat} {data : Bytes} {keys : List Value}
    {children : List Int}, decodeChildren count data = .ok (keys, children) →
      (∀ key ∈ keys, SupportedKey key) ∧ keys.length = count ∧ children.length = count ∧
        ∃ payload rest, encodeChildren keys children = .ok payload ∧ data = payload ++ rest := by
  intro count
  induction count with
  | zero =>
      intro data keys children h
      cases h
      exact ⟨by simp, rfl, rfl, [], data, rfl, rfl⟩
  | succ count ih =>
      intro data keys children h
      obtain ⟨⟨key, data₁⟩, hkey, h⟩ := bind_eq_ok.mp h
      obtain ⟨⟨field, data₂⟩, hfield, h⟩ := bind_eq_ok.mp h
      obtain ⟨⟨keys', children'⟩, hchildren, h⟩ := bind_eq_ok.mp h
      cases h
      obtain ⟨hsupported, keyField, hkeyField, rfl⟩ := decodeKeyField_eq_ok hkey
      obtain ⟨hlength, rfl⟩ := take_eq_ok hfield
      obtain ⟨hall, hcount, hcount', payload, rest, hpayload, rfl⟩ := ih hchildren
      refine ⟨forall_mem_cons.mpr ⟨hsupported, hall⟩, by rw [length_cons, hcount],
        by rw [length_cons, hcount'], keyField ++ field ++ payload, rest, ?_,
        by simp only [append_assoc]⟩
      rw [encodeChildren, hkeyField, ok_bind, packInt32_unpackI hlength, ok_bind, hpayload,
        ok_bind]

theorem idFits_of_decodePageId {i : Int} {pageId : Option Int} (hi : i < 2 ^ 31)
    (h : decodePageId i = .ok pageId) : IdFits pageId := by
  rw [decodePageId] at h
  split at h
  · cases h
    trivial
  · split at h
    · cases h
    · cases h
      exact ⟨by omega, hi⟩

theorem decode_leaf_encodes {node : LeafNode} (h : decodeLeaf page = .ok node) :
    ∃ page', encodeLeaf page.length node = .ok page' ∧ page'.length = page.length ∧
      decodeLeaf page' = .ok node := by
  obtain ⟨⟨⟨t, count, parent, next⟩, data⟩, hheader, h⟩ := bind_eq_ok.mp h
  obtain ⟨hlength, hcount, hparent, hnext⟩ := readHeader_eq_ok hheader
  dsimp only at h
  split at h
  · cases h
  · obtain ⟨entries, hentries, h⟩ := bind_eq_ok.mp h
    obtain ⟨parent', hparent', h⟩ := bind_eq_ok.mp h
    obtain ⟨next', hnext', h⟩ := bind_eq_ok.mp h
    cases h
    obtain ⟨-, hentriesLength, payload, rest, hpayload, rfl⟩ := decodeEntries_eq_ok hentries
    obtain ⟨page', hpage'⟩ : ∃ page', encodeLeaf page.length ⟨parent', next', entries⟩ =
        .ok page' := by
      refine encode_leaf_ok_iff.mpr ⟨payload, hpayload, ?_, ?_,
        idFits_of_decodePageId hparent hparent', idFits_of_decodePageId hnext hnext'⟩
      · rw [hlength, length_append]
        omega
      · show entries.length ≤ 0xFFFF
        rw [hentriesLength]
        exact hcount
    exact ⟨page', hpage', length_encode_leaf hpage', (decode_leaf_encode_leaf hpage').2⟩

theorem decode_internal_encodes (h : decodeInternal page = .ok node) :
    ∃ page', encodeInternal page.length node = .ok page' ∧ page'.length = page.length ∧
      decodeInternal page' = .ok node := by
  obtain ⟨⟨⟨t, count, parent, unused⟩, data⟩, hheader, h⟩ := bind_eq_ok.mp h
  obtain ⟨hlength, hcount, hparent, -⟩ := readHeader_eq_ok hheader
  dsimp only at h
  split at h
  · cases h
  · split at h
    · cases h
    · obtain ⟨⟨first, data₁⟩, hfirst, h⟩ := bind_eq_ok.mp h
      obtain ⟨⟨keys, children⟩, hchildren, h⟩ := bind_eq_ok.mp h
      obtain ⟨parent', hparent', h⟩ := bind_eq_ok.mp h
      cases h
      obtain ⟨hfirstLength, rfl⟩ := take_eq_ok hfirst
      obtain ⟨-, hkeys, hcount', payload, rest, hpayload, rfl⟩ := decodeChildren_eq_ok hchildren
      obtain ⟨page', hpage'⟩ : ∃ page', encodeInternal page.length
          ⟨parent', keys, unpackI 4 first :: children⟩ = .ok page' := by
        refine encode_internal_ok_iff.mpr ⟨_, children, first, payload, rfl, ?_,
          packInt32_unpackI hfirstLength _, hpayload, ?_, ?_,
          idFits_of_decodePageId hparent hparent'⟩
        · show children.length = keys.length
          rw [hkeys, hcount']
        · rw [hlength]
          simp only [length_append]
          omega
        · show keys.length ≤ 0xFFFF
          rw [hkeys]
          exact hcount
      exact ⟨page', hpage', length_encode_internal hpage',
        (decode_internal_encode_internal hpage').2⟩

theorem decode_metadata_encodes {node : Metadata} (h : decodeMetadata page = .ok node) :
    ∃ page', encodeMetadata page.length node.rootPageId node.firstLeafPageId = .ok page' ∧
      page'.length = page.length ∧ decodeMetadata page' = .ok node := by
  obtain ⟨⟨⟨t, count, root, first⟩, data⟩, hheader, h⟩ := bind_eq_ok.mp h
  obtain ⟨hlength, -, hroot, hfirst⟩ := readHeader_eq_ok hheader
  dsimp only at h
  split at h
  · cases h
  · split at h
    · cases h
    · obtain ⟨root', hroot', h⟩ := bind_eq_ok.mp h
      obtain ⟨first', hfirst', h⟩ := bind_eq_ok.mp h
      cases h
      obtain ⟨page', hpage'⟩ : ∃ page', encodeMetadata page.length root' first' = .ok page' :=
        encode_metadata_ok_iff.mpr ⟨by omega, idFits_of_decodePageId hroot hroot',
          idFits_of_decodePageId hfirst hfirst'⟩
      exact ⟨page', hpage', length_encode_metadata hpage',
        (decode_metadata_encode_metadata hpage').2⟩

/-- The codec keeps its contract exactly on the nodes whose first fault is not a length, and
what it decodes it encodes again. -/
theorem page_codec_exact (pageSize : Nat) :
    (∀ node, (∀ e ∈ node.entries, SupportedKey e.1) →
      (LeafContract pageSize node ↔
        ¬ (HEADER_SIZE ≤ pageSize ∧ leafFault node = some .length))) ∧
    (∀ node, (∀ key ∈ node.keys, SupportedKey key) →
      (InternalContract pageSize node ↔
        ¬ (node.children.length = node.keys.length + 1 ∧ internalFault node = some .length))) ∧
    (∀ node, MetadataContract pageSize node) ∧
    (∀ page node, decodeLeaf page = .ok node →
      ∃ page', encodeLeaf page.length node = .ok page' ∧ decodeLeaf page' = .ok node) ∧
    (∀ page node, decodeInternal page = .ok node →
      ∃ page', encodeInternal page.length node = .ok page' ∧ decodeInternal page' = .ok node) ∧
    (∀ page node, decodeMetadata page = .ok node →
      ∃ page', encodeMetadata page.length node.rootPageId node.firstLeafPageId = .ok page' ∧
        decodeMetadata page' = .ok node) := by
  refine ⟨fun _ => leaf_contract_iff, fun _ => internal_contract_iff,
    fun _ => metadata_contract _ _, ?_, ?_, ?_⟩
  · intro page node h
    obtain ⟨page', hencode, -, hdecode⟩ := decode_leaf_encodes h
    exact ⟨page', hencode, hdecode⟩
  · intro page node h
    obtain ⟨page', hencode, -, hdecode⟩ := decode_internal_encodes h
    exact ⟨page', hencode, hdecode⟩
  · intro page node h
    obtain ⟨page', hencode, -, hdecode⟩ := decode_metadata_encodes h
    exact ⟨page', hencode, hdecode⟩

/-- A leaf with the key 7 on a page of 64 bytes. -/
theorem page_codec_exact_seven :
    LeafContract 64 ⟨none, some 3, [(.int 7, ⟨1, 2⟩)]⟩ := by
  refine ((page_codec_exact 64).1 ⟨none, some 3, [(.int 7, ⟨1, 2⟩)]⟩ ?_).mpr ?_
  · intro e he
    rw [mem_singleton.mp he]
    exact .int 7
  · rintro ⟨-, hfault⟩
    revert hfault
    decide

/-- A leaf with a text of 2 ^ 32 characters raises a `struct.error`. -/
theorem long_key_breaks_contract : ¬ ∀ pageSize node,
    (∀ e ∈ node.entries, SupportedKey e.1) → LeafContract pageSize node := by
  intro hall
  have hlong := Record.length_encodeUtf8_replicate (2 ^ 32)
  generalize String.ofList (replicate (2 ^ 32) 'a') = s at hlong
  have hkeys : ∀ e ∈ (LeafNode.mk none none [(.str s, ⟨0, 0⟩)]).entries, SupportedKey e.1 := by
    intro e he
    rw [mem_singleton.mp he]
    exact .str s
  have hfault : leafFault ⟨none, none, [(.str s, ⟨0, 0⟩)]⟩ = some .length := by
    simp [leafFault, entryFault, fieldFault, keyFault, lengthFault, hlong]
  exact (leaf_contract_iff hkeys).mp (hall 4096 _ hkeys) ⟨by decide, hfault⟩

end SoupDB.BPlusPage
