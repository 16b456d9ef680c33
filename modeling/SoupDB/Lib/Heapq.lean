import SoupDB.Lib.Ranking

/-!
# Heaps of keyed items

A heap gives back the item with the least key.  It is kept as a list in order of the keys, so
that the first item is the least one.

`KeepsBest r k seen kept` says that of the elements seen so far the best `k` are kept, in any
order.  It is kept up by taking an element in while there is room, by passing over an element
behind all that are kept, and by putting one in the place of the last of those.
-/

namespace SoupDB

open List

variable {κ α : Type} [LinearOrder κ]

/-- A list of items in order of their keys. -/
structure Heapq (κ α : Type) [LinearOrder κ] where
  items : List (κ × α)
  sorted : items.Pairwise (fun a b => a.1 ≤ b.1)

namespace Heapq

def empty : Heapq κ α := ⟨[], List.Pairwise.nil⟩

def length (heap : Heapq κ α) : Nat := heap.items.length

def heappush (heap : Heapq κ α) (item : κ × α) : Heapq κ α :=
  ⟨heap.items.orderedInsert (fun a b => a.1 ≤ b.1) item, by
    have : Std.Total (fun a b : κ × α => a.1 ≤ b.1) := ⟨fun a b => le_total _ _⟩
    have : IsTrans (κ × α) (fun a b => a.1 ≤ b.1) := ⟨fun a b c hab hbc => hab.trans hbc⟩
    exact heap.sorted.orderedInsert item heap.items⟩

/-- The item with the least key, and the heap without it. -/
def heappop : Heapq κ α → Option ((κ × α) × Heapq κ α)
  | ⟨[], _⟩ => none
  | ⟨item :: items, sorted⟩ => some (item, ⟨items, sorted.of_cons⟩)

variable {heap heap' : Heapq κ α} {item : κ × α}

theorem heappush_perm (heap : Heapq κ α) (item : κ × α) :
    (heap.heappush item).items.Perm (item :: heap.items) :=
  perm_orderedInsert _ item heap.items

theorem heappop_none (h : heap.heappop = none) : heap.items = [] := by
  obtain ⟨items, sorted⟩ := heap
  cases items with
  | nil => rfl
  | cons item items => cases h

theorem heappop_some (h : heap.heappop = some (item, heap')) :
    heap.items = item :: heap'.items := by
  obtain ⟨items, sorted⟩ := heap
  cases items with
  | nil => cases h
  | cons first items =>
      rw [heappop, Option.some.injEq, Prod.mk.injEq] at h
      obtain ⟨rfl, rfl⟩ := h
      rfl

/-- Its key is the least. -/
theorem le_of_heappop (h : heap.heappop = some (item, heap')) :
    ∀ other ∈ heap'.items, item.1 ≤ other.1 := by
  have hsorted := heap.sorted
  rw [heappop_some h] at hsorted
  exact (pairwise_cons.mp hsorted).1

end Heapq

/-! ## The best of what was seen -/

section KeepsBest

omit [LinearOrder κ]

variable {r : α → α → Prop} {k : Nat} {seen kept : List α} {x w : α}

/-- What is not kept comes behind what is, and then `k` elements are kept. -/
structure KeepsBest (r : α → α → Prop) (k : Nat) (seen kept : List α) : Prop where
  fits : kept.length ≤ k
  rest : ∃ rest, (kept ++ rest).Perm seen ∧ (rest ≠ [] → kept.length = k) ∧
    ∀ a ∈ kept, ∀ b ∈ rest, r a b

namespace KeepsBest

theorem nil (r : α → α → Prop) (k : Nat) : KeepsBest r k [] [] :=
  ⟨Nat.zero_le k, [], List.Perm.refl _, fun h => absurd rfl h, fun _ ha => nomatch ha⟩

theorem perm (h : KeepsBest r k seen kept) {seen' kept' : List α} (hseen : seen.Perm seen')
    (hkept : kept.Perm kept') : KeepsBest r k seen' kept' := by
  obtain ⟨hfits, rest, hperm, hfull, hbehind⟩ := h
  refine ⟨hkept.length_eq ▸ hfits, rest, ?_, fun hrest => hkept.length_eq ▸ hfull hrest,
    fun a ha b hb => hbehind a (hkept.mem_iff.mpr ha) b hb⟩
  exact ((hkept.append_right rest).symm.trans hperm).trans hseen

/-- While there is room, nothing was passed over. -/
theorem room (h : KeepsBest r k seen kept) (hroom : kept.length < k) :
    KeepsBest r k (x :: seen) (x :: kept) := by
  obtain ⟨-, rest, hperm, hfull, -⟩ := h
  obtain rfl : rest = [] := by
    by_contra hrest
    exact absurd (hfull hrest) hroom.ne
  rw [append_nil] at hperm
  refine ⟨hroom, [], ?_, fun h => absurd rfl h, fun _ _ _ hb => nomatch hb⟩
  rw [append_nil]
  exact hperm.cons x

/-- An element behind all that are kept is passed over. -/
theorem pass (h : KeepsBest r k seen kept) (hfull : kept.length = k) (hx : ∀ a ∈ kept, r a x) :
    KeepsBest r k (x :: seen) kept := by
  obtain ⟨hfits, rest, hperm, -, hbehind⟩ := h
  refine ⟨hfits, x :: rest, perm_middle.trans (hperm.cons x), fun _ => hfull,
    fun a ha b hb => ?_⟩
  rcases mem_cons.mp hb with rfl | hb
  · exact hx a ha
  · exact hbehind a ha b hb

/-- So are several of them. -/
theorem pass_all (h : KeepsBest r k seen kept) (hfull : kept.length = k) {xs : List α}
    (hxs : ∀ x ∈ xs, ∀ a ∈ kept, r a x) : KeepsBest r k (xs ++ seen) kept := by
  induction xs with
  | nil => exact h
  | cons x xs ih =>
      obtain ⟨hx, hxs⟩ := forall_mem_cons.mp hxs
      exact (ih hxs).pass hfull hx

/-- An element before the last one that is kept takes its place. -/
theorem replace [IsTrans α r] (h : KeepsBest r k seen (w :: kept))
    (hfull : (w :: kept).length = k) (hlast : ∀ a ∈ kept, r a w) (hx : r x w) :
    KeepsBest r k (x :: seen) (x :: kept) := by
  obtain ⟨hfits, rest, hperm, -, hbehind⟩ := h
  refine ⟨hfits, w :: rest, ?_, fun _ => hfull, fun a ha b hb => ?_⟩
  · refine (List.Perm.cons x ?_)
    exact perm_middle.trans hperm
  · have haw : r a w := by
      rcases mem_cons.mp ha with rfl | ha
      · exact hx
      · exact hlast a ha
    rcases mem_cons.mp hb with rfl | hb
    · exact haw
    · exact IsTrans.trans _ _ _ haw (hbehind w mem_cons_self b hb)

/-- Put in order, they are the first ones of all. -/
theorem insertionSort_eq [DecidableRel r] [Std.Total r] [IsTrans α r] [Std.Antisymm r]
    (h : KeepsBest r k seen kept) : kept.insertionSort r = (seen.insertionSort r).take k := by
  obtain ⟨hfits, rest, hperm, hfull, hbehind⟩ := h
  rw [← insertionSort_perm (r := r) hperm]
  have hlen : (kept.insertionSort r).length = kept.length := length_insertionSort r kept
  have hsplit : (kept ++ rest).insertionSort r =
      kept.insertionSort r ++ rest.insertionSort r := by
    have hk := perm_insertionSort r kept
    have hr := perm_insertionSort r rest
    refine SoupDB.insertionSort_eq (hk.append hr) (pairwise_append.mpr
      ⟨pairwise_insertionSort r kept, pairwise_insertionSort r rest,
        fun a ha b hb => hbehind a (hk.mem_iff.mp ha) b (hr.mem_iff.mp hb)⟩)
  by_cases hrest : rest = []
  · rw [hrest, append_nil, take_of_length_le (by rwa [hlen])]
  · rw [hsplit, take_append_of_le_length (by rw [hlen, hfull hrest]),
      take_of_length_le (by rwa [hlen])]

end KeepsBest

end KeepsBest

end SoupDB
