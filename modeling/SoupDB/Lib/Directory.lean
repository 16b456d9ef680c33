import Mathlib.Data.Multiset.Filter
import Mathlib.Data.Nat.ModEq

/-!
# Directories by suffix

A directory of `2 ^ g` slots maps every slot to a cell, and every cell has a depth.  It is
sound if each cell of depth `d` is the cell of all the slots with some `d` low bits and of no
others.

Doubling the directory (`Sound.double`) and splitting a cell below the depth of the
directory (`Sound.split`) keep it sound.  `Holds` says that every cell has the items with its
low bits, so that the items of a hash are in the cell of its slot (`Holds.at_slot`);
`Holds.double`, `Holds.split`, `Holds.insert` and `Holds.filter` keep it.
-/

namespace SoupDB.Directory

open Multiset

variable {β ι : Type}

/-- The cells are told apart by as many low bits as their depth says. -/
structure Sound (g : Nat) (slot : Nat → β) (depth : β → Nat) : Prop where
  depth_le : ∀ s < 2 ^ g, depth (slot s) ≤ g
  same : ∀ s < 2 ^ g, ∀ t < 2 ^ g,
    slot s = slot t ↔ s % 2 ^ depth (slot s) = t % 2 ^ depth (slot s)

/-- Only the depths of the cells that are shown matter. -/
theorem Sound.congr_depth {g : Nat} {slot : Nat → β} {depth depth' : β → Nat}
    (h : Sound g slot depth) (hdepth : ∀ s < 2 ^ g, depth' (slot s) = depth (slot s)) :
    Sound g slot depth' := by
  constructor
  · intro s hs
    rw [hdepth s hs]
    exact h.depth_le s hs
  · intro s hs t ht
    rw [hdepth s hs]
    exact h.same s hs t ht

section Bits

variable {a d g : Nat}

theorem mod_mod_pow (h : d ≤ g) : a % 2 ^ g % 2 ^ d = a % 2 ^ d :=
  Nat.mod_mod_of_dvd a (Nat.pow_dvd_pow 2 h)

/-- One more low bit. -/
theorem mod_pow_succ_cases :
    a % 2 ^ (d + 1) = a % 2 ^ d ∨ a % 2 ^ (d + 1) = a % 2 ^ d + 2 ^ d := by
  rw [Nat.mod_pow_succ]
  rcases Nat.mod_two_eq_zero_or_one (a / 2 ^ d) with h | h
  · left
    rw [h, Nat.mul_zero, Nat.add_zero]
  · right
    rw [h, Nat.mul_one]

/-- The low bits with the next one set. -/
theorem mod_of_mod_succ_eq {s : Nat} (h : a % 2 ^ (d + 1) = s % 2 ^ d + 2 ^ d) :
    a % 2 ^ d = s % 2 ^ d := by
  have hmod := congrArg (fun n => n % 2 ^ d) h
  simpa only [mod_mod_pow (Nat.le_succ d), Nat.add_mod_right, Nat.mod_mod] using hmod

/-- The low bits are those of `s` and the next one is set. -/
theorem mod_succ_set_iff {s : Nat} :
    a % 2 ^ (d + 1) = s % 2 ^ d + 2 ^ d ↔ a % 2 ^ d = s % 2 ^ d ∧ a / 2 ^ d % 2 = 1 := by
  have hlow := Nat.mod_lt a (Nat.two_pow_pos d)
  have hlow' := Nat.mod_lt s (Nat.two_pow_pos d)
  rw [Nat.mod_pow_succ]
  rcases Nat.mod_two_eq_zero_or_one (a / 2 ^ d) with hzero | hone
  · rw [hzero, Nat.mul_zero]
    omega
  · rw [hone, Nat.mul_one]
    omega

/-- The low bits are those of `s` and the next one is not set. -/
theorem mod_succ_clear_iff {s : Nat} :
    a % 2 ^ (d + 1) = s % 2 ^ d ↔ a % 2 ^ d = s % 2 ^ d ∧ ¬ a / 2 ^ d % 2 = 1 := by
  have hlow := Nat.mod_lt a (Nat.two_pow_pos d)
  have hlow' := Nat.mod_lt s (Nat.two_pow_pos d)
  rw [Nat.mod_pow_succ]
  rcases Nat.mod_two_eq_zero_or_one (a / 2 ^ d) with hzero | hone
  · rw [hzero, Nat.mul_zero]
    omega
  · rw [hone, Nat.mul_one]
    omega

end Bits

section Changes

variable {g : Nat} {slot slot' : Nat → β} {depth depth' : β → Nat}

/-- In a doubled directory every slot shows the cell of its twin by suffix. -/
theorem slot_of_double (hold : ∀ s < 2 ^ g, slot' s = slot s)
    (hnew : ∀ s < 2 ^ g, slot' (s + 2 ^ g) = slot s) :
    ∀ s < 2 ^ (g + 1), slot' s = slot (s % 2 ^ g) := by
  intro s hs
  by_cases hlow : s < 2 ^ g
  · rw [hold s hlow, Nat.mod_eq_of_lt hlow]
  · rw [pow_succ] at hs
    have hback : s - 2 ^ g < 2 ^ g := by omega
    have hsum : s = s - 2 ^ g + 2 ^ g := by omega
    rw [hsum, hnew _ hback, Nat.add_mod_right, Nat.mod_eq_of_lt hback]

theorem Sound.double (h : Sound g slot depth) (hold : ∀ s < 2 ^ g, slot' s = slot s)
    (hnew : ∀ s < 2 ^ g, slot' (s + 2 ^ g) = slot s) : Sound (g + 1) slot' depth := by
  have hslot : ∀ s < 2 ^ (g + 1), slot' s = slot (s % 2 ^ g) ∧ s % 2 ^ g < 2 ^ g :=
    fun s hs => ⟨slot_of_double hold hnew s hs, Nat.mod_lt _ (Nat.two_pow_pos g)⟩
  constructor
  · intro s hs
    obtain ⟨heq, hlt⟩ := hslot s hs
    rw [heq]
    exact (h.depth_le _ hlt).trans (Nat.le_succ g)
  · intro s hs t ht
    obtain ⟨hseq, hslt⟩ := hslot s hs
    obtain ⟨hteq, htlt⟩ := hslot t ht
    rw [hseq, hteq, h.same _ hslt _ htlt, mod_mod_pow (h.depth_le _ hslt),
      mod_mod_pow (h.depth_le _ hslt)]

variable {s : Nat} {new : β}

/-- A cell gives the slots whose next bit is set to a new one. -/
theorem Sound.split (h : Sound g slot depth) (hs : s < 2 ^ g) (hd : depth (slot s) < g)
    (hfresh : ∀ t < 2 ^ g, slot t ≠ new)
    (hslot : ∀ t < 2 ^ g, slot' t =
      if t % 2 ^ (depth (slot s) + 1) = s % 2 ^ depth (slot s) + 2 ^ depth (slot s) then new
      else slot t)
    (hnew : depth' new = depth (slot s) + 1) (hcell : depth' (slot s) = depth (slot s) + 1)
    (hother : ∀ t < 2 ^ g, slot t ≠ slot s → depth' (slot t) = depth (slot t)) :
    Sound g slot' depth' := by
  generalize hdepth : depth (slot s) = d at *
  -- the slots of the cell that is split are those with its low bits
  have hcellIff : ∀ t < 2 ^ g, slot t = slot s ↔ t % 2 ^ d = s % 2 ^ d := by
    intro t ht
    have hsame := h.same s hs t ht
    rw [hdepth] at hsame
    exact ⟨fun heq => (hsame.mp heq.symm).symm, fun heq => (hsame.mpr heq.symm).symm⟩
  have hmoved : ∀ t < 2 ^ g, t % 2 ^ (d + 1) = s % 2 ^ d + 2 ^ d → slot' t = new ∧
      slot t = slot s := by
    intro t ht hbit
    rw [hslot t ht, if_pos hbit]
    exact ⟨rfl, (hcellIff t ht).mpr (mod_of_mod_succ_eq hbit)⟩
  have hstayed : ∀ t < 2 ^ g, t % 2 ^ (d + 1) ≠ s % 2 ^ d + 2 ^ d → slot' t = slot t := by
    intro t ht hbit
    rw [hslot t ht, if_neg hbit]
  have hlow : ∀ t < 2 ^ g, slot t = slot s → t % 2 ^ (d + 1) ≠ s % 2 ^ d + 2 ^ d →
      t % 2 ^ (d + 1) = s % 2 ^ d := by
    intro t ht hcell' hbit
    rw [← (hcellIff t ht).mp hcell']
    rcases @mod_pow_succ_cases t d with hcase | hcase
    · exact hcase
    · rw [(hcellIff t ht).mp hcell'] at hcase
      exact absurd hcase hbit
  have hpos := Nat.two_pow_pos d
  constructor
  · intro t ht
    by_cases hbit : t % 2 ^ (d + 1) = s % 2 ^ d + 2 ^ d
    · rw [(hmoved t ht hbit).1, hnew]
      exact hd
    · rw [hstayed t ht hbit]
      by_cases heq : slot t = slot s
      · rw [heq, hcell]
        exact hd
      · rw [hother t ht heq]
        exact h.depth_le t ht
  · intro t ht u hu
    by_cases hbit : t % 2 ^ (d + 1) = s % 2 ^ d + 2 ^ d
    · obtain ⟨htnew, _⟩ := hmoved t ht hbit
      rw [htnew, hnew, hbit]
      by_cases hubit : u % 2 ^ (d + 1) = s % 2 ^ d + 2 ^ d
      · rw [(hmoved u hu hubit).1, hubit]
        exact ⟨fun _ => rfl, fun _ => rfl⟩
      · rw [hstayed u hu hubit]
        exact ⟨fun heq => absurd heq.symm (hfresh u hu), fun heq => absurd heq.symm hubit⟩
    · rw [hstayed t ht hbit]
      by_cases htcell : slot t = slot s
      · rw [htcell, hcell, hlow t ht htcell hbit]
        by_cases hubit : u % 2 ^ (d + 1) = s % 2 ^ d + 2 ^ d
        · rw [(hmoved u hu hubit).1, hubit]
          constructor
          · intro heq
            exact absurd heq (hfresh s hs)
          · intro heq
            omega
        · rw [hstayed u hu hubit]
          constructor
          · intro heq
            exact (hlow u hu heq.symm hubit).symm
          · intro heq
            have hmod := congrArg (fun n => n % 2 ^ d) heq
            simp only [mod_mod_pow (Nat.le_succ d), Nat.mod_mod] at hmod
            exact ((hcellIff u hu).mpr hmod.symm).symm
      · rw [hother t ht htcell]
        by_cases hubit : u % 2 ^ (d + 1) = s % 2 ^ d + 2 ^ d
        · obtain ⟨hunew, hucell⟩ := hmoved u hu hubit
          rw [hunew]
          constructor
          · intro heq
            exact absurd heq (hfresh t ht)
          · intro heq
            exact absurd (((h.same t ht u hu).mpr heq).trans hucell) htcell
        · rw [hstayed u hu hubit]
          exact h.same t ht u hu

end Changes

/-! ## Items -/

section Items

variable {hash : ι → Nat} {g : Nat} {slot slot' : Nat → β} {depth depth' : β → Nat}
  {items items' : β → Multiset ι} {all : Multiset ι} {s : Nat}

/-- Every cell has the items with its low bits. -/
def Holds (hash : ι → Nat) (g : Nat) (slot : Nat → β) (depth : β → Nat) (items : β → Multiset ι)
    (all : Multiset ι) : Prop :=
  ∀ s < 2 ^ g, items (slot s) =
    all.filter (fun i => hash i % 2 ^ depth (slot s) = s % 2 ^ depth (slot s))

theorem Holds.congr_depth (h : Holds hash g slot depth items all)
    (hdepth : ∀ s < 2 ^ g, depth' (slot s) = depth (slot s)) :
    Holds hash g slot depth' items all := by
  intro s hs
  rw [hdepth s hs]
  exact h s hs

/-- The slot of a hash is the slot of a cell if they agree in the low bits of the cell. -/
theorem Sound.slot_eq (h : Sound g slot depth) (hs : s < 2 ^ g) (n : Nat) :
    slot s = slot (n % 2 ^ g) ↔ n % 2 ^ depth (slot s) = s % 2 ^ depth (slot s) := by
  rw [h.same s hs _ (Nat.mod_lt _ (Nat.two_pow_pos g)), mod_mod_pow (h.depth_le s hs)]
  exact eq_comm

variable (h : Holds hash g slot depth items all) (hsound : Sound g slot depth)
include h hsound

theorem Holds.at_slot (n : Nat) : items (slot (n % 2 ^ g)) =
      all.filter (fun i => hash i % 2 ^ depth (slot (n % 2 ^ g)) =
        n % 2 ^ depth (slot (n % 2 ^ g))) := by
  have hlt : n % 2 ^ g < 2 ^ g := Nat.mod_lt _ (Nat.two_pow_pos g)
  have hmod := mod_mod_pow (a := n) (hsound.depth_le _ hlt)
  have hitems := h _ hlt
  rwa [hmod] at hitems

theorem Holds.double (hold : ∀ s < 2 ^ g, slot' s = slot s)
    (hnew : ∀ s < 2 ^ g, slot' (s + 2 ^ g) = slot s) :
    Holds hash (g + 1) slot' depth items all := by
  intro s hs
  have hlt : s % 2 ^ g < 2 ^ g := Nat.mod_lt _ (Nat.two_pow_pos g)
  rw [slot_of_double hold hnew s hs, h _ hlt, mod_mod_pow (hsound.depth_le _ hlt)]

/-- The items of a cell that is split are told apart by the next bit of their hash. -/
theorem Holds.split {new : β} (hs : s < 2 ^ g)
    (hslot : ∀ t < 2 ^ g, slot' t =
      if t % 2 ^ (depth (slot s) + 1) = s % 2 ^ depth (slot s) + 2 ^ depth (slot s) then new
      else slot t) (hnew : depth' new = depth (slot s) + 1)
    (hcell : depth' (slot s) = depth (slot s) + 1)
    (hother : ∀ t < 2 ^ g, slot t ≠ slot s → depth' (slot t) = depth (slot t))
    (hmove : items' new = (items (slot s)).filter (fun i => hash i / 2 ^ depth (slot s) % 2 = 1))
    (hstay : items' (slot s) =
      (items (slot s)).filter (fun i => ¬ hash i / 2 ^ depth (slot s) % 2 = 1))
    (hkeep : ∀ t < 2 ^ g, slot t ≠ slot s → items' (slot t) = items (slot t)) :
    Holds hash g slot' depth' items' all := by
  intro t ht
  rw [hslot t ht]
  by_cases hbit : t % 2 ^ (depth (slot s) + 1) = s % 2 ^ depth (slot s) + 2 ^ depth (slot s)
  · rw [if_pos hbit, hmove, hnew, h s hs, filter_filter, hbit]
    refine filter_congr ?_
    intro i _
    rw [mod_succ_set_iff]
    exact and_comm
  · rw [if_neg hbit]
    by_cases heq : slot t = slot s
    · have hlow : t % 2 ^ depth (slot s) = s % 2 ^ depth (slot s) := by
        have hsame := (hsound.same s hs t ht).mp heq.symm
        exact hsame.symm
      have htbit : t % 2 ^ (depth (slot s) + 1) = s % 2 ^ depth (slot s) := by
        rcases @mod_pow_succ_cases t (depth (slot s)) with hcase | hcase
        · rw [hcase, hlow]
        · rw [hlow] at hcase
          exact absurd hcase hbit
      rw [heq, hstay, hcell, h s hs, filter_filter, htbit]
      refine filter_congr ?_
      intro i _
      rw [mod_succ_clear_iff]
      exact and_comm
    · rw [hkeep t ht heq, hother t ht heq, h t ht]

theorem Holds.insert {i : ι}
    (hcell : items' (slot (hash i % 2 ^ g)) = i ::ₘ items (slot (hash i % 2 ^ g)))
    (hkeep : ∀ t < 2 ^ g, slot t ≠ slot (hash i % 2 ^ g) → items' (slot t) = items (slot t)) :
    Holds hash g slot depth items' (i ::ₘ all) := by
  intro t ht
  by_cases heq : slot t = slot (hash i % 2 ^ g)
  · have hbits := (hsound.slot_eq ht (hash i)).mp heq
    rw [heq] at hbits
    have hitems := h t ht
    rw [heq] at hitems
    rw [heq, hcell, hitems]
    exact (filter_cons_of_pos all hbits).symm
  · rw [hkeep t ht heq, h t ht, filter_cons_of_neg]
    exact fun hbits => heq ((hsound.slot_eq ht (hash i)).mpr hbits)

theorem Holds.filter {n : Nat} {keep : ι → Prop} [DecidablePred keep]
    (hhash : ∀ i ∈ all, ¬ keep i → hash i = n)
    (hcell : items' (slot (n % 2 ^ g)) = (items (slot (n % 2 ^ g))).filter keep)
    (hkeep : ∀ t < 2 ^ g, slot t ≠ slot (n % 2 ^ g) → items' (slot t) = items (slot t)) :
    Holds hash g slot depth items' (all.filter keep) := by
  intro t ht
  have hcomm : (all.filter keep).filter
      (fun i => hash i % 2 ^ depth (slot t) = t % 2 ^ depth (slot t)) =
        (items (slot t)).filter keep := by
    rw [h t ht, filter_filter, filter_filter]
    refine filter_congr ?_
    intro i _
    exact and_comm
  rw [hcomm]
  by_cases heq : slot t = slot (n % 2 ^ g)
  · rw [heq, hcell]
  · rw [hkeep t ht heq, filter_eq_self.mpr]
    intro i hi
    rw [h t ht, mem_filter] at hi
    by_contra hgone
    refine heq ((hsound.slot_eq ht n).mpr ?_)
    rw [← hhash i hi.1 hgone]
    exact hi.2

end Items

end SoupDB.Directory
