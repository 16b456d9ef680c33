import SoupDB.Common.Schema
import SoupDB.Lib.Effect
import SoupDB.Lib.OrderedDict
import SoupDB.Lib.Ranking
import SoupDB.Lib.Transition
import Mathlib.Data.Finset.Card

/-!
# SoupDB: vector indexes under INSERT and DELETE

An index that vectors can be added to and not removed from, with the RIDs that are removed
from the table kept aside and left out of the results.

Main fact: `top_k_represents`.  As long as no RID is inserted that the index already has, the
index answers as the finite map from the live RIDs to their vectors.
-/

namespace SoupDB

open List

variable {Q V K : Type} [LinearOrder K]

/-- An exact append-only index: it answers with the best of all it has been given. -/
structure ExactBase (Q V K : Type) [LinearOrder K] where
  score : Q → V → K
  top : List (RID × V) → Q → Nat → List (RID × V)
  exact : ∀ items q k, IsTopK (fun e => score q e.2) k items (top items q k)

/-- Sorting all entries. -/
def ExactBase.sorting (score : Q → V → K) : ExactBase Q V K where
  score := score
  top items q k := (byScore (fun e => score q e.2) items).take k
  exact _ _ k := isTopK_byScore _ k _

structure MutableVectorIndex (V : Type) where
  base : List (RID × V)
  removed : Finset RID

namespace MutableVectorIndex

abbrev Method (V α : Type) : Type := Effect PyError (MutableVectorIndex V) α

variable (vectorize : String → Except PyError V)

def insertDocument (rid : RID) : Datum → Method V Unit
  | .null => pure ()
  | .str value => do
      let vector ← Effect.lift (vectorize value)
      Effect.modify (fun s => { s with removed := s.removed.erase rid })
      Effect.modify (fun s => { s with base := s.base ++ [(rid, vector)] })
  | _ => Effect.raise (.ValueError "vector-indexed reference must be text")

def removeDocument (rid : RID) : Method V Unit :=
  Effect.modify (fun s => { s with removed := insert rid s.removed })

def topK (E : ExactBase Q V K) (s : MutableVectorIndex V) (query : Q) (k : Nat) :
    List (RID × K) :=
  let needed := k + s.removed.card
  let hits := E.top s.base query needed
  ((hits.filter (fun e => e.1 ∉ s.removed)).take k).map (fun e => (e.1, E.score query e.2))

/-- A call that maintains the index. -/
inductive Call
  | insertDocument (rid : RID) (value : Datum)
  | removeDocument (rid : RID) (value : Datum)

def perform : Call → Method V Unit
  | .insertDocument rid value => insertDocument vectorize rid value
  | .removeDocument rid _ => removeDocument rid

def step (s : MutableVectorIndex V) (call : Call) : MutableVectorIndex V :=
  (perform vectorize call s).2

/-- An index that was just built. -/
def ofBase (items : OrderedDict RID V) : MutableVectorIndex V := ⟨items.entries, ∅⟩

/-! ## The finite map -/

/-- The vector of a value, if the value is to be indexed. -/
def vectorOf : Datum → Option V
  | .str value => (vectorize value).toOption
  | _ => none

/-- What a call means for the map from live RIDs to their latest vectors. -/
def update (live : OrderedDict RID V) : Call → OrderedDict RID V
  | .insertDocument rid value =>
      match vectorOf vectorize value with
      | some vector => live.set rid vector
      | none => live
  | .removeDocument rid _ => live.erase rid

/-- The call inserts no RID that the index already has, live or removed. -/
def fresh (s : MutableVectorIndex V) : Call → Bool
  | .insertDocument rid value =>
      (vectorOf vectorize value).isNone || decide (rid ∉ s.base.map Prod.fst)
  | .removeDocument _ _ => true

/-- Each RID once, and those that are not removed are the entries of the map. -/
structure Represents (s : MutableVectorIndex V) (live : OrderedDict RID V) : Prop where
  nodup : (s.base.map Prod.fst).Nodup
  live : (s.base.filter (fun e => e.1 ∉ s.removed)).Perm live.entries

theorem represents_of_base (items : OrderedDict RID V) : Represents (ofBase items) items := by
  refine ⟨items.nodup, ?_⟩
  have hall : items.entries.filter (fun e => e.1 ∉ (∅ : Finset RID)) = items.entries := by
    simp
  rw [ofBase, hall]

variable {vectorize}

theorem step_insert (s : MutableVectorIndex V) (rid : RID) (value : Datum) :
    step vectorize s (.insertDocument rid value) =
      match vectorOf vectorize value with
      | some vector =>
          { base := s.base ++ [(rid, vector)], removed := s.removed.erase rid }
      | none => s := by
  cases value with
  | str value =>
      rw [step, perform, insertDocument, vectorOf]
      cases hvector : vectorize value with
      | error e => rfl
      | ok vector => rfl
  | _ => rfl

section Step

variable {s : MutableVectorIndex V} {live : OrderedDict RID V} (h : Represents s live)
include h

theorem not_mem_keys {rid : RID} (hrid : rid ∉ s.base.map Prod.fst) : rid ∉ live.keys := by
  intro hmem
  obtain ⟨e, he, rfl⟩ := mem_map.mp hmem
  exact hrid (mem_map_of_mem (mem_of_mem_filter (h.live.mem_iff.mpr he)))

/-- A RID that the index does not have is added to both. -/
theorem represents_insert {rid : RID} (hrid : rid ∉ s.base.map Prod.fst) (vector : V) :
    Represents { base := s.base ++ [(rid, vector)], removed := s.removed.erase rid }
      (live.set rid vector) := by
  have hkeys : live.get? rid = none := OrderedDict.get?_eq_none.mpr (not_mem_keys h hrid)
  have hset : (live.set rid vector).entries = live.entries ++ [(rid, vector)] :=
    OrderedDict.entries_set_of_new hkeys
  have hsame : s.base.filter (fun e => e.1 ∉ s.removed.erase rid) =
      s.base.filter (fun e => e.1 ∉ s.removed) := by
    refine filter_congr (fun e he => ?_)
    have hne : e.1 ≠ rid := fun heq => hrid (heq ▸ mem_map_of_mem he)
    simp [hne]
  constructor
  · rw [map_append, nodup_append]
    refine ⟨h.nodup, by simp, ?_⟩
    rintro a ha b hb rfl
    rw [map_cons, map_nil, mem_singleton] at hb
    rw [hb] at ha
    exact hrid ha
  · rw [hset, filter_append, hsame]
    refine h.live.append ?_
    rw [filter_cons_of_pos (by simp), filter_nil]

theorem represents_remove (rid : RID) :
    Represents { s with removed := insert rid s.removed } (live.erase rid) := by
  refine ⟨h.nodup, ?_⟩
  have hsplit : s.base.filter (fun e => e.1 ∉ insert rid s.removed) =
      (s.base.filter (fun e => e.1 ∉ s.removed)).filter (fun e => e.1 ≠ rid) := by
    rw [filter_filter]
    refine filter_congr (fun e _ => ?_)
    simp [Finset.mem_insert, not_or]
  rw [hsplit]
  exact h.live.filter _

theorem represents_step {call : Call} (hfresh : fresh vectorize s call = true) :
    Represents (step vectorize s call) (update vectorize live call) := by
  cases call with
  | insertDocument rid value =>
      rw [step_insert, update]
      rw [fresh] at hfresh
      cases hvector : vectorOf vectorize value with
      | none => exact h
      | some vector =>
          rw [hvector] at hfresh
          exact represents_insert h (by simpa using hfresh) vector
  | removeDocument rid value => exact represents_remove h rid

theorem isTopK_of_represents (E : ExactBase Q V K) (query : Q) (k : Nat) :
    ∃ hits, IsTopK (fun e => E.score query e.2) k live.entries hits ∧
      topK E s query k = hits.map (fun e => (e.1, E.score query e.2)) := by
  have hfail : s.base.countP (fun e => !decide (e.1 ∉ s.removed)) ≤ s.removed.card := by
    have hnodup : ((s.base.filter (fun e => !decide (e.1 ∉ s.removed))).map Prod.fst).Nodup :=
      (filter_sublist.map Prod.fst).nodup h.nodup
    rw [countP_eq_length_filter, ← length_map Prod.fst,
      ← toFinset_card_of_nodup hnodup]
    refine Finset.card_le_card (fun rid hrid => ?_)
    obtain ⟨e, he, rfl⟩ := mem_map.mp (mem_toFinset.mp hrid)
    simpa using (mem_filter.mp he).2
  exact ⟨_, ((E.exact s.base query (k + s.removed.card)).filter hfail).of_perm h.live, rfl⟩

end Step

/-- In a run that inserts no RID the index already has, the index answers as the map from live
RIDs to their latest vectors. -/
theorem top_k_represents (E : ExactBase Q V K) (items : OrderedDict RID V) (calls : List Call)
    (hfresh : Steps (fun s call => fresh vectorize s call = true) (step vectorize)
      (ofBase items) calls) (query : Q) (k : Nat) :
    ∃ hits, IsTopK (fun e => E.score query e.2) k (exec (update vectorize) items calls).entries
        hits ∧
      topK E (exec (step vectorize) (ofBase items) calls) query k =
        hits.map (fun e => (e.1, E.score query e.2)) := by
  suffices hrun : ∀ (calls : List Call) (s : MutableVectorIndex V) (live : OrderedDict RID V),
      Represents s live → Steps (fun s call => fresh vectorize s call = true) (step vectorize)
        s calls → Represents (exec (step vectorize) s calls)
          (exec (update vectorize) live calls) by
    exact isTopK_of_represents (hrun calls _ items (represents_of_base items) hfresh) E query k
  intro calls
  induction calls with
  | nil => exact fun s live h _ => h
  | cons call calls ih =>
      exact fun s live h hsteps => ih _ _ (represents_step h hsteps.1) hsteps.2

/-! ## A RID inserted again -/

/-- The vector of a text is its length, and longer is better. -/
def lengthVector (text : String) : Except PyError Nat := .ok text.length

def byLength : ExactBase Unit Nat Nat := ExactBase.sorting (fun _ v => v)

/-- An index of one row with the text `a`. -/
def oneRow : OrderedDict RID Nat := ⟨[(⟨0, 0⟩, 1)], nodup_singleton _⟩

/-- A text inserted, the first row deleted, and one more inserted. -/
def callsOnce : List Call :=
  [.insertDocument ⟨0, 1⟩ (.str "ab"), .removeDocument ⟨0, 0⟩ (.str "a"),
    .insertDocument ⟨0, 2⟩ (.str "abc")]

theorem top_k_represents_of_calls_once :
    ∃ hits, IsTopK (fun e => byLength.score () e.2) 2
        (exec (update lengthVector) oneRow callsOnce).entries hits ∧
      topK byLength (exec (step lengthVector) (ofBase oneRow) callsOnce) () 2 =
        hits.map (fun e => (e.1, byLength.score () e.2)) :=
  top_k_represents byLength oneRow callsOnce (by decide) () 2

/-- The row removed and inserted again with another text. -/
def callsAgain : List Call :=
  [.removeDocument ⟨0, 0⟩ (.str "a"), .insertDocument ⟨0, 0⟩ (.str "ab")]

/-- Its old vector is back beside the new one. -/
theorem superseded_vector_returned :
    topK byLength (exec (step lengthVector) (ofBase oneRow) callsAgain) () 2 =
        [(⟨0, 0⟩, 2), (⟨0, 0⟩, 1)] ∧
      (exec (update lengthVector) oneRow callsAgain).entries = [(⟨0, 0⟩, 2)] ∧
      ¬ ∃ hits, IsTopK (fun e => byLength.score () e.2) 2
          (exec (update lengthVector) oneRow callsAgain).entries hits ∧
        topK byLength (exec (step lengthVector) (ofBase oneRow) callsAgain) () 2 =
          hits.map (fun e => (e.1, byLength.score () e.2)) := by
  have htop : topK byLength (exec (step lengthVector) (ofBase oneRow) callsAgain) () 2 =
      [(⟨0, 0⟩, 2), (⟨0, 0⟩, 1)] := by decide
  have hlive : (exec (update lengthVector) oneRow callsAgain).entries = [(⟨0, 0⟩, 2)] := by
    decide
  refine ⟨htop, hlive, ?_⟩
  rintro ⟨hits, ⟨order, hperm, -, rfl⟩, hanswer⟩
  have hlength := congrArg length hanswer
  rw [hlive] at hperm
  rw [htop, length_map, length_take, hperm.length_eq] at hlength
  revert hlength
  decide

end MutableVectorIndex
end SoupDB
