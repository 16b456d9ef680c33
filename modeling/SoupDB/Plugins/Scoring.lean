import SoupDB.Common.Value
import Mathlib.Analysis.SpecialFunctions.Log.Basic
import Mathlib.Analysis.SpecialFunctions.Sqrt

/-!
# SoupDB: scores of text ranking

TF-IDF and BM25 over an ordered field with a logarithm and a square root.  Of these the proofs
use that the logarithm is zero at one and strictly increasing and that the square root of a
positive number is positive (`Reals`); the real numbers are one instance.
-/

namespace SoupDB

variable {K : Type} [Field K] [LinearOrder K]

/-- The functions of a field that scores are made of. -/
structure Reals (K : Type) [Field K] [LinearOrder K] where
  log : K → K
  sqrt : K → K
  log_one : log 1 = 0
  log_lt : ∀ {x y : K}, 0 < x → x < y → log x < log y
  sqrt_pos : ∀ {x : K}, 0 < x → 0 < sqrt x

/-- The real numbers. -/
noncomputable def Reals.real : Reals ℝ where
  log := Real.log
  sqrt := Real.sqrt
  log_one := Real.log_one
  log_lt := Real.log_lt_log
  sqrt_pos := Real.sqrt_pos.mpr

/-- Rational numbers with an increasing function that is zero at one. -/
def Reals.rational : Reals ℚ where
  log x := x - 1
  sqrt x := x
  log_one := sub_self 1
  log_lt _ h := sub_lt_sub_right h 1
  sqrt_pos h := h

variable (R : Reals K)

/-- Unsmoothed inverse document frequency; an absent term has no weight. -/
def idf (n df : Nat) : Except PyError K :=
  if df ≤ n then .ok (if df = 0 then 0 else R.log ((n : K) / df))
  else .error (.ValueError "expected 0 <= df <= N")

/-- Cosine of vectors without negative entries; zero vectors score zero. -/
def cosine (dot queryNorm documentNorm : K) : K :=
  if queryNorm = 0 ∨ documentNorm = 0 then 0
  else min 1 (max 0 (dot / queryNorm / documentNorm))

def validateBm25 (k1 b : K) : Except PyError Unit :=
  if k1 ≤ 0 ∨ ¬ (0 ≤ b ∧ b ≤ 1) then
    .error (.ValueError "BM25 requires k1 > 0 and 0 <= b <= 1")
  else .ok ()

/-- The defaults of `k1` and `b`. -/
def defaultK1 : K := 6 / 5

def defaultB : K := 3 / 4

/-- Score of one matching term. -/
def bm25Term (tf n df docLen : Nat) (avgdl k1 b : K) : K :=
  if tf = 0 ∨ avgdl = 0 then 0
  else
    let inverseFrequency := R.log (1 + ((n : K) - df + 1 / (2 : Nat)) / (df + 1 / (2 : Nat)))
    let normalization := 1 - b + b * docLen / avgdl
    let saturation :=
      if 1 ≤ k1 then (1 + 1 / k1) / (1 / k1 + normalization / tf)
      else (1 + k1) / (1 + k1 * normalization / tf)
    inverseFrequency * saturation

/-! ## Signs -/

theorem idf_ok {R : Reals K} {n df : Nat} (h : df ≤ n) :
    idf R n df = .ok (if df = 0 then 0 else R.log ((n : K) / df)) := if_pos h

section Signs

variable [IsStrictOrderedRing K] {R}

theorem Reals.log_pos {x : K} (h : 1 < x) : 0 < R.log x := by
  have hlt := R.log_lt zero_lt_one h
  rwa [R.log_one] at hlt

/-- A term weighs something exactly when some document lacks it. -/
theorem idf_weight {n df : Nat} (hpos : 0 < df) (h : df ≤ n) :
    ∃ weight : K, idf R n df = .ok weight ∧ 0 ≤ weight ∧ (0 < weight ↔ df < n) := by
  refine ⟨R.log ((n : K) / df), ?_, ?_⟩
  · rw [idf_ok h, if_neg hpos.ne']
  · have hdf : (0 : K) < df := by exact_mod_cast hpos
    rcases Nat.eq_or_lt_of_le h with rfl | hlt
    · rw [div_self hdf.ne', R.log_one]
      simp
    · have hone : 1 < (n : K) / df := by
        rw [one_lt_div hdf]
        exact_mod_cast hlt
      exact ⟨(R.log_pos hone).le, fun _ => hlt, fun _ => R.log_pos hone⟩

theorem bm25_term_pos {tf n df docLen : Nat} {avgdl k1 b : K} (htf : 0 < tf) (hdf : df ≤ n)
    (havgdl : 0 < avgdl) (hk1 : 0 < k1) (hb : 0 ≤ b) (hb1 : b ≤ 1) :
    0 < bm25Term R tf n df docLen avgdl k1 b := by
  have htf' : (0 : K) < tf := by exact_mod_cast htf
  have hdf' : (df : K) ≤ n := by exact_mod_cast hdf
  have hdf0 : (0 : K) ≤ df := Nat.cast_nonneg df
  have hnormal : 0 ≤ 1 - b + b * docLen / avgdl := by
    have hlen : 0 ≤ b * (docLen : K) / avgdl := by positivity
    linarith
  have hlog : 0 < R.log (1 + ((n : K) - df + 1 / 2) / (df + 1 / 2)) := by
    refine R.log_pos ?_
    have hratio : 0 < ((n : K) - df + 1 / 2) / (df + 1 / 2) :=
      div_pos (by linarith) (by linarith)
    linarith
  rw [bm25Term, if_neg (by simp [htf.ne', havgdl.ne']), Nat.cast_ofNat]
  refine mul_pos hlog ?_
  split
  · positivity
  · positivity

end Signs

end SoupDB
