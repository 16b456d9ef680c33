import SoupDB.Query.Evaluator
import Mathlib.Data.List.Count

/-!
# SoupDB: LIKE

The source writes a pattern as a regular expression and hands it to `re.match`.  A
wildcard of the expression does not match a line feed, and its end also matches before a
last line feed.

Main facts: `like_matches_eq` (the evaluator's matcher is `re.match` of the expression the
source writes) and `like_exact` (when LIKE is what its documentation says).
-/

namespace SoupDB

open List

/-! ## The regular expression of a pattern -/

/-- The tokens that the source writes: `^`, `$`, `.`, `.*` and an escaped character. -/
inductive RegexToken
  | start
  | finish
  | any
  | anyStar
  | literal (char : Char)

/-- The list `chars` of the source. -/
def likeChars (pattern : List Char) : List RegexToken :=
  [.start] ++
    pattern.map (fun char =>
      if char = '%' then .anyStar else if char = '_' then .any else .literal char) ++
    [.finish]

/-- The tokens match the characters from a position on, with the default flags. -/
def reMatch : List RegexToken → Nat → List Char → Bool
  | [], _, _ => true
  | .start :: tokens, pos, value => pos = 0 && reMatch tokens pos value
  | .finish :: tokens, pos, value =>
      (value = [] || value = ['\n']) && reMatch tokens pos value
  | .any :: tokens, pos, value =>
      match value with
      | [] => false
      | c :: value => c ≠ '\n' && reMatch tokens (pos + 1) value
  | .anyStar :: tokens, pos, value =>
      (range (value.length + 1)).any (fun n =>
        '\n' ∉ value.take n && reMatch tokens (pos + n) (value.drop n))
  | .literal char :: tokens, pos, value =>
      match value with
      | [] => false
      | c :: value => c = char && reMatch tokens (pos + 1) value

theorem like_matches_nil {p : Char} (hpercent : p ≠ '%') (pattern : List Char) :
    likeMatches (p :: pattern) [] = false := by
  rw [likeMatches.eq_def]
  simp only [if_neg hpercent]

theorem like_matches_cons {p : Char} (hpercent : p ≠ '%') (pattern : List Char) (c : Char)
    (value : List Char) :
    likeMatches (p :: pattern) (c :: value) =
      ((if p = '_' then decide (c ≠ '\n') else decide (c = p)) && likeMatches pattern value) := by
  rw [likeMatches.eq_def]
  simp only [if_neg hpercent]

/-- A `%` of the evaluator's matcher skips any characters but line feeds. -/
theorem like_matches_percent (pattern value : List Char) :
    likeMatches ('%' :: pattern) value = true ↔
      ∃ n, n ≤ value.length ∧ '\n' ∉ value.take n ∧
        likeMatches pattern (value.drop n) = true := by
  induction value with
  | nil =>
      rw [likeMatches, if_pos rfl, Bool.or_false]
      constructor
      · intro h
        exact ⟨0, le_refl 0, by simp, h⟩
      · rintro ⟨n, _, _, h⟩
        rwa [drop_nil] at h
  | cons c value ih =>
      rw [likeMatches, if_pos rfl, Bool.or_eq_true, Bool.and_eq_true, ih, decide_eq_true_iff]
      constructor
      · rintro (h | ⟨hc, n, hn, hskip, h⟩)
        · exact ⟨0, Nat.zero_le _, by simp, h⟩
        · refine ⟨n + 1, Nat.succ_le_succ hn, ?_, h⟩
          rw [take_succ_cons, mem_cons, not_or]
          exact ⟨fun h => hc h.symm, hskip⟩
      · rintro ⟨n, hn, hskip, h⟩
        cases n with
        | zero => exact Or.inl h
        | succ n =>
            rw [take_succ_cons, mem_cons, not_or] at hskip
            exact Or.inr ⟨fun h => hskip.1 h.symm, n, Nat.le_of_succ_le_succ hn, hskip.2, h⟩

/-- After `^` the rest of the expression is matched as the evaluator does. -/
theorem like_matches_rest (pattern : List Char) (pos : Nat) (value : List Char) :
    likeMatches pattern value =
      reMatch
        (pattern.map (fun char =>
          if char = '%' then .anyStar else if char = '_' then .any else .literal char) ++
        [.finish]) pos value := by
  induction pattern generalizing pos value with
  | nil => simp [likeMatches, reMatch]
  | cons p pattern ih =>
      rw [map_cons, cons_append]
      by_cases hpercent : p = '%'
      · subst hpercent
        rw [if_pos rfl, reMatch, Bool.eq_iff_iff, like_matches_percent, any_eq_true]
        constructor
        · rintro ⟨n, hn, hskip, h⟩
          refine ⟨n, mem_range.mpr (by omega), ?_⟩
          rw [Bool.and_eq_true, ← ih]
          exact ⟨decide_eq_true hskip, h⟩
        · rintro ⟨n, hn, h⟩
          rw [Bool.and_eq_true, ← ih] at h
          have := mem_range.mp hn
          exact ⟨n, by omega, of_decide_eq_true h.1, h.2⟩
      · rw [if_neg hpercent]
        cases value with
        | nil =>
            rw [like_matches_nil hpercent]
            by_cases hany : p = '_'
            · rw [if_pos hany, reMatch]
            · rw [if_neg hany, reMatch]
        | cons c value =>
            rw [like_matches_cons hpercent, ih (pos + 1) value]
            by_cases hany : p = '_'
            · rw [if_pos hany, if_pos hany, reMatch]
            · rw [if_neg hany, if_neg hany, reMatch]

/-- The evaluator's matcher is `re.match` of the expression that the source writes. -/
theorem like_matches_eq (pattern value : List Char) :
    likeMatches pattern value = reMatch (likeChars pattern) 0 value := by
  rw [likeChars, singleton_append, cons_append, reMatch,
    ← like_matches_rest pattern 0 value]
  simp

/-! ## What LIKE means -/

/-- The whole value matches the pattern: `%` stands for any sequence of characters, `_` for
one character, and every other character for itself. -/
inductive Like : List Char → List Char → Prop
  | nil : Like [] []
  | percent {pattern value : List Char} (skipped : List Char) (rest : Like pattern value) :
      Like ('%' :: pattern) (skipped ++ value)
  | underscore {pattern value : List Char} (c : Char) (rest : Like pattern value) :
      Like ('_' :: pattern) (c :: value)
  | char {pattern value : List Char} {c : Char} (hpercent : c ≠ '%') (hunderscore : c ≠ '_')
      (rest : Like pattern value) : Like (c :: pattern) (c :: value)

namespace Like

variable {pattern value : List Char}

theorem nil_iff : Like [] value ↔ value = [] := by
  constructor
  · intro h
    cases h
    rfl
  · rintro rfl
    exact .nil

theorem percent_iff :
    Like ('%' :: pattern) value ↔
      Like pattern value ∨ ∃ c rest, value = c :: rest ∧ Like ('%' :: pattern) rest := by
  constructor
  · intro h
    cases h with
    | percent skipped rest =>
        cases skipped with
        | nil => exact Or.inl rest
        | cons c skipped => exact Or.inr ⟨c, _, rfl, .percent skipped rest⟩
    | char hpercent _ _ => exact absurd rfl hpercent
  · rintro (h | ⟨c, rest, rfl, h⟩)
    · exact .percent [] h
    · cases h with
      | percent skipped rest => exact .percent (c :: skipped) rest
      | char hpercent _ _ => exact absurd rfl hpercent

theorem underscore_iff :
    Like ('_' :: pattern) value ↔ ∃ c rest, value = c :: rest ∧ Like pattern rest := by
  constructor
  · intro h
    cases h with
    | underscore c rest => exact ⟨c, _, rfl, rest⟩
    | char _ hunderscore _ => exact absurd rfl hunderscore
  · rintro ⟨c, rest, rfl, h⟩
    exact .underscore c h

theorem char_iff {p : Char} (hpercent : p ≠ '%') (hunderscore : p ≠ '_') :
    Like (p :: pattern) value ↔ ∃ rest, value = p :: rest ∧ Like pattern rest := by
  constructor
  · intro h
    cases h with
    | percent _ _ => exact absurd rfl hpercent
    | underscore _ _ => exact absurd rfl hunderscore
    | char _ _ rest => exact ⟨_, rfl, rest⟩
  · rintro ⟨rest, rfl, h⟩
    exact .char hpercent hunderscore h

theorem count_le (h : Like pattern value) : pattern.count '\n' ≤ value.count '\n' := by
  induction h with
  | nil => exact le_refl _
  | percent skipped rest ih =>
      rw [count_cons_of_ne (by decide), count_append]
      omega
  | underscore c rest ih =>
      rw [count_cons_of_ne (by decide), count_cons]
      omega
  | char hpercent hunderscore rest ih =>
      rw [count_cons, count_cons]
      omega

end Like

/-! ## What the code decides -/

/-- The value matches with no line feed under a wildcard: the two have as many. -/
def Plain (pattern value : List Char) : Prop :=
  Like pattern value ∧ value.count '\n' = pattern.count '\n'

namespace Plain

variable {pattern value : List Char}

theorem nil_iff : Plain [] value ↔ value = [] := by
  rw [Plain, Like.nil_iff]
  constructor
  · intro h
    exact h.1
  · rintro rfl
    exact ⟨rfl, rfl⟩

theorem percent_iff :
    Plain ('%' :: pattern) value ↔
      Plain pattern value ∨
        ∃ c rest, value = c :: rest ∧ c ≠ '\n' ∧ Plain ('%' :: pattern) rest := by
  have hcount : ('%' :: pattern).count '\n' = pattern.count '\n' :=
    count_cons_of_ne (by decide)
  simp only [Plain, hcount]
  rw [Like.percent_iff]
  constructor
  · rintro ⟨h | ⟨c, rest, rfl, h⟩, heq⟩
    · exact Or.inl ⟨h, heq⟩
    · refine Or.inr ⟨c, rest, rfl, ?_, h, ?_⟩
      -- a line feed in `c` would leave too few for the pattern
      all_goals
        have hle := h.count_le
        rw [hcount] at hle
      · rintro rfl
        rw [count_cons_self] at heq
        omega
      · rw [count_cons] at heq
        omega
  · rintro (⟨h, heq⟩ | ⟨c, rest, rfl, hc, h, heq⟩)
    · exact ⟨Or.inl h, heq⟩
    · rw [count_cons_of_ne hc]
      exact ⟨Or.inr ⟨c, rest, rfl, h⟩, heq⟩

theorem underscore_iff :
    Plain ('_' :: pattern) value ↔ ∃ c rest, value = c :: rest ∧ c ≠ '\n' ∧ Plain pattern rest := by
  have hcount : ('_' :: pattern).count '\n' = pattern.count '\n' :=
    count_cons_of_ne (by decide)
  simp only [Plain, hcount]
  rw [Like.underscore_iff]
  constructor
  · rintro ⟨⟨c, rest, rfl, h⟩, heq⟩
    have hle := h.count_le
    refine ⟨c, rest, rfl, ?_, h, ?_⟩
    · rintro rfl
      rw [count_cons_self] at heq
      omega
    · rw [count_cons] at heq
      omega
  · rintro ⟨c, rest, rfl, hc, h, heq⟩
    rw [count_cons_of_ne hc]
    exact ⟨⟨c, rest, rfl, h⟩, heq⟩

theorem char_iff {p : Char} (hpercent : p ≠ '%') (hunderscore : p ≠ '_') :
    Plain (p :: pattern) value ↔ ∃ rest, value = p :: rest ∧ Plain pattern rest := by
  simp only [Plain]
  rw [Like.char_iff hpercent hunderscore]
  constructor
  · rintro ⟨⟨rest, rfl, h⟩, heq⟩
    rw [count_cons, count_cons] at heq
    exact ⟨rest, rfl, h, by omega⟩
  · rintro ⟨rest, rfl, h, heq⟩
    rw [count_cons, count_cons]
    exact ⟨⟨rest, rfl, h⟩, by omega⟩

end Plain

/-- The matcher matches all of the value, or all but a last line feed, with no line feed
under a wildcard. -/
theorem like_matches_iff (pattern value : List Char) :
    likeMatches pattern value = true ↔
      ∃ found rest, value = found ++ rest ∧ (rest = [] ∨ rest = ['\n']) ∧
        Plain pattern found := by
  induction pattern generalizing value with
  | nil =>
      simp only [likeMatches, Plain.nil_iff, Bool.or_eq_true, decide_eq_true_iff]
      constructor
      · intro h
        exact ⟨[], value, rfl, h, rfl⟩
      · rintro ⟨found, rest, rfl, h, rfl⟩
        exact h
  | cons p pattern ih =>
      by_cases hpercent : p = '%'
      · subst hpercent
        induction value with
        | nil =>
            rw [likeMatches, if_pos rfl, Bool.or_false, ih]
            constructor
            · rintro ⟨found, rest, hvalue, hrest, h⟩
              exact ⟨found, rest, hvalue, hrest, Plain.percent_iff.mpr (Or.inl h)⟩
            · rintro ⟨found, rest, hvalue, hrest, h⟩
              rcases Plain.percent_iff.mp h with h | ⟨c, found, rfl, _, _⟩
              · exact ⟨found, rest, hvalue, hrest, h⟩
              · cases hvalue
        | cons c value ihvalue =>
            rw [likeMatches, if_pos rfl, Bool.or_eq_true, Bool.and_eq_true, ih, ihvalue,
              decide_eq_true_iff]
            constructor
            · rintro (⟨found, rest, hvalue, hrest, h⟩ | ⟨hc, found, rest, hvalue, hrest, h⟩)
              · exact ⟨found, rest, hvalue, hrest, Plain.percent_iff.mpr (Or.inl h)⟩
              · refine ⟨c :: found, rest, by rw [hvalue, cons_append], hrest, ?_⟩
                exact Plain.percent_iff.mpr (Or.inr ⟨c, found, rfl, hc, h⟩)
            · rintro ⟨found, rest, hvalue, hrest, hfound⟩
              rcases Plain.percent_iff.mp hfound with h | ⟨d, tail, rfl, hd, h⟩
              · exact Or.inl ⟨found, rest, hvalue, hrest, h⟩
              · rw [cons_append, List.cons.injEq] at hvalue
                obtain ⟨rfl, hvalue⟩ := hvalue
                exact Or.inr ⟨hd, tail, rest, hvalue, hrest, h⟩
      · have hstep : ∀ (holds : Char → Prop),
            (∀ found, Plain (p :: pattern) found ↔
              ∃ c rest, found = c :: rest ∧ holds c ∧ Plain pattern rest) →
            (∀ c, (if p = '_' then decide (c ≠ '\n') else decide (c = p)) = true ↔ holds c) →
            (likeMatches (p :: pattern) value = true ↔
              ∃ found rest, value = found ++ rest ∧ (rest = [] ∨ rest = ['\n']) ∧
                Plain (p :: pattern) found) := by
          intro holds hplain hone
          simp only [hplain]
          cases value with
          | nil =>
              rw [like_matches_nil hpercent]
              constructor
              · intro h
                cases h
              · rintro ⟨_, rest, hvalue, _, c, found, rfl, _, _⟩
                cases hvalue
          | cons c value =>
              rw [like_matches_cons hpercent, Bool.and_eq_true, hone, ih]
              constructor
              · rintro ⟨hc, found, rest, rfl, hrest, h⟩
                exact ⟨c :: found, rest, rfl, hrest, c, found, rfl, hc, h⟩
              · rintro ⟨_, rest, hvalue, hrest, d, found, rfl, hd, h⟩
                rw [cons_append, List.cons.injEq] at hvalue
                obtain ⟨rfl, hvalue⟩ := hvalue
                exact ⟨hd, found, rest, hvalue, hrest, h⟩
        by_cases hany : p = '_'
        · subst hany
          refine hstep (fun c => c ≠ '\n') (fun found => Plain.underscore_iff) ?_
          intro c
          rw [if_pos rfl, decide_eq_true_iff]
        · refine hstep (fun c => c = p) ?_ ?_
          · intro found
            rw [Plain.char_iff hpercent hany]
            constructor
            · rintro ⟨rest, rfl, h⟩
              exact ⟨p, rest, rfl, rfl, h⟩
            · rintro ⟨c, rest, rfl, rfl, h⟩
              exact ⟨rest, rfl, h⟩
          · intro c
            rw [if_neg hany, decide_eq_true_iff]

/-- A last line feed of the value is left over, and the rest matches. -/
def LastLeftOver (pattern value : List Char) : Prop :=
  value.count '\n' = pattern.count '\n' + 1 ∧
    ∃ found, value = found ++ ['\n'] ∧ Like pattern found

theorem like_matches_iff_like (pattern value : List Char) :
    likeMatches pattern value = true ↔ Plain pattern value ∨ LastLeftOver pattern value := by
  rw [like_matches_iff]
  constructor
  · rintro ⟨found, rest, rfl, rfl | rfl, h⟩
    · rw [append_nil]
      exact Or.inl h
    · refine Or.inr ⟨?_, found, rfl, h.1⟩
      rw [count_append, h.2, count_singleton_self]
  · rintro (h | ⟨hcount, found, rfl, h⟩)
    · exact ⟨value, [], (append_nil value).symm, Or.inl rfl, h⟩
    · rw [count_append, count_singleton_self] at hcount
      exact ⟨found, ['\n'], rfl, Or.inr rfl, h, by omega⟩

/-- The value has no line feed more than the pattern; or, where it has more, it matches just
when it has one more, at its end, and matches without it. -/
def LineFeedsStand (pattern value : List Char) : Prop :=
  value.count '\n' ≤ pattern.count '\n' ∨ (Like pattern value ↔ LastLeftOver pattern value)

theorem like_matches_exact (pattern value : List Char) :
    (likeMatches pattern value = true ↔ Like pattern value) ↔
      LineFeedsStand pattern value := by
  rw [like_matches_iff_like, LineFeedsStand]
  by_cases hcount : value.count '\n' ≤ pattern.count '\n'
  · refine iff_of_true ?_ (Or.inl hcount)
    constructor
    · rintro (h | h)
      · exact h.1
      · have := h.1
        omega
    · intro h
      have := h.count_le
      exact Or.inl ⟨h, by omega⟩
  · have hplain : ¬ Plain pattern value := fun h => hcount (le_of_eq h.2)
    rw [or_iff_right hplain, or_iff_right hcount]
    exact Iff.comm

/-- The predicate of two strings is TRUE exactly when `re.match` finds a match. -/
theorem evaluate_like (env : Environment) (row : Row) (schema : List ColumnDef)
    {left right : Expr} {value pattern : String}
    (hvalue : evaluate env row schema left = .ok (.value (.str value)))
    (hpattern : evaluate env row schema right = .ok (.value (.str pattern))) :
    evaluate env row schema (.LikeExpr left right) = .ok (.value (.bool true)) ↔
      reMatch (likeChars pattern.toList) 0 value.toList = true := by
  have heval : evaluate env row schema (.LikeExpr left right) =
      .ok (.value (.bool (likeMatches pattern.toList value.toList))) := by
    rw [evaluate, hvalue, hpattern]
    rfl
  rw [heval, ← like_matches_eq]
  simp

/-- LIKE is TRUE exactly when the whole value matches, if and only if the line feeds of the
value stand. -/
theorem like_exact (env : Environment) (row : Row) (schema : List ColumnDef)
    {left right : Expr} {value pattern : String}
    (hvalue : evaluate env row schema left = .ok (.value (.str value)))
    (hpattern : evaluate env row schema right = .ok (.value (.str pattern))) :
    (evaluate env row schema (.LikeExpr left right) = .ok (.value (.bool true)) ↔
      Like pattern.toList value.toList) ↔
    LineFeedsStand pattern.toList value.toList := by
  rw [evaluate_like env row schema hvalue hpattern, ← like_matches_eq]
  exact like_matches_exact _ _

/-- A pattern of both wildcards, and a value of two lines. -/
theorem like_exact_two_lines :
    (evaluate ⟨id, id, fun _ => 0, fun _ _ _ => .ok 0, fun vertices => .ok vertices,
          fun _ _ => .ok true⟩
        [.str "a\nbc"] [⟨"t", .TEXT, none⟩] (.LikeExpr (.ColumnRef "t") (.Literal (.str "a%_c"))) =
      .ok (.value (.bool true)) ↔ Like "a%_c".toList "a\nbc".toList) ↔
    LineFeedsStand "a%_c".toList "a\nbc".toList :=
  like_exact _ _ _ rfl rfl

/-- A `%` does not reach over a line feed. -/
theorem percent_stops_at_line_feed :
    ¬ ∀ value pattern : String,
      evaluate ⟨id, id, fun _ => 0, fun _ _ _ => .ok 0, fun vertices => .ok vertices,
            fun _ _ => .ok true⟩ [] [] (.LikeExpr (.Literal (.str value))
              (.Literal (.str pattern))) =
        .ok (.value (.bool true)) ↔ Like pattern.toList value.toList := by
  intro h
  have hlike : Like "a%".toList "a\nb".toList :=
    .char (by decide) (by decide) (.percent ['\n', 'b'] .nil)
  have hmatch := (evaluate_like _ _ _ rfl rfl).mp ((h "a\nb" "a%").mpr hlike)
  exact absurd hmatch (by decide)

end SoupDB
