import SoupDB.Query.FormatWeight

/-!
# SoupDB: renderings that write their expression

Where the tokens of a rendering write the expression, each operand is written by the tokens of its
own rendering, and only a logical expression has parentheses of its own.  So the expression is
faithful.

Main fact: `rendered_of_writes`.
-/

namespace SoupDB.Parser

open List

open Brackets (Balanced)
open Lexer (Item Spelled)

variable {h : Host} {str : Value → String}

/-- What follows when the tokens of a phrase are those of its rendering, or of its rendering without
the parentheses of a logical expression. -/
def Rendered (str : Value → String) : Phrase → List Token → Prop
  | .expr level e, ts =>
      (ts.map Token.shape = shapes (parts str e) → Faithful str e ∧ Fits level e) ∧
        ∀ left op right, e = .LogicalExpr left op right →
          ts.map Token.shape = shapes (spaced (parts str left) (word .KEYWORD op) (parts str right))
            →
          Faithful str e
  | .items es, ts =>
      ts.map Token.shape = shapes (joined (partsList str es)) → FaithfulItems str es
  | .pair first second, ts =>
      ts.map Token.shape = shapes (enclosed (joined [parts str first, parts str second])) →
        Faithful str first ∧ Faithful str second
  | .vertices _, _ => True

section Converse

variable {p p₁ p₂ : Phrase} {ts ts₁ ts₂ : List Token} {level level' : Level} {e : Expr} {t : Token}

theorem Fits.mono (hfits : Fits level e) (hlevel : level.index ≤ level'.index) : Fits level' e :=
  Nat.le_trans hfits hlevel

variable {left right : Expr} {op : String} {o : Token}

theorem rank_additive (hop : op ∈ ["+", "-"]) :
    rank (.BinaryExpr left op right) = .arithmetic := if_pos hop

theorem rank_multiplicative (hop : op ∉ ["+", "-"]) :
    rank (.BinaryExpr left op right) = .term := if_neg hop

theorem Rendered.other (hlogical : ∀ left op right, e ≠ .LogicalExpr left op right)
    (hexpr : ts.map Token.shape = shapes (parts str e) → Faithful str e ∧ Fits level e) :
    Rendered str (.expr level e) ts :=
  ⟨hexpr, fun left op right heq => absurd heq (hlogical left op right)⟩

theorem Rendered.lift (hrendered : Rendered str (.expr level e) ts)
    (hlevel : level.index ≤ level'.index) : Rendered str (.expr level' e) ts :=
  ⟨fun hts => ⟨(hrendered.1 hts).1, (hrendered.1 hts).2.mono hlevel⟩, hrendered.2⟩

/-- The operands on both sides of an operator are those of the rendering. -/
theorem operands {b : Shape} {us vs : List Shape} (h₁ : Measured str p₁ ts₁)
    (ho : bracket (Token.shape o) = none) (h₂ : Measured str p₂ ts₂) (hb : bracket b = none)
    (hus : phraseWeight str p₁ = weight us) (hvs : phraseWeight str p₂ = weight vs)
    (hts : (ts₁ ++ o :: ts₂).map Token.shape = us ++ b :: vs) :
    ts₁.map Token.shape = us ∧ ts₂.map Token.shape = vs := by
  have hw₁ := h₁.bound
  have hw₂ := h₂.bound
  rw [map_append, map_cons] at hts
  obtain ⟨hleft, _, hright⟩ := split_at ho hb hts (by omega) (by omega)
  exact ⟨hleft, hright⟩

theorem group_eq {l r : Token} {a b : Shape} {us : List Shape}
    (hts : (l :: ts ++ [r]).map Token.shape = a :: us ++ [b]) : ts.map Token.shape = us := by
  rw [cons_append, map_cons, map_append, map_singleton, cons_append,
    cons.injEq] at hts
  exact (append_inj' hts.2 rfl).1

theorem shapes_operator {left right : List Item} (op : String) :
    shapes (spaced left (operator op) right) =
      shapes left ++ ((if op = "*" then .STAR else .OPERATOR), op) :: shapes right :=
  shapes_spaced _ _

theorem bracket_operator (op : String) :
    bracket ((if op = "*" then .STAR else .OPERATOR), op) = none := by
  split <;> rfl

theorem shapes_parts_start (str : Value → String) (e : Expr) :
    (∃ left op right, e = .LogicalExpr left op right) ∨
      (∃ s ss, bracket s = none ∧ shapes (parts str e) = s :: ss) ∨
      ∃ left s ss, shapes (parts str e) = shapes (parts str left) ++ s :: ss := by
  have hliteral : ∀ value, ∃ s ss, bracket s = none ∧ shapes (literalParts str value) = s :: ss :=
    by
    have hfloat : ∀ text, ∃ s ss, bracket s = none ∧ shapes (floatParts text) = s :: ss := by
      intro text
      rw [floatParts]
      split
      · exact ⟨_, _, rfl, rfl⟩
      · split
        · exact ⟨_, _, rfl, rfl⟩
        · exact ⟨_, _, rfl, rfl⟩
    intro value
    cases value with
    | null | bool | str | int => exact ⟨_, _, rfl, rfl⟩
    | float q => exact hfloat _
    | tuple items => exact hfloat _
  cases e with
  | LogicalExpr left op right => exact Or.inl ⟨left, op, right, rfl⟩
  | Literal value =>
      simp only [parts]
      exact Or.inr (Or.inl (hliteral value))
  | FunctionExpr name arg distinct =>
      cases arg with
      | none =>
          simp only [parts]
          exact Or.inr (Or.inl ⟨_, _, rfl, rfl⟩)
      | some arg =>
          simp only [parts]
          exact Or.inr (Or.inl ⟨_, _, rfl, rfl⟩)
  | ColumnRef | StarExpr | SimilarToExpr | SearchExpr | MatchExpr | ScoreExpr | BoundScoreExpr
  | PointExpr | DistanceExpr | PolygonExpr | IntersectsExpr | Parameter | NotExpr =>
      simp only [parts]
      exact Or.inr (Or.inl ⟨_, _, rfl, rfl⟩)
  | CompareExpr left op right | BinaryExpr left op right =>
      simp only [parts]
      exact Or.inr (Or.inr ⟨left, _, _, shapes_operator op⟩)
  | IsNullExpr value negated | InExpr value items | LikeExpr value pattern =>
      simp only [parts]
      exact Or.inr (Or.inr ⟨value, _, _, shapes_spaced _ _⟩)
  | BetweenExpr value lo hi =>
      simp only [parts]
      have hstart : shapes (spaced (spaced (parts str value) (word .KEYWORD "BETWEEN")
          (parts str lo)) (word .KEYWORD "AND") (parts str hi)) =
          shapes (parts str value) ++
            (.KEYWORD, "BETWEEN") :: (shapes (parts str lo) ++ (.KEYWORD, "AND") ::
              shapes (parts str hi)) := by
        rw [shapes_spaced, shapes_spaced, append_assoc, cons_append]
      exact Or.inr (Or.inr ⟨value, _, _, hstart⟩)

theorem shapes_parts_ne_nil (e : Expr) : shapes (parts str e) ≠ [] := by
  rcases shapes_parts_start str e with ⟨left, op, right, rfl⟩ | ⟨s, ss, _, hss⟩ | ⟨left, s, ss, hss⟩
  · simp [parts]
  · simp [hss]
  · simp [hss]

theorem logical_of_enclosed {inner : List Shape} {a b : Shape} (ha : bracket a = some true)
    (hinner : Balanced bracket inner) (he : a :: inner ++ [b] = shapes (parts str e)) :
    ∃ left op right, e = .LogicalExpr left op right := by
  rcases shapes_parts_start str e with hlogical | ⟨s, ss, hs, hss⟩ | ⟨left, s, ss, hss⟩
  · exact hlogical
  · rw [hss, cons_append, cons.injEq] at he
    rw [he.1, hs] at ha
    cases ha
  · rw [hss] at he
    exact absurd hinner (Brackets.not_balanced_inside ha (balanced_parts left)
      (shapes_parts_ne_nil left) (cons_ne_nil _ _) he)

theorem rendered_number {value : Value} (hlexical : Lexical h t) (hkind : t.kind = .NUMBER)
    (hvalue : numberValue h t.value = .ok value) :
    Rendered str (.expr .primary (.Literal value)) [t] := by
  refine .other (by simp) fun hts => ⟨?_, le_refl _⟩
  rcases number_value_cases hvalue with ⟨_, rfl⟩ | ⟨i, _, rfl⟩
  · simp only [parts, literalParts] at hts
    rw [floatParts] at hts
    split at hts
    · have hname : t.kind = .IDENTIFIER := congrArg Prod.fst (cons.inj hts).1
      rw [hname] at hkind
      cases hkind
    · split at hts
      · have hsign : t.kind = .OPERATOR := congrArg Prod.fst (cons.inj hts).1
        rw [hsign] at hkind
        cases hkind
      · have hvalue : t.value = str (.float (h.float t.value)) :=
          congrArg Prod.snd (cons.inj hts).1
        obtain ⟨lexeme, hspelled⟩ := hlexical
        rw [hkind, hvalue] at hspelled
        exact (spelled_number hspelled).2
  · trivial

theorem Rendered.group {l r : Token} (hl : l.kind = .LPAREN)
    (hmeasured : Measured str (.expr .disjunction e) ts)
    (hrendered : Rendered str (.expr .disjunction e) ts) :
    Rendered str (.expr .primary e) (l :: ts ++ [r]) := by
  have hmap : (l :: ts ++ [r]).map Token.shape =
      Token.shape l :: ts.map Token.shape ++ [Token.shape r] := by simp
  refine ⟨fun hts => ?_, ?_⟩
  · obtain ⟨left, op, right, rfl⟩ :=
      logical_of_enclosed (bracket_lparen hl) hmeasured.balanced (hmap ▸ hts)
    simp only [parts] at hts
    rw [shapes_enclosed] at hts
    exact ⟨hrendered.2 left op right rfl (group_eq hts), le_refl _⟩
  · rintro left op right rfl hts
    rw [hmap, shapes_spaced] at hts
    exact absurd hmeasured.balanced (Brackets.not_balanced_inside (bracket_lparen hl)
      (balanced_parts left) (shapes_parts_ne_nil left) (cons_ne_nil _ _) hts)

section

variable (ho : bracket (Token.shape o) = none) (h₁ : Measured str (.expr level left) ts₁)
    (h₂ : Measured str (.expr level' right) ts₂)
include ho h₁ h₂

theorem Rendered.logical (hr₁ : Rendered str (.expr level left) ts₁)
    (hr₂ : Rendered str (.expr level' right) ts₂) {outer : Level} :
    Rendered str (.expr outer (.LogicalExpr left op right)) (ts₁ ++ o :: ts₂) := by
  refine ⟨fun hts => ?_, ?_⟩
  · simp only [parts] at hts
    rw [shapes_enclosed, map_append, map_cons] at hts
    by_cases hnil : ts₁ = []
    · subst hnil
      rw [map_nil, nil_append, cons_append, cons.injEq] at hts
      rw [hts.1] at ho
      cases ho
    · exact absurd (composed_balanced.spaced (balanced_parts left) rfl (balanced_parts right))
        (Brackets.not_balanced_inside rfl h₁.balanced (by simpa using hnil) (cons_ne_nil _ _)
          hts.symm)
  · rintro left' op' right' heq hts
    cases heq
    rw [shapes_spaced] at hts
    obtain ⟨hleft, hright⟩ := operands h₁ ho h₂ rfl rfl rfl hts
    exact ⟨(hr₁.1 hleft).1, (hr₂.1 hright).1⟩

theorem Rendered.infix (hr₁ : Rendered str (.expr level left) ts₁)
    (hr₂ : Rendered str (.expr level' right) ts₂)
    (hts : (ts₁ ++ o :: ts₂).map Token.shape =
      shapes (spaced (parts str left) (operator op) (parts str right))) :
    (Fits level left ∧ Fits level' right) ∧ Faithful str left ∧ Faithful str right := by
  rw [shapes_operator] at hts
  obtain ⟨hleft, hright⟩ := operands h₁ ho h₂ (bracket_operator op) rfl rfl hts
  obtain ⟨hfaithful₁, hfits₁⟩ := hr₁.1 hleft
  obtain ⟨hfaithful₂, hfits₂⟩ := hr₂.1 hright
  exact ⟨⟨hfits₁, hfits₂⟩, hfaithful₁, hfaithful₂⟩

end

/-- An expression that is written by the tokens of its rendering is faithful. -/
theorem rendered_of_writes (hwrites : Writes h p ts) (hlexical : ∀ t ∈ ts, Lexical h t) :
    Rendered str p ts := by
  induction hwrites with
  | number kind hvalue => exact rendered_number (hlexical _ mem_cons_self) kind hvalue
  | string kind => exact .other (by simp) fun _ => ⟨trivial, le_refl _⟩
  | parameter kind hvalue hindex =>
      refine .other (by simp) fun hts => ?_
      simp only [parts] at hts
      cases (cons.inj hts).2
  | trueLiteral word | falseLiteral word => exact .other (by simp) fun _ => ⟨trivial, le_refl _⟩
  | null kind => exact .other (by simp) fun _ => ⟨trivial, le_refl _⟩
  | column kind => exact .other (by simp) fun _ => ⟨trivial, le_refl _⟩
  | group left inner right ih =>
      simp only [forall_mem_append, forall_mem_cons] at hlexical
      exact .group left (measured_of_writes str inner) (ih hlexical.1.2)
  | @pair l c r first second ts₁ ts₂ left hfirst sep hsecond right ih₁ ih₂ =>
      intro hts
      simp only [forall_mem_append, forall_mem_cons] at hlexical
      have hgroup : l :: ts₁ ++ c :: ts₂ ++ [r] = l :: (ts₁ ++ c :: ts₂) ++ [r] := by simp
      rw [hgroup, shapes_enclosed] at hts
      have hinner := group_eq hts
      rw [joined_cons (cons_ne_nil _ _), joined, shapes_append, shapes_word, shapes_gap]
        at hinner
      obtain ⟨h₁, h₂⟩ := operands (measured_of_writes str hfirst) (bracket_of_eq sep (by decide))
        (measured_of_writes str hsecond) rfl rfl rfl hinner
      exact ⟨((ih₁ hlexical.1.1.2).1 h₁).1, ((ih₂ hlexical.1.2.2).1 h₂).1⟩
  | score word left right | similarityScore word left right =>
      exact .other (by simp) fun _ => ⟨trivial, le_refl _⟩
  | similarTo word left _ sep hk heq hn hcount right ih =>
      exact .other (by simp) fun _ => ⟨trivial, le_refl _⟩
  | search word _ ih | matchQuery word _ ih =>
      exact .other (by simp) fun _ => ⟨trivial, le_refl _⟩
  | countStar word left star right => exact .other (by simp) fun _ => ⟨trivial, le_refl _⟩
  | @function t l r arg ts word left harg right ih =>
      refine .other (by simp) fun hts => ⟨?_, le_refl _⟩
      simp only [forall_mem_append, forall_mem_cons] at hlexical
      simp only [parts] at hts
      rw [word_eq, shapes_call, joined] at hts
      have hinner := group_eq (cons.inj hts).2
      exact ((ih hlexical.1.2.2).1 hinner).1
  | @distinctFunction t l d r arg ts word left distinct harg right ih =>
      refine .other (by simp) fun hts => ⟨?_, le_refl _⟩
      simp only [forall_mem_append, forall_mem_cons] at hlexical
      simp only [parts] at hts
      rw [word_eq, shapes_call, joined] at hts
      have hinner := group_eq (cons.inj hts).2
      exact ((ih hlexical.1.2.2.2).1 (cons.inj hinner).2).1
  | point word arguments ih =>
      refine .other (by simp) fun hts => ⟨?_, le_refl _⟩
      simp only [parts] at hts
      rw [call, word_eq, shapes_token] at hts
      obtain ⟨hy, hx⟩ := ih (forall_mem_cons.mp hlexical).2 (cons.inj hts).2
      exact ⟨hx, hy⟩
  | intersects word arguments ih =>
      refine .other (by simp) fun hts => ⟨?_, le_refl _⟩
      simp only [parts] at hts
      rw [call, shapes_token] at hts
      exact ih (forall_mem_cons.mp hlexical).2 (cons.inj hts).2
  | distance word arguments ih =>
      refine .other (by simp) fun hts => ?_
      have hbound := (measured_of_writes str arguments).bound
      have hweight := congrArg weight hts
      rw [map_cons, weight_solid (bracket_keyword word), weight_metric (by decide)] at hweight
      simp only [phraseWeight, surplus] at hbound
      omega
  | @distanceMetric t l c c' m r left right metric ts₁ ts₂ word hl hleft sep hright sep' hm hmetric
      hr ih₁ ih₂ =>
      refine .other (by simp) fun hts => ⟨?_, le_refl _⟩
      simp only [forall_mem_append, forall_mem_cons] at hlexical
      have hgroup : t :: l :: ts₁ ++ c :: ts₂ ++ [c', m, r] =
          t :: (l :: (ts₁ ++ c :: (ts₂ ++ [c', m])) ++ [r]) := by simp
      have hne : metric ≠ "" := by
        rintro rfl
        exact absurd (metric_of_normalize hmetric) (by decide)
      simp only [parts] at hts
      rw [hgroup, if_pos hne, shapes_call] at hts
      have hinner := group_eq (cons.inj hts).2
      rw [cons_append, cons_append, nil_append, joined_cons (cons_ne_nil _ _),
        shapes_append, shapes_word, shapes_gap, map_append, map_cons] at hinner
      have hbound₁ := (measured_of_writes str hleft).bound
      have hbound₂ := (measured_of_writes str hright).bound
      have hone : weight (shapes [metricPart metric]) = 1 := rfl
      obtain ⟨h₁, _, h₂⟩ := split_at (bracket_of_eq sep (by decide)) rfl hinner hbound₁ (by
        rw [weight_joined_cons (cons_ne_nil _ _), joined, hone, map_append, weight_append]
        simp only [map_cons, map_nil, weight_solid (bracket_of_eq sep' (by decide)),
          weight_solid (bracket_of_eq hm (by decide)), weight_nil]
        simp only [phraseWeight, surplus] at hbound₂
        omega)
      rw [joined_cons (cons_ne_nil _ _), shapes_append, map_append] at h₂
      have hargument := (append_inj' h₂ rfl).1
      exact ⟨((ih₁ hlexical.1.1.2.2).1 h₁).1, ((ih₂ hlexical.1.2.2).1 hargument).1⟩
  | polygon word left hvertices right ih =>
      refine .other (by simp) fun hts => ?_
      have hbound := (measured_of_writes str hvertices).bound
      have hweight := congrArg weight hts
      simp only [parts] at hweight
      rw [cons_append, map_cons, weight_solid (bracket_keyword word),
        weight_group left right, word_eq, weight_call rfl] at hweight
      simp only [phraseWeight, surplus] at hbound
      omega
  | firstVertex _ ih => exact trivial
  | nextVertex _ sep _ ih₁ ih₂ => exact trivial
  | firstItem item ih =>
      intro hts
      obtain ⟨hfaithful, hfits⟩ := (ih hlexical).1 hts
      exact ⟨⟨hfits, hfaithful⟩, trivial⟩
  | nextItem before sep item ih₁ ih₂ =>
      intro hts
      rw [forall_mem_append, forall_mem_cons] at hlexical
      rw [shapes_joined_concat (items_ne_nil before)] at hts
      obtain ⟨hbefore, hitem⟩ := operands (measured_of_writes str before)
        (bracket_of_eq sep (by decide)) (measured_of_writes str item) rfl rfl rfl hts
      obtain ⟨hfaithful, hfits⟩ := (ih₂ hlexical.2.2).1 hitem
      rw [faithfulItems_iff, forall_mem_append, forall_mem_singleton]
      exact ⟨(faithfulItems_iff str).mp (ih₁ hlexical.1 hbefore), hfits, hfaithful⟩
  | term _ ih | arithmetic _ ih | predicate _ ih | negation _ ih | conjunction _ ih
  | disjunction _ ih => exact (ih hlexical).lift (by decide)
  | multiplicative hleft operator hright ih₁ ih₂ =>
      refine .other (by simp) fun hts => ?_
      rw [forall_mem_append, forall_mem_cons] at hlexical
      simp only [parts] at hts
      have ho := operator_inner operator
      obtain ⟨hfits, hfaithful⟩ := Rendered.infix (bracket_inner ho.1 ho.2)
        (measured_of_writes str hleft) (measured_of_writes str hright) (ih₁ hlexical.1) (ih₂
          hlexical.2.2)
        hts
      have hnone : ∀ op ∈ ["*", "/", "%"], op ∉ ["+", "-"] := by decide
      have hop := hnone _ (multiplicative_op operator)
      rw [Faithful, if_neg hop, Fits.eq_def _ (.BinaryExpr _ _ _), rank_multiplicative hop]
      exact ⟨⟨hfits, hfaithful⟩, le_refl _⟩
  | additive hleft operator hright ih₁ ih₂ =>
      refine .other (by simp) fun hts => ?_
      rw [forall_mem_append, forall_mem_cons] at hlexical
      simp only [parts] at hts
      have ho := additive_inner operator
      obtain ⟨hfits, hfaithful⟩ := Rendered.infix (bracket_inner ho.1 ho.2)
        (measured_of_writes str hleft) (measured_of_writes str hright) (ih₁ hlexical.1) (ih₂
          hlexical.2.2)
        hts
      have hop := additive_op operator
      rw [Faithful, if_pos hop, Fits.eq_def _ (.BinaryExpr _ _ _), rank_additive hop]
      exact ⟨⟨hfits, hfaithful⟩, le_refl _⟩
  | compare hleft operator hright ih₁ ih₂ =>
      refine .other (by simp) fun hts => ?_
      rw [forall_mem_append, forall_mem_cons] at hlexical
      simp only [parts] at hts
      obtain ⟨hfits, hfaithful⟩ := Rendered.infix (bracket_of_eq operator.1 (by decide))
        (measured_of_writes str hleft) (measured_of_writes str hright) (ih₁ hlexical.1) (ih₂
          hlexical.2.2)
        hts
      exact ⟨⟨hfits.1, hfits.2, hfaithful⟩, le_refl _⟩
  | isNull hvalue word kind ih | isNotNull hvalue word negated kind ih =>
      refine .other (by simp) fun hts => ?_
      rw [forall_mem_append] at hlexical
      simp only [parts] at hts
      rw [map_append, shapes_spaced] at hts
      obtain ⟨hfaithful, hfits⟩ := (ih hlexical.1).1 (append_inj' hts rfl).1
      exact ⟨⟨hfits, hfaithful⟩, le_refl _⟩
  | @between b a value lo hi ts₁ ts₂ ts₃ hvalue word hlo word' hhi ih₁ ih₂ ih₃ =>
      refine .other (by simp) fun hts => ?_
      simp only [forall_mem_append, forall_mem_cons] at hlexical
      have hbound₁ := (measured_of_writes str hvalue).bound
      have hbound₂ := (measured_of_writes str hlo).bound
      have hbound₃ := (measured_of_writes str hhi).bound
      have hb := bracket_keyword word
      simp only [phraseWeight, surplus] at hbound₁ hbound₂ hbound₃
      simp only [parts] at hts
      rw [shapes_spaced, shapes_spaced, map_append, map_cons] at hts
      obtain ⟨h₁₂, _, h₃⟩ := split_at (bracket_keyword word') rfl hts (by
        rw [map_append, map_cons, weight_append, weight_append, weight_solid hb,
          weight_solid rfl]
        omega) (by omega)
      obtain ⟨h₁, h₂⟩ := operands (measured_of_writes str hvalue) hb (measured_of_writes str hlo)
        rfl rfl
        rfl h₁₂
      obtain ⟨hfaithful₁, hfits₁⟩ := (ih₁ hlexical.1.1).1 h₁
      obtain ⟨hfaithful₂, hfits₂⟩ := (ih₂ hlexical.1.2.2).1 h₂
      obtain ⟨hfaithful₃, hfits₃⟩ := (ih₃ hlexical.2.2).1 h₃
      exact ⟨⟨hfits₁, hfits₂, hfits₃, hfaithful₁, hfaithful₂, hfaithful₃⟩, le_refl _⟩
  | @inList i l r value es ts₁ ts₂ hvalue word left hitems right ih₁ ih₂ =>
      refine .other (by simp) fun hts => ?_
      simp only [forall_mem_append, forall_mem_cons] at hlexical
      have hgroup : ts₁ ++ i :: l :: ts₂ ++ [r] = ts₁ ++ i :: (l :: ts₂ ++ [r]) := by simp
      have hbound₁ := (measured_of_writes str hvalue).bound
      have hbound₂ := (measured_of_writes str hitems).bound
      simp only [phraseWeight, surplus] at hbound₁ hbound₂
      simp only [parts] at hts
      rw [hgroup, shapes_spaced, map_append, map_cons] at hts
      obtain ⟨h₁, _, h₂⟩ := split_at (bracket_keyword word) rfl hts (by omega) (by
        rw [weight_group left right, weight_enclosed]
        omega)
      rw [shapes_enclosed] at h₂
      obtain ⟨hfaithful, hfits⟩ := (ih₁ hlexical.1.1).1 h₁
      exact ⟨⟨hfits, hfaithful, ih₂ hlexical.1.2.2.2 (group_eq h₂)⟩, le_refl _⟩
  | like hleft word hright ih₁ ih₂ =>
      refine .other (by simp) fun hts => ?_
      rw [forall_mem_append, forall_mem_cons] at hlexical
      simp only [parts] at hts
      rw [shapes_spaced] at hts
      obtain ⟨hvalue, hpattern⟩ := operands (measured_of_writes str hleft) (bracket_keyword word)
        (measured_of_writes str hright) rfl rfl rfl hts
      obtain ⟨hfaithful₁, hfits₁⟩ := (ih₁ hlexical.1).1 hvalue
      obtain ⟨hfaithful₂, hfits₂⟩ := (ih₂ hlexical.2.2).1 hpattern
      exact ⟨⟨hfits₁, hfits₂, hfaithful₁, hfaithful₂⟩, le_refl _⟩
  | and hleft word hright ih₁ ih₂ | or hleft word hright ih₁ ih₂ =>
      rw [forall_mem_append, forall_mem_cons] at hlexical
      exact .logical (bracket_keyword word) (measured_of_writes str hleft) (measured_of_writes str
        hright)
        (ih₁ hlexical.1) (ih₂ hlexical.2.2)
  | not word operand ih =>
      refine .other (by simp) fun hts => ?_
      simp only [parts] at hts
      rw [shapes_word, shapes_gap] at hts
      obtain ⟨hfaithful, _⟩ := (ih (forall_mem_cons.mp hlexical).2).1 (cons.inj hts).2
      exact ⟨hfaithful, le_refl _⟩

end Converse

end SoupDB.Parser
