import SoupDB.Lib.Except

/-!
# Recursive descent parsers and the phrases they accept

A parser takes tokens from the front of a list.  It is sound for a set of phrases when what it
takes is a phrase of its result, and complete when it takes every phrase that stands before
something that may follow it.  Loops of operators, which associate to the left, and lists with
separators are sound and complete when their parts are.
-/

namespace SoupDB.Parsing

/-- A parser takes tokens from the front of a list. -/
abbrev Parser (τ ε α : Type) : Type := StateT (List τ) (Except ε) α

variable {τ ε α β σ : Type}

variable {p : Parser τ ε α} {f : α → Parser τ ε β} {W : α → List τ → Prop}

theorem run_bind {ts ts' : List τ} {a : α} (h : p ts = .ok (a, ts')) : (p >>= f) ts = f a ts' := by
  have hbind : (p >>= f) ts = (p ts >>= fun r => f r.1 r.2) := rfl
  rw [hbind, h]
  rfl

theorem run_bind_eq_ok {ts rest : List τ} {b : β} :
    (p >>= f) ts = .ok (b, rest) ↔ ∃ a ts', p ts = .ok (a, ts') ∧ f a ts' = .ok (b, rest) := by
  have hbind : (p >>= f) ts = (p ts >>= fun r => f r.1 r.2) := rfl
  rw [hbind, bind_eq_ok]
  constructor
  · rintro ⟨⟨a, ts'⟩, hp, hf⟩
    exact ⟨a, ts', hp, hf⟩
  · rintro ⟨a, ts', hp, hf⟩
    exact ⟨(a, ts'), hp, hf⟩

/-- What the parser takes is a phrase of its result. -/
def Sound (p : Parser τ ε α) (W : α → List τ → Prop) : Prop :=
  ∀ ts a rest, p ts = .ok (a, rest) → ∃ used, ts = used ++ rest ∧ W a used

/-- The parser takes every phrase that stands before something that may follow it. -/
def Complete (p : Parser τ ε α) (W : α → List τ → Prop) (follow : List τ → Prop) : Prop :=
  ∀ used a rest, W a used → follow rest → p (used ++ rest) = .ok (a, rest)

theorem Sound.mono {W' : α → List τ → Prop} (h : Sound p W) (hW : ∀ a used, W a used → W' a used) :
    Sound p W' := by
  intro ts a rest hp
  obtain ⟨used, hts, hused⟩ := h ts a rest hp
  exact ⟨used, hts, hW a used hused⟩

theorem Complete.mono {W' : α → List τ → Prop} {follow follow' : List τ → Prop}
    (h : Complete p W follow) (hW : ∀ a used, W' a used → W a used)
    (hfollow : ∀ rest, follow' rest → follow rest) : Complete p W' follow' :=
  fun used a rest hused hrest => h used a rest (hW a used hused) (hfollow rest hrest)

theorem Sound.length_le (h : Sound p W) {ts rest : List τ} {a : α} (hp : p ts = .ok (a, rest)) :
    rest.length ≤ ts.length := by
  obtain ⟨used, rfl, _⟩ := h ts a rest hp
  rw [List.length_append]
  exact Nat.le_add_left _ _

theorem Sound.map (h : Sound p W) (f : α → β) :
    Sound (p >>= fun a => pure (f a)) (fun b used => ∃ a, b = f a ∧ W a used) := by
  intro ts b rest hp
  rw [run_bind_eq_ok] at hp
  obtain ⟨a, ts', ha, hb⟩ := hp
  cases hb
  obtain ⟨used, rfl, hused⟩ := h _ _ _ ha
  exact ⟨used, rfl, a, rfl, hused⟩

theorem Complete.map {follow : List τ → Prop} (h : Complete p W follow) (f : α → β) :
    Complete (p >>= fun a => pure (f a)) (fun b used => ∃ a, b = f a ∧ W a used) follow := by
  rintro used _ rest ⟨a, rfl, hused⟩ hrest
  rw [run_bind (h used a rest hused hrest)]
  rfl

/-! ## Left-associative chains -/

section Chains

variable (empty stuck : ε) (operator : τ → Option σ) (operand : Parser τ ε α)
  (node : α → σ → α → α)

def takeOperator : Parser τ ε (Option σ) := fun ts =>
  match ts with
  | [] => .error empty
  | t :: rest =>
      match operator t with
      | some op => .ok (some op, rest)
      | none => .ok (none, t :: rest)

/-- While there is an operator, an operand is taken and joined to what stands to its left. -/
def chainLoop : Nat → α → Parser τ ε α
  | 0, _ => fun _ => .error stuck
  | fuel + 1, left => do
      match ← takeOperator empty operator with
      | none => pure left
      | some op => do
          let right ← operand
          chainLoop fuel (node left op right)

def leftChain : Parser τ ε α := do
  let left ← operand
  let ts ← get
  chainLoop empty stuck operator operand node (ts.length + 1) left

/-- Operands with operators between them, joined from the left. -/
inductive LeftChain (W : α → List τ → Prop) : α → List τ → Prop
  | operand {a : α} {ts : List τ} : W a ts → LeftChain W a ts
  | node {left right : α} {op : σ} {t : τ} {ts₁ ts₂ : List τ} : LeftChain W left ts₁ →
      operator t = some op → W right ts₂ → LeftChain W (node left op right) (ts₁ ++ t :: ts₂)

variable {empty stuck operator operand node} {W : α → List τ → Prop}

theorem chain_loop_none {fuel : Nat} {left : α} {t : τ} {rest : List τ} (h : operator t = none) :
    chainLoop empty stuck operator operand node (fuel + 1) left (t :: rest) =
      .ok (left, t :: rest) := by
  have htake : takeOperator (ε := ε) empty operator (t :: rest) = .ok (none, t :: rest) := by
    simp only [takeOperator, h]
  rw [chainLoop, run_bind htake]
  rfl

theorem chain_loop_some {fuel : Nat} {left : α} {op : σ} {t : τ} {rest : List τ}
    (h : operator t = some op) :
    chainLoop empty stuck operator operand node (fuel + 1) left (t :: rest) =
      (operand >>= fun right =>
        chainLoop empty stuck operator operand node fuel (node left op right)) rest := by
  have htake : takeOperator (ε := ε) empty operator (t :: rest) = .ok (some op, rest) := by
    simp only [takeOperator, h]
  rw [chainLoop, run_bind htake]

variable {W' : α → List τ → Prop} {used : List τ} {follow : List τ → Prop}

theorem LeftChain.mono (hW : ∀ a used, W a used → W' a used) {a : α}
    (h : LeftChain operator node W a used) : LeftChain operator node W' a used := by
  induction h with
  | operand ha => exact .operand (hW _ _ ha)
  | node _ hop hright ih => exact .node ih hop (hW _ _ hright)

theorem LeftChain.bounded {n : Nat} {a : α} (h : LeftChain operator node W a used)
    (hn : used.length ≤ n) :
    LeftChain operator node (fun a used => W a used ∧ used.length ≤ n) a used := by
  induction h with
  | operand ha => exact .operand ⟨ha, hn⟩
  | node _ hop hright ih =>
      rw [List.length_append, List.length_cons] at hn
      exact .node (ih (by omega)) hop ⟨hright, by omega⟩

theorem chain_loop_sound (hoperand : Sound operand W) :
    ∀ {fuel : Nat} {left a : α} {ts rest before : List τ}, LeftChain operator node W left before →
      chainLoop empty stuck operator operand node fuel left ts = .ok (a, rest) →
      ∃ used, ts = used ++ rest ∧ LeftChain operator node W a (before ++ used) := by
  intro fuel
  induction fuel with
  | zero =>
      intro left a ts rest before _ h
      cases h
  | succ fuel ih =>
      intro left a ts rest before hleft h
      cases ts with
      | nil => cases h
      | cons t ts =>
          cases hop : operator t with
          | none =>
              rw [chain_loop_none hop] at h
              cases h
              exact ⟨[], rfl, by rwa [List.append_nil]⟩
          | some op =>
              rw [chain_loop_some hop, run_bind_eq_ok] at h
              obtain ⟨right, ts', hright, h⟩ := h
              obtain ⟨used₁, rfl, hused₁⟩ := hoperand _ _ _ hright
              obtain ⟨used₂, rfl, hused₂⟩ := ih (.node hleft hop hused₁) h
              refine ⟨t :: used₁ ++ used₂, by simp, ?_⟩
              simpa using hused₂

theorem left_chain_sound (hoperand : Sound operand W) :
    Sound (leftChain empty stuck operator operand node) (LeftChain operator node W) := by
  intro ts a rest h
  rw [leftChain, run_bind_eq_ok] at h
  obtain ⟨left, ts', hleft, h⟩ := h
  obtain ⟨used₁, rfl, hused₁⟩ := hoperand _ _ _ hleft
  rw [run_bind_eq_ok] at h
  obtain ⟨_, _, hget, h⟩ := h
  cases hget
  obtain ⟨used₂, rfl, hused₂⟩ := chain_loop_sound hoperand (.operand hused₁) h
  exact ⟨used₁ ++ used₂, by simp, hused₂⟩

theorem chain_loop_fuel (hoperand : Sound operand W) :
    ∀ {n m : Nat} {left : α} {ts : List τ}, ts.length < n → ts.length < m →
      chainLoop empty stuck operator operand node n left ts =
        chainLoop empty stuck operator operand node m left ts := by
  intro n
  induction n with
  | zero =>
      intro m left ts h
      exact absurd h (Nat.not_lt_zero _)
  | succ n ih =>
      intro m left ts hn hm
      cases m with
      | zero => exact absurd hm (Nat.not_lt_zero _)
      | succ m =>
          cases ts with
          | nil => rfl
          | cons t ts =>
              cases hop : operator t with
              | none => rw [chain_loop_none hop, chain_loop_none hop]
              | some op =>
                  rw [chain_loop_some hop, chain_loop_some hop]
                  cases hright : operand ts with
                  | error e =>
                      have hbind : ∀ f : α → Parser τ ε α, (operand >>= f) ts = .error e := by
                        intro f
                        have hbind : (operand >>= f) ts = (operand ts >>= fun r => f r.1 r.2) := rfl
                        rw [hbind, hright]
                        rfl
                      rw [hbind, hbind]
                  | ok r =>
                      have hle := hoperand.length_le hright
                      rw [List.length_cons] at hn hm
                      rw [run_bind hright, run_bind hright]
                      exact ih (by omega) (by omega)

variable (hsound : Sound operand W) (hoperand : Complete operand W' follow)
    (hoperator : ∀ t op ts, operator t = some op → follow (t :: ts))
include hsound hoperand hoperator

theorem left_chain_run {a : α} (h : LeftChain operator node W' a used) :
    ∀ {rest : List τ}, follow rest →
      leftChain empty stuck operator operand node (used ++ rest) =
        chainLoop empty stuck operator operand node (rest.length + 1) a rest := by
  induction h with
  | operand ha =>
      intro rest hrest
      rw [leftChain, run_bind (hoperand _ _ rest ha hrest)]
      rfl
  | @node left right op t ts₁ ts₂ _ hop hright ih =>
      intro rest hrest
      rw [List.append_assoc, List.cons_append, ih (hoperator t op _ hop), chain_loop_some hop,
        run_bind (hoperand _ _ rest hright hrest)]
      refine chain_loop_fuel hsound ?_ (Nat.lt_succ_self _)
      rw [List.length_cons, List.length_append]
      omega

theorem left_chain_complete :
    Complete (leftChain empty stuck operator operand node) (LeftChain operator node W')
      (fun rest => follow rest ∧ ∃ t ts, rest = t :: ts ∧ operator t = none) := by
  rintro used a rest h ⟨hrest, t, ts, rfl, hnone⟩
  rw [left_chain_run hsound hoperand hoperator h hrest, chain_loop_none hnone]

end Chains

end SoupDB.Parsing
