import Mathlib.Tactic

/-!
# Walks

A fallible step `σ → ι → Except ε σ` is iterated along a list of inputs; the walk stops at the
first step that fails. Everything about a walk is said by its prefixes:

* `walk_eq_error_iff` — a walk fails with `e` exactly if some prefix succeeds and the step after
  it fails with `e`;
* `walk_induction` — what holds of the empty walk and is kept by every step that is taken holds
  of every walk that succeeds, and may mention the inputs read so far;
* `walk_map` — a map that commutes with the steps commutes with the walks;
* `walk_simulates` — if each step of one system is matched by a step of another, then so is each
  walk, success by success and failure by failure.
-/

namespace Walk

variable {σ τ ι ε ε' : Type}

/-- The state after the steps of a list, or the failure of the first step that fails. -/
def walk (step : σ → ι → Except ε σ) : σ → List ι → Except ε σ
  | s, [] => .ok s
  | s, i :: l => do
    let t ← step s i
    walk step t l

section Walk

variable {step : σ → ι → Except ε σ}

@[simp] theorem walk_nil (s : σ) : walk step s [] = .ok s := rfl

theorem walk_cons (s : σ) (i : ι) (l : List ι) :
    walk step s (i :: l) = step s i >>= fun t => walk step t l := rfl

theorem walk_append (s : σ) (l₁ l₂ : List ι) :
    walk step s (l₁ ++ l₂) = walk step s l₁ >>= fun t => walk step t l₂ := by
  induction l₁ generalizing s with
  | nil => rfl
  | cons i l₁ ih =>
    rw [List.cons_append, walk_cons, walk_cons, bind_assoc]
    exact congrArg _ (funext fun t => ih t)

/-- The last step of a walk. -/
theorem walk_concat (s : σ) (l : List ι) (i : ι) :
    walk step s (l ++ [i]) = walk step s l >>= fun t => step t i := by
  rw [walk_append]
  refine congrArg _ (funext fun t => ?_)
  rw [walk_cons]
  cases step t i <;> rfl

/-- **Failure.** A walk fails at the step after a prefix that succeeds. -/
theorem walk_eq_error_iff {s : σ} {l : List ι} {e : ε} :
    walk step s l = .error e ↔ ∃ l₁ i l₂ t, l = l₁ ++ i :: l₂ ∧
      walk step s l₁ = .ok t ∧ step t i = .error e := by
  refine ⟨?_, ?_⟩
  · intro h
    induction l generalizing s with
    | nil => cases h
    | cons i l ih =>
      rw [walk_cons] at h
      cases hi : step s i with
      | error e' =>
        -- the first step fails, behind the empty prefix
        rw [hi] at h
        cases h
        exact ⟨[], i, l, s, rfl, rfl, hi⟩
      | ok t =>
        rw [hi] at h
        obtain ⟨l₁, j, l₂, u, rfl, hu, hj⟩ := ih h
        refine ⟨i :: l₁, j, l₂, u, rfl, ?_, hj⟩
        rw [walk_cons, hi]
        exact hu
  · rintro ⟨l₁, i, l₂, t, rfl, ht, hi⟩
    rw [walk_append, ht]
    change walk step t (i :: l₂) = .error e
    rw [walk_cons, hi]
    rfl

/-- **Induction along a walk.** The invariant may depend on the inputs read so far. -/
theorem walk_induction {I : List ι → σ → Prop} {s : σ} (hnil : I [] s)
    (hstep : ∀ l i t u, walk step s l = .ok t → I l t → step t i = .ok u → I (l ++ [i]) u)
    {l : List ι} {t : σ} (h : walk step s l = .ok t) : I l t := by
  -- from the back, so that the induction hypothesis is about the prefix already walked
  induction l using List.reverseRecOn generalizing t with
  | nil =>
    cases h
    exact hnil
  | append_singleton l i ih =>
    rw [walk_concat] at h
    cases hl : walk step s l with
    | error e =>
      rw [hl] at h
      cases h
    | ok u =>
      rw [hl] at h
      exact hstep l i u t hl (ih hl) h

/-- A walk to the end took a step for every input. -/
theorem exists_step_of_walk {s t : σ} {l : List ι} (h : walk step s l = .ok t) :
    ∀ i ∈ l, ∃ u v, step u i = .ok v := by
  refine walk_induction (I := fun l _ => ∀ i ∈ l, ∃ u v, step u i = .ok v)
    (fun i hi => absurd hi List.not_mem_nil) ?_ h
  intro l i u v _ hl hstep j hj
  rcases List.mem_append.mp hj with hj | hj
  · exact hl j hj
  · rw [List.mem_singleton.mp hj]
    exact ⟨u, v, hstep⟩

end Walk

/-- Translating the inputs of a walk is translating those of its steps. -/
theorem walk_translate {κ : Type} (step : σ → ι → Except ε σ) (g : κ → ι) (s : σ) (l : List κ) :
    walk step s (l.map g) = walk (fun s k => step s (g k)) s l := by
  induction l generalizing s with
  | nil => rfl
  | cons k l ih =>
    rw [List.map_cons, walk_cons, walk_cons]
    exact congrArg _ (funext fun t => ih t)

/-- A map that commutes with every step commutes with the walks. -/
theorem walk_map {step : σ → ι → Except ε σ} {step' : τ → ι → Except ε τ} {f : σ → τ}
    (h : ∀ s i, step' (f s) i = (step s i).map f) (s : σ) (l : List ι) :
    walk step' (f s) l = (walk step s l).map f := by
  induction l generalizing s with
  | nil => rfl
  | cons i l ih =>
    rw [walk_cons, walk_cons, h]
    cases step s i with
    | error e => rfl
    | ok t => exact ih t

/-- A step of `step` from `s` is matched by one of `step'` from `t`: related states on success,
the translated failure otherwise. -/
def Matches (R : σ → τ → Prop) (E : ι → ε → ε') (i : ι) (x : Except ε σ) (y : Except ε' τ) :
    Prop :=
  match x with
  | .ok s => ∃ t, y = .ok t ∧ R s t
  | .error e => y = .error (E i e)

/-- **Simulation.** Matching steps give matching walks; a failure is that of the step it
happened at. -/
theorem walk_simulates {step : σ → ι → Except ε σ} {step' : τ → ι → Except ε' τ}
    {R : σ → τ → Prop} {E : ι → ε → ε'}
    (hstep : ∀ s t i, R s t → Matches R E i (step s i) (step' t i)) {s : σ} {t : τ} (h : R s t)
    (l : List ι) :
    (∀ s', walk step s l = .ok s' → ∃ t', walk step' t l = .ok t' ∧ R s' t') ∧
    (∀ t', walk step' t l = .ok t' → ∃ s', walk step s l = .ok s' ∧ R s' t') := by
  induction l generalizing s t with
  | nil =>
    refine ⟨?_, ?_⟩
    · intro s' hs
      cases hs
      exact ⟨t, rfl, h⟩
    · intro t' ht
      cases ht
      exact ⟨s, rfl, h⟩
  | cons i l ih =>
    have hm := hstep s t i h
    rw [walk_cons, walk_cons]
    cases hi : step s i with
    | error e =>
      -- both walks stop here
      rw [hi] at hm
      rw [show step' t i = .error (E i e) from hm]
      refine ⟨?_, ?_⟩
      · intro s' hs
        cases hs
      · intro t' ht
        cases ht
    | ok s₁ =>
      rw [hi] at hm
      obtain ⟨t₁, ht₁, hR⟩ := hm
      rw [ht₁]
      exact ih hR

/-- A failure on the way is matched by the failure of the step it happened at. -/
theorem walk_error_simulates {step : σ → ι → Except ε σ} {step' : τ → ι → Except ε' τ}
    {R : σ → τ → Prop} {E : ι → ε → ε'}
    (hstep : ∀ s t i, R s t → Matches R E i (step s i) (step' t i)) {s : σ} {t : τ} (h : R s t)
    {l : List ι} {e : ε} (he : walk step s l = .error e) :
    ∃ i ∈ l, walk step' t l = .error (E i e) := by
  -- the prefix before the failure is matched, so its end is related to that of the other walk
  obtain ⟨l₁, i, l₂, u, rfl, hu, hi⟩ := walk_eq_error_iff.mp he
  obtain ⟨v, hv, hR⟩ := (walk_simulates hstep h l₁).1 u hu
  have hm := hstep u v i hR
  rw [hi] at hm
  exact ⟨i, by simp, walk_eq_error_iff.mpr ⟨l₁, i, l₂, v, rfl, hv, hm⟩⟩

end Walk
