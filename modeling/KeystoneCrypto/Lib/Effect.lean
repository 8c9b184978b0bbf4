import Mathlib.Tactic

/-!
# Computations with state and exceptions

`EStateM ε σ` runs a program on a state `σ`; a raise of `ε` leaves the state as it was at the
raise. This module adds what the verification of such programs uses:

* `bind_eq_ok_iff` and `bind_eq_error_iff` take a fallible program apart at a bind;
* pure fallible computations lift into the monad (`run_liftM`);
* `after x s` is the state in which `x` ends, by return or by raise, and `outcome x s` is what it
  returns or raises;
* `Steps R x` says that `x` moves the state along `R` whichever way it ends. For a transitive `R`
  the rule `Steps.bind` composes it along a program, so a frame condition of a whole function
  follows from those of its statements;
* `runAll` runs a list of computations one after the other, each from the state the previous one
  left behind, whether it returned or raised, and `runAll_induction` carries an invariant along;
* `Keeps part x` says that `x` leaves a part of the state alone. Where the part is a log that
  calls append to, `log_runAll` puts the entries of a run together from those of its calls;
* `Respects R x` compares two runs of `x`: from states that `R` relates it returns or raises the
  same and ends in related states;
* `Compositional p` is what these have in common: a program has the property `p` if its statements
  have it. What is proved of the statements of a system once, for an arbitrary such `p`, then holds
  of `Steps`, `Keeps` and `Respects` at once.
-/

namespace Effect

variable {ε σ α β : Type}

/-! ### Fallible programs -/

@[simp] theorem ok_bind (a : α) (f : α → Except ε β) : (Except.ok a >>= f) = f a := rfl

@[simp] theorem error_bind (e : ε) (f : α → Except ε β) :
    (Except.error e >>= f) = .error e := rfl

theorem bind_eq_ok_iff {x : Except ε α} {f : α → Except ε β} {b : β} :
    x >>= f = .ok b ↔ ∃ a, x = .ok a ∧ f a = .ok b := by
  cases x <;> simp

theorem bind_eq_error_iff {x : Except ε α} {f : α → Except ε β} {e : ε} :
    x >>= f = .error e ↔ x = .error e ∨ ∃ a, x = .ok a ∧ f a = .error e := by
  cases x <;> simp

theorem isOk_iff {x : Except ε α} : x.isOk = true ↔ ∃ a, x = .ok a := by
  cases x <;> simp [Except.isOk, Except.toBool]

/-- A loop whose every turn returns collects the values returned. -/
theorem mapM_eq_ok_map {l : List α} {f : α → Except ε β} {g : α → β}
    (h : ∀ a ∈ l, f a = .ok (g a)) : l.mapM f = .ok (l.map g) := by
  induction l with
  | nil => rfl
  | cons a l ih =>
    -- the first turn returns, and the loop goes on
    rw [List.mapM_cons, h a List.mem_cons_self, ok_bind,
      ih fun b hb => h b (List.mem_cons_of_mem a hb)]
    rfl

/-- Every value collected by a loop is the value of one turn. -/
theorem exists_of_mem_mapM {l : List α} {f : α → Except ε β} {out : List β} {b : β}
    (h : l.mapM f = .ok out) (hb : b ∈ out) : ∃ a ∈ l, f a = .ok b := by
  induction l generalizing out with
  | nil =>
    cases h
    exact absurd hb List.not_mem_nil
  | cons a l ih =>
    rw [List.mapM_cons] at h
    obtain ⟨c, hc, h⟩ := bind_eq_ok_iff.mp h
    obtain ⟨cs, hcs, h⟩ := bind_eq_ok_iff.mp h
    rw [← Except.ok.inj h] at hb
    -- the value is that of the first turn, or of a later one
    rcases List.mem_cons.mp hb with rfl | hb
    · exact ⟨a, List.mem_cons_self, hc⟩
    · obtain ⟨a', ha', hf⟩ := ih hcs hb
      exact ⟨a', List.mem_cons_of_mem a ha', hf⟩

/-- A loop returns when every turn does. -/
theorem exists_mapM_eq_ok_iff {l : List α} {f : α → Except ε β} :
    (∃ out, l.mapM f = .ok out) ↔ ∀ a ∈ l, ∃ b, f a = .ok b := by
  induction l with
  | nil => exact ⟨fun _ _ h => absurd h List.not_mem_nil, fun _ => ⟨[], rfl⟩⟩
  | cons a l ih =>
    rw [List.mapM_cons, List.forall_mem_cons, ← ih]
    refine ⟨?_, ?_⟩
    · rintro ⟨out, h⟩
      obtain ⟨b, hb, h⟩ := bind_eq_ok_iff.mp h
      obtain ⟨bs, hbs, -⟩ := bind_eq_ok_iff.mp h
      exact ⟨⟨b, hb⟩, bs, hbs⟩
    · rintro ⟨⟨b, hb⟩, bs, hbs⟩
      exact ⟨b :: bs, by rw [hb, hbs]; rfl⟩

/-- A loop raises what the first turn that does not return raises. -/
theorem mapM_eq_error_iff {l : List α} {f : α → Except ε β} {e : ε} :
    l.mapM f = .error e ↔
      ∃ front a back, l = front ++ a :: back ∧ (∀ b ∈ front, ∃ c, f b = .ok c) ∧
        f a = .error e := by
  induction l with
  | nil =>
    refine ⟨?_, ?_⟩
    · intro h
      cases h
    · rintro ⟨front, a, back, h, -⟩
      cases front <;> cases h
  | cons a l ih =>
    rw [List.mapM_cons, bind_eq_error_iff]
    refine ⟨?_, ?_⟩
    -- the first turn raises, or it returns and a later one raises
    · rintro (ha | ⟨b, hb, h⟩)
      · exact ⟨[], a, l, rfl, fun _ h => absurd h List.not_mem_nil, ha⟩
      · rcases bind_eq_error_iff.mp h with h | ⟨_, -, h⟩
        · obtain ⟨front, a', back, rfl, hfront, ha'⟩ := ih.mp h
          exact ⟨a :: front, a', back, rfl, List.forall_mem_cons.mpr ⟨⟨b, hb⟩, hfront⟩, ha'⟩
        · cases h
    · rintro ⟨front, a', back, h, hfront, ha'⟩
      cases front with
      | nil =>
        cases h
        exact .inl ha'
      | cons c front =>
        cases h
        obtain ⟨⟨b, hb⟩, hfront⟩ := List.forall_mem_cons.mp hfront
        have hrest := ih.mpr ⟨front, a', back, rfl, hfront, ha'⟩
        exact .inr ⟨b, hb, by rw [hrest]; rfl⟩

/-! ### Programs with state -/

/-- A pure fallible computation, run without touching the state. -/
def liftExcept (x : Except ε α) : EStateM ε σ α := fun s =>
  match x with
  | .ok a => .ok a s
  | .error e => .error e s

instance instMonadLiftExcept : MonadLift (Except ε) (EStateM ε σ) := ⟨liftExcept⟩

@[simp] theorem run_liftM (x : Except ε α) (s : σ) :
    (liftM x : EStateM ε σ α).run s = match x with
      | .ok a => .ok a s
      | .error e => .error e s := rfl

theorem liftM_pure (a : α) : (liftM (pure a : Except ε α) : EStateM ε σ α) = pure a := rfl

theorem liftM_bind (x : Except ε α) (f : α → Except ε β) :
    (liftM (x >>= f) : EStateM ε σ β) = liftM x >>= fun a => liftM (f a) := by
  funext s
  cases x <;> rfl

theorem run_liftM_eq_ok_iff {x : Except ε α} {s s' : σ} {a : α} :
    (liftM x : EStateM ε σ α).run s = .ok a s' ↔ x = .ok a ∧ s = s' := by
  rw [run_liftM]
  cases x <;> simp

theorem run_bind_of_ok {x : EStateM ε σ α} {f : α → EStateM ε σ β} {s s' : σ} {a : α}
    (h : x.run s = .ok a s') : (x >>= f).run s = (f a).run s' := by
  rw [EStateM.run_bind, h]

theorem run_bind_of_error {x : EStateM ε σ α} {f : α → EStateM ε σ β} {s s' : σ} {e : ε}
    (h : x.run s = .error e s') : (x >>= f).run s = .error e s' := by
  rw [EStateM.run_bind, h]

/-- A program that returned went through its first statement. -/
theorem run_bind_eq_ok_iff {x : EStateM ε σ α} {f : α → EStateM ε σ β} {s s'' : σ} {b : β} :
    (x >>= f).run s = .ok b s'' ↔ ∃ a s', x.run s = .ok a s' ∧ (f a).run s' = .ok b s'' := by
  rw [EStateM.run_bind]
  cases x.run s <;> simp

/-- The state in which a computation ends. -/
def after (x : EStateM ε σ α) (s : σ) : σ :=
  match x.run s with
  | .ok _ s' => s'
  | .error _ s' => s'

theorem after_of_ok {x : EStateM ε σ α} {s s' : σ} {a : α} (h : x.run s = .ok a s') :
    after x s = s' := by
  unfold after; rw [h]

theorem after_of_error {x : EStateM ε σ α} {s s' : σ} {e : ε} (h : x.run s = .error e s') :
    after x s = s' := by
  unfold after; rw [h]

/-- What a computation returns or raises. -/
def outcome (x : EStateM ε σ α) (s : σ) : Except ε α :=
  match x.run s with
  | .ok a _ => .ok a
  | .error e _ => .error e

theorem outcome_of_ok {x : EStateM ε σ α} {s s' : σ} {a : α} (h : x.run s = .ok a s') :
    outcome x s = .ok a := by
  unfold outcome; rw [h]

theorem outcome_of_error {x : EStateM ε σ α} {s s' : σ} {e : ε} (h : x.run s = .error e s') :
    outcome x s = .error e := by
  unfold outcome; rw [h]

theorem run_of_outcome {x : EStateM ε σ α} {s : σ} {a : α} (h : outcome x s = .ok a) :
    x.run s = .ok a (after x s) := by
  unfold outcome at h
  unfold after
  cases hrun : x.run s with
  | ok b s' =>
    rw [hrun] at h
    rw [Except.ok.inj h]
  | error e s' =>
    rw [hrun] at h
    cases h

/-! ### Steps along a relation -/

/-- Whichever way `x` ends, it moves the state along `R`. -/
def Steps (R : σ → σ → Prop) (x : EStateM ε σ α) : Prop :=
  ∀ s, R s (after x s)

theorem Steps.pure {R : σ → σ → Prop} (hR : ∀ s, R s s) (a : α) :
    Steps R (Pure.pure a : EStateM ε σ α) :=
  fun s => hR s

theorem Steps.lift {R : σ → σ → Prop} (hR : ∀ s, R s s) (x : Except ε α) :
    Steps R (liftM x : EStateM ε σ α) := by
  intro s
  cases x with
  | ok a => exact hR s
  | error e => exact hR s

/-- A bind moves the state along a transitive relation when both halves do. -/
theorem Steps.bind {R : σ → σ → Prop} (hR : ∀ {a b c}, R a b → R b c → R a c)
    {x : EStateM ε σ α} {f : α → EStateM ε σ β} (hx : Steps R x) (hf : ∀ a, Steps R (f a)) :
    Steps R (x >>= f) := by
  intro s
  have hs := hx s
  unfold after at hs ⊢
  rw [EStateM.run_bind]
  cases hrun : x.run s with
  | error e s' =>
    -- a raise skips the second half
    rw [hrun] at hs
    exact hs
  | ok a s' =>
    rw [hrun] at hs
    exact hR hs (hf a s')

/-! ### Runs -/

/-- A list of computations, each started in the state the one before it ended in. -/
def runAll (xs : List (EStateM ε σ α)) (s : σ) : σ :=
  xs.foldl (fun s x => after x s) s

@[simp] theorem runAll_cons (x : EStateM ε σ α) (xs : List (EStateM ε σ α)) (s : σ) :
    runAll (x :: xs) s = runAll xs (after x s) := rfl

/-- **Invariants of runs.** What every computation of the list preserves holds in the end. -/
theorem runAll_induction {I : σ → Prop} (xs : List (EStateM ε σ α))
    (hstep : ∀ x ∈ xs, ∀ s, I s → I (after x s)) {s : σ} (h : I s) : I (runAll xs s) := by
  induction xs generalizing s with
  | nil => exact h
  | cons x xs ih =>
    rw [runAll_cons]
    -- the rest starts where the first computation ended
    exact ih (fun y hy => hstep y (List.mem_cons_of_mem x hy))
      (hstep x List.mem_cons_self s h)

/-! ### Frames -/

section Frame

variable {τ ι : Type} {part : σ → τ}

theorem after_bind_of_ok {x : EStateM ε σ α} {f : α → EStateM ε σ β} {s s' : σ} {a : α}
    (h : x.run s = .ok a s') : after (x >>= f) s = after (f a) s' := by
  unfold after
  rw [run_bind_of_ok h]

theorem after_bind_of_error {x : EStateM ε σ α} {f : α → EStateM ε σ β} {s s' : σ} {e : ε}
    (h : x.run s = .error e s') : after (x >>= f) s = s' :=
  after_of_error (run_bind_of_error h)

theorem after_liftM_ok_bind (a : α) (f : α → EStateM ε σ β) (s : σ) :
    after (liftM (Except.ok a : Except ε α) >>= f) s = after (f a) s := rfl

/-- Whichever way `x` ends, it leaves this part of the state alone. -/
def Keeps (part : σ → τ) (x : EStateM ε σ α) : Prop :=
  Steps (fun s s' => part s' = part s) x

theorem Keeps.pure (a : α) : Keeps part (Pure.pure a : EStateM ε σ α) :=
  Steps.pure (R := fun s s' => part s' = part s) (fun _ => rfl) a

theorem Keeps.lift (x : Except ε α) : Keeps part (liftM x : EStateM ε σ α) :=
  Steps.lift (R := fun s s' => part s' = part s) (fun _ => rfl) x

theorem Keeps.bind {x : EStateM ε σ α} {f : α → EStateM ε σ β} (hx : Keeps part x)
    (hf : ∀ a, Keeps part (f a)) : Keeps part (x >>= f) :=
  Steps.bind (fun h₁ h₂ => h₂.trans h₁) hx hf

/-- A rest that keeps a part leaves it as the first statement left it. -/
theorem part_after_bind (part : σ → τ) {x : EStateM ε σ α} {f : α → EStateM ε σ β}
    (hf : ∀ a, Keeps part (f a)) (s : σ) : part (after (x >>= f) s) = part (after x s) := by
  cases hx : x.run s with
  | ok a s' =>
    rw [after_bind_of_ok hx, after_of_ok hx]
    exact hf a s'
  | error e s' => rw [after_bind_of_error hx, after_of_error hx]

/-- **The log of a run** is what was there before, then the entries of the calls in order. -/
theorem log_runAll (log : σ → List τ) {exec : ι → EStateM ε σ α} {entries : ι → List τ}
    (h : ∀ i s, log (after (exec i) s) = log s ++ entries i) (calls : List ι) (s : σ) :
    log (runAll (calls.map exec) s) = log s ++ calls.flatMap entries := by
  induction calls generalizing s with
  | nil => exact (List.append_nil _).symm
  | cons i calls ih =>
    -- the first call has appended its entries when the others start
    rw [List.map_cons, runAll_cons, ih, h i s, List.append_assoc, List.flatMap_cons]

end Frame

/-! ### Two runs side by side -/

/-- From related states `x` returns or raises the same, and ends in related states. -/
def Respects (R : σ → σ → Prop) (x : EStateM ε σ α) : Prop :=
  ∀ s s', R s s' → outcome x s = outcome x s' ∧ R (after x s) (after x s')

section Respects

variable {R : σ → σ → Prop}

theorem Respects.lift (x : Except ε α) : Respects R (liftM x : EStateM ε σ α) := by
  intro s s' h
  cases x with
  | ok a => exact ⟨rfl, h⟩
  | error e => exact ⟨rfl, h⟩

/-- A bind hands on what the first half returned and where it ended. -/
theorem Respects.bind {x : EStateM ε σ α} {f : α → EStateM ε σ β} (hx : Respects R x)
    (hf : ∀ a, Respects R (f a)) : Respects R (x >>= f) := by
  intro s s' h
  obtain ⟨hout, hafter⟩ := hx s s' h
  unfold outcome at hout ⊢
  unfold after at hafter ⊢
  -- either both first halves return the same value, or both raise the same
  simp only [EStateM.run_bind]
  cases hrun : x.run s with
  | ok a t =>
    cases hrun' : x.run s' with
    | ok a' t' =>
      rw [hrun, hrun'] at hout hafter
      obtain rfl := Except.ok.inj hout
      exact hf a t t' hafter
    | error e' t' =>
      rw [hrun, hrun'] at hout
      cases hout
  | error e t =>
    cases hrun' : x.run s' with
    | ok a' t' =>
      rw [hrun, hrun'] at hout
      cases hout
    | error e' t' =>
      rw [hrun, hrun'] at hout hafter
      obtain rfl := Except.error.inj hout
      exact ⟨rfl, hafter⟩

end Respects

/-! ### Properties of whole programs -/

/-- A property that a program has if its statements have it. -/
structure Compositional (p : ∀ {α : Type}, EStateM ε σ α → Prop) : Prop where
  lift {α : Type} (x : Except ε α) : p (liftM x : EStateM ε σ α)
  bind {α β : Type} {x : EStateM ε σ α} {f : α → EStateM ε σ β} (hx : p x) (hf : ∀ a, p (f a)) :
    p (x >>= f)

theorem Compositional.pure {p : ∀ {α : Type}, EStateM ε σ α → Prop} (h : Compositional p) (a : α) :
    p (Pure.pure a : EStateM ε σ α) :=
  h.lift (.ok a)

theorem compositional_steps {R : σ → σ → Prop} (hrefl : ∀ s, R s s)
    (htrans : ∀ {a b c}, R a b → R b c → R a c) :
    Compositional fun {α} (x : EStateM ε σ α) => Steps R x where
  lift x := Steps.lift hrefl x
  bind hx hf := Steps.bind (R := R) htrans hx hf

theorem compositional_keeps {τ : Type} (part : σ → τ) :
    Compositional fun {α} (x : EStateM ε σ α) => Keeps part x :=
  compositional_steps (fun _ => rfl) fun h₁ h₂ => h₂.trans h₁

theorem compositional_respects (R : σ → σ → Prop) :
    Compositional fun {α} (x : EStateM ε σ α) => Respects R x where
  lift x := Respects.lift x
  bind hx hf := Respects.bind hx hf

end Effect
