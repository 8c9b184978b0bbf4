import KeystoneCrypto.Lib.Trace

/-!
# Processes with a common part

Several processes run the same program. Each has a state of its own, and a part of the state is
common: `share s s'` is the state `s` with the common part of `s'`. Calls do not overlap, and after
the call of one process the others find the common part as this call left it (`update`).

A process that has not called anything yet may as well be started later, so runs in which processes
end and others are started are included.

* `final_moves`: along what calls and sharing move a process, runs move it;
* `refines`: if the program refines a specification, then processes of the one refine processes of
  the other;
* `map_trace_eq`: if two runs of the program look alike, then so do two runs of processes.
-/

namespace Processes

variable {π σ τ ι ο κ ω : Type*} [DecidableEq π]

/-- The process `p` is now in the state `s`, and the others have its common part. -/
def update (share : σ → σ → σ) (S : π → σ) (p : π) (s : σ) : π → σ :=
  fun q => if q = p then s else share (S q) s

section Update

variable {share : σ → σ → σ} {S : π → σ} {p q : π} {s : σ}

@[simp] theorem update_self : update share S p s p = s := if_pos rfl

theorem update_of_ne (h : q ≠ p) : update share S p s q = share (S q) s := if_neg h

/-- What holds of the process that called, and of the others with its common part. -/
theorem forall_update {I : π → σ → Prop} (hself : I p s) (hother : ∀ q ≠ p, I q (share (S q) s))
    (q : π) : I q (update share S p s q) := by
  by_cases hq : q = p
  · subst hq
    rwa [update_self]
  · rw [update_of_ne hq]
    exact hother q hq

/-- Processes stay related if the one that called is and sharing keeps the relation. -/
theorem rel_update {share' : τ → τ → τ} {R : σ → τ → Prop} {T : π → τ} {t : τ}
    (hshare : ∀ s s' t t', R s t → R s' t' → R (share s s') (share' t t'))
    (h : ∀ q, R (S q) (T q)) (hself : R s t) (q : π) :
    R (update share S p s q) (update share' T p t q) := by
  by_cases hq : q = p
  · subst hq
    rw [update_self, update_self]
    exact hself
  · rw [update_of_ne hq, update_of_ne hq]
    exact hshare _ _ _ _ (h q) hself

end Update

/-- One call of one process. -/
def exec (share : σ → σ → σ) (exec : σ → ι → ο × σ) (S : π → σ) (c : π × ι) : ο × (π → σ) :=
  ((exec (S c.1) c.2).1, update share S c.1 (exec (S c.1) c.2).2)

/-- One call of one process, as a specification allows it. -/
inductive Step (share : τ → τ → τ) (step : τ → κ → ω → τ → Prop) :
    (π → τ) → π × κ → ω → (π → τ) → Prop
  | call {T : π → τ} {p : π} {k : κ} {o : ω} {t : τ} (h : step (T p) k o t) :
      Step share step T (p, k) o (update share T p t)

section Runs

variable {share : σ → σ → σ} {exec₁ : σ → ι → ο × σ} {S S' : π → σ}

@[simp] theorem exec_self (S : π → σ) (p : π) (c : ι) :
    (exec share exec₁ S (p, c)).2 p = (exec₁ (S p) c).2 := update_self

/-- **Monotone parts.** A transitive relation along which calls and sharing move a process relates
what it was and what it is. -/
theorem final_moves {R : σ → σ → Prop} (hrefl : ∀ s, R s s)
    (htrans : ∀ {s₁ s₂ s₃}, R s₁ s₂ → R s₂ s₃ → R s₁ s₃) (hshare : ∀ s s', R s (share s s'))
    (hstep : ∀ s c, R s (exec₁ s c).2) (S : π → σ) (calls : List (π × ι)) (p : π) :
    R (S p) (Trace.final (exec share exec₁) S calls p) := by
  refine Trace.final_invariant _ (I := fun _ (T : π → σ) => ∀ p, R (S p) (T p))
    (fun p => hrefl (S p)) (fun _ c T _ hT => ?_) calls p
  -- the caller is moved by its call, the others by sharing
  exact forall_update (I := fun q => R (S q)) (htrans (hT c.1) (hstep (T c.1) c.2))
    fun q _ => htrans (hT q) (hshare (T q) _)

/-- **Refinement** of one process is refinement of all of them. -/
theorem refines {share' : τ → τ → τ} {step : τ → κ → ω → τ → Prop} {R : σ → τ → Prop}
    {Ok : σ → ι → Prop} {call : ι → κ} {answer : ο → ω}
    (hshare : ∀ s s' t t', R s t → R s' t' → R (share s s') (share' t t'))
    (hstep : ∀ s t c, R s t → Ok s c →
      ∃ t', step t (call c) (answer (exec₁ s c).1) t' ∧ R (exec₁ s c).2 t')
    {T : π → τ} (h : ∀ p, R (S p) (T p)) {calls : List (π × ι)}
    (hok : Trace.Throughout (exec share exec₁) (fun S c => Ok (S c.1) c.2) S calls) :
    ∃ T', Trace.Allowed (Step share' step) T
        ((Trace.trace (exec share exec₁) S calls).map (Prod.map (Prod.map id call) answer)) T' ∧
      ∀ p, R (Trace.final (exec share exec₁) S calls p) (T' p) := by
  -- the relation holds of each process with its counterpart
  refine Trace.refines (R := fun (S : π → σ) (T : π → τ) => ∀ p, R (S p) (T p))
    (fun S T c hR hc => ?_) h hok
  obtain ⟨t', hk, hself⟩ := hstep (S c.1) (T c.1) c.2 (hR c.1) hc
  exact ⟨update share' T c.1 t', .call hk, rel_update hshare hR hself⟩

/-- **Two runs of processes** look alike if those of one process do. -/
theorem map_trace_eq {R : σ → σ → Prop} {Ok : ι → Prop} {view : ο → ω}
    (hshare : ∀ s s' t t', R s t → R s' t' → R (share s s') (share t t'))
    (hstep : ∀ s s' c, R s s' → Ok c →
      view (exec₁ s c).1 = view (exec₁ s' c).1 ∧ R (exec₁ s c).2 (exec₁ s' c).2)
    (h : ∀ p, R (S p) (S' p)) {calls : List (π × ι)} (hok : ∀ c ∈ calls, Ok c.2) :
    (Trace.trace (exec share exec₁) S calls).map (fun e => view e.2)
      = (Trace.trace (exec share exec₁) S' calls).map fun e => view e.2 := by
  -- one process calls in both runs, the others see its common part in both
  refine (Trace.map_trace_eq _ (R := fun (S S' : π → σ) => ∀ p, R (S p) (S' p))
    (fun S S' c hR hc => ?_) h hok).1
  obtain ⟨hview, hself⟩ := hstep (S c.1) (S' c.1) c.2 (hR c.1) hc
  exact ⟨hview, rel_update hshare hR hself⟩

end Runs

end Processes
