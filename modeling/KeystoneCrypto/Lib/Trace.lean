import Mathlib.Tactic

/-!
# Traces of interactive programs

An interactive program takes calls and answers each. `exec s c` is the answer to the call `c` in the
state `s`, with the state it leaves behind; `trace` collects the calls of a run with their answers,
and `final` is the state in the end.

A specification says which answers are allowed: `Step t k o t'` lets a state `t` answer the call `k`
with `o` and become `t'`. `Allowed Step t l t'` holds of the traces `l` it allows.

* `refines`: if each answer of the program is allowed by the specification, up to a relation between
  the states and an interpretation of calls and answers, then so is each trace;
* `Allowed.induction`: what holds of the empty trace and is kept by every allowed step holds of
  every allowed trace, and may mention the trace so far.

Two runs are compared by `map_trace_eq`: if the answers to each call look alike from related states,
and the states stay related, then the runs look alike.

A program may be guarded: `Throughout exec Ok s calls` says that the condition `Ok` holds of every
call of the run in the state it is made in.
-/

namespace Trace

variable {σ τ ι ο κ ω : Type*}

/-! ### Programs -/

section Program

variable (exec : σ → ι → ο × σ)

/-- The state after a list of calls. -/
def final (s : σ) (calls : List ι) : σ := calls.foldl (fun s c => (exec s c).2) s

/-- The calls with their answers. -/
def trace : σ → List ι → List (ι × ο)
  | _, [] => []
  | s, c :: calls => (c, (exec s c).1) :: trace (exec s c).2 calls

/-- The condition holds of every call in the state it is made in. -/
def Throughout (Ok : σ → ι → Prop) : σ → List ι → Prop
  | _, [] => True
  | s, c :: calls => Ok s c ∧ Throughout Ok (exec s c).2 calls

@[simp] theorem final_nil (s : σ) : final exec s [] = s := rfl

@[simp] theorem final_cons (s : σ) (c : ι) (calls : List ι) :
    final exec s (c :: calls) = final exec (exec s c).2 calls := rfl

theorem final_append (s : σ) (calls calls' : List ι) :
    final exec s (calls ++ calls') = final exec (final exec s calls) calls' := List.foldl_append

theorem final_concat (s : σ) (calls : List ι) (c : ι) :
    final exec s (calls ++ [c]) = (exec (final exec s calls) c).2 := final_append exec s calls [c]

@[simp] theorem trace_nil (s : σ) : trace exec s [] = [] := rfl

@[simp] theorem trace_cons (s : σ) (c : ι) (calls : List ι) :
    trace exec s (c :: calls) = (c, (exec s c).1) :: trace exec (exec s c).2 calls := rfl

theorem trace_append (s : σ) (calls calls' : List ι) :
    trace exec s (calls ++ calls')
      = trace exec s calls ++ trace exec (final exec s calls) calls' := by
  induction calls generalizing s with
  | nil => rfl
  | cons c calls ih =>
    rw [List.cons_append, trace_cons, ih, trace_cons, final_cons, List.cons_append]

theorem map_fst_trace (s : σ) (calls : List ι) : (trace exec s calls).map Prod.fst = calls := by
  induction calls generalizing s with
  | nil => rfl
  | cons c calls ih => rw [trace_cons, List.map_cons, ih]

/-- A trace is cut where its calls are. -/
theorem split_of_trace_eq {s : σ} {calls : List ι} {l l' : List (ι × ο)} {c : ι} {o : ο}
    (h : trace exec s calls = l ++ (c, o) :: l') : ∃ front back, calls = front ++ c :: back ∧
      trace exec s front = l ∧ (exec (final exec s front) c).1 = o := by
  induction l generalizing s calls with
  -- the cut comes first: the call is the one at the head
  | nil =>
    cases calls with
    | nil => cases h
    | cons d calls =>
      cases h
      exact ⟨[], calls, rfl, rfl, rfl⟩
  -- one call earlier, and the cut is that of the rest
  | cons e l ih =>
    cases calls with
    | nil => cases h
    | cons d calls =>
      obtain ⟨rfl, htail⟩ := List.cons.inj h
      obtain ⟨front, back, rfl, rfl, ho⟩ := ih htail
      exact ⟨d :: front, back, rfl, rfl, ho⟩

/-- An entry of a trace is the answer in the state that the calls before it lead to. -/
theorem mem_trace_iff {s : σ} {calls : List ι} {c : ι} {o : ο} : (c, o) ∈ trace exec s calls ↔
    ∃ front back, calls = front ++ c :: back ∧ (exec (final exec s front) c).1 = o := by
  refine ⟨fun h => ?_, ?_⟩
  · obtain ⟨l, l', h⟩ := List.append_of_mem h
    obtain ⟨front, back, hcalls, -, ho⟩ := split_of_trace_eq exec h
    exact ⟨front, back, hcalls, ho⟩
  · rintro ⟨front, back, hcalls, ho⟩
    -- the call after the front is answered in the state the front leads to
    rw [hcalls, trace_append, trace_cons, ho]
    exact List.mem_append_right _ List.mem_cons_self

/-- The condition holds of a call if it does after the calls before it. -/
theorem throughout_of_split {Ok : σ → ι → Prop} {s : σ} {calls : List ι}
    (h : ∀ front c back, calls = front ++ c :: back → Ok (final exec s front) c) :
    Throughout exec Ok s calls := by
  induction calls generalizing s with
  | nil => trivial
  | cons c calls ih =>
    refine ⟨h [] c calls rfl, ih fun front c' back hcalls => ?_⟩
    exact h (c :: front) c' back (congrArg (c :: ·) hcalls)

theorem throughout_of_forall {Ok : σ → ι → Prop} {s : σ} {calls : List ι}
    (h : ∀ c ∈ calls, ∀ s, Ok s c) : Throughout exec Ok s calls := by
  refine throughout_of_split exec fun front c back hcalls => h c ?_ _
  rw [hcalls]
  exact List.mem_append_right _ List.mem_cons_self

theorem Throughout.imp {Ok Ok' : σ → ι → Prop} (himp : ∀ s c, Ok s c → Ok' s c) {s : σ}
    {calls : List ι} (h : Throughout exec Ok s calls) : Throughout exec Ok' s calls := by
  induction calls generalizing s with
  | nil => trivial
  | cons c calls ih => exact ⟨himp s c h.1, ih h.2⟩

/-- What a guard says of a call in any state. -/
theorem Throughout.forall_mem {Ok : σ → ι → Prop} {p : ι → Prop} (himp : ∀ s c, Ok s c → p c)
    {s : σ} {calls : List ι} (h : Throughout exec Ok s calls) : ∀ c ∈ calls, p c := by
  induction calls generalizing s with
  | nil => exact fun _ hc => absurd hc List.not_mem_nil
  | cons c calls ih => exact List.forall_mem_cons.mpr ⟨himp s c h.1, ih h.2⟩

theorem throughout_append {Ok : σ → ι → Prop} {s : σ} {calls calls' : List ι} :
    Throughout exec Ok s (calls ++ calls') ↔
      Throughout exec Ok s calls ∧ Throughout exec Ok (final exec s calls) calls' := by
  induction calls generalizing s with
  | nil => exact ⟨fun h => ⟨trivial, h⟩, And.right⟩
  | cons c calls ih =>
    change Ok s c ∧ Throughout exec Ok _ (calls ++ calls') ↔ _
    rw [ih, ← and_assoc]
    exact Iff.rfl

/-- **Invariants of runs.** What every guarded call preserves holds in the end. -/
theorem final_induction (Ok : σ → ι → Prop) {I : List ι → σ → Prop} {s : σ} (hnil : I [] s)
    (hstep : ∀ calls c t, t = final exec s calls → I calls t → Ok t c →
      I (calls ++ [c]) (exec t c).2) (calls : List ι) (hok : Throughout exec Ok s calls) :
    I calls (final exec s calls) := by
  -- the last call is made in the state that the others lead to, so the run is taken from its end
  induction calls using List.reverseRecOn with
  | nil => exact hnil
  | append_singleton calls c ih =>
    obtain ⟨hcalls, hc, -⟩ := (throughout_append exec).mp hok
    rw [final_concat]
    exact hstep calls c _ rfl (ih hcalls) hc

/-- Without conditions on the calls, an invariant of the steps holds after every run. -/
theorem final_invariant {I : List ι → σ → Prop} {s : σ} (hnil : I [] s)
    (hstep : ∀ calls c t, t = final exec s calls → I calls t → I (calls ++ [c]) (exec t c).2)
    (calls : List ι) : I calls (final exec s calls) :=
  final_induction exec (fun _ _ => True) hnil (fun calls c t ht hI _ => hstep calls c t ht hI)
    calls (throughout_of_forall exec fun _ _ _ => trivial)

/-- **Two runs side by side.** What each call answers looks alike from related states, and the
states stay related: then all answers look alike. -/
theorem map_trace_eq {R : σ → σ → Prop} {Ok : ι → Prop} {view : ο → ω}
    (hstep : ∀ s s' c, R s s' → Ok c →
      view (exec s c).1 = view (exec s' c).1 ∧ R (exec s c).2 (exec s' c).2)
    {s s' : σ} (h : R s s') {calls : List ι} (hok : ∀ c ∈ calls, Ok c) :
    (trace exec s calls).map (fun e => view e.2) = (trace exec s' calls).map (fun e => view e.2) ∧
      R (final exec s calls) (final exec s' calls) := by
  induction calls generalizing s s' with
  | nil => exact ⟨rfl, h⟩
  | cons c calls ih =>
    -- after one call the states are again related, as the induction needs them
    obtain ⟨hview, hnext⟩ := hstep s s' c h (hok c List.mem_cons_self)
    obtain ⟨htrace, hfinal⟩ := ih hnext fun d hd => hok d (List.mem_cons_of_mem c hd)
    refine ⟨?_, hfinal⟩
    rw [trace_cons, trace_cons, List.map_cons, List.map_cons, hview, htrace]

end Program

/-! ### Specifications -/

/-- The traces a specification allows. -/
inductive Allowed (Step : τ → κ → ω → τ → Prop) : τ → List (κ × ω) → τ → Prop
  | nil (t : τ) : Allowed Step t [] t
  | cons {t t₁ t₂ : τ} {k : κ} {o : ω} {l : List (κ × ω)} (h : Step t k o t₁)
      (hl : Allowed Step t₁ l t₂) : Allowed Step t ((k, o) :: l) t₂

section Allowed

variable {Step : τ → κ → ω → τ → Prop} {t t₁ t₂ : τ} {l l₁ l₂ : List (κ × ω)}

theorem allowed_append_iff :
    Allowed Step t (l₁ ++ l₂) t₂ ↔ ∃ t₁, Allowed Step t l₁ t₁ ∧ Allowed Step t₁ l₂ t₂ := by
  refine ⟨fun h => ?_, ?_⟩
  -- the derivation has the cut as an index, so the induction is on the first part
  · induction l₁ generalizing t with
    | nil => exact ⟨t, .nil t, h⟩
    | cons e l₁ ih =>
      cases h with
      | cons hstep hl =>
        obtain ⟨t₁, h₁, h₂⟩ := ih hl
        exact ⟨t₁, .cons hstep h₁, h₂⟩
  · rintro ⟨t₁, h₁, h₂⟩
    induction h₁ with
    | nil => exact h₂
    | cons hstep _ ih => exact .cons hstep (ih h₂)

/-- **Induction along an allowed trace.** The invariant may depend on the trace so far. -/
theorem Allowed.induction {I : List (κ × ω) → τ → Prop} (hnil : I [] t)
    (hstep : ∀ l u k o u', Allowed Step t l u → I l u → Step u k o u' → I (l ++ [(k, o)]) u')
    (h : Allowed Step t l t₁) : I l t₁ := by
  -- a derivation starts at the front, the new entry of the trace is at its end
  induction l using List.reverseRecOn generalizing t₁ with
  | nil =>
    cases h
    exact hnil
  | append_singleton l e ih =>
    obtain ⟨u, hl, he⟩ := allowed_append_iff.mp h
    cases he with
    | cons hu hnil' =>
      cases hnil'
      exact hstep l u _ _ _ hl (ih hl) hu

/-- **Monotone parts.** A transitive relation that every step moves the state along relates the ends
of a trace. -/
theorem Allowed.moves {R : τ → τ → Prop} (hrefl : ∀ t, R t t)
    (htrans : ∀ {a b c}, R a b → R b c → R a c) (h : Allowed Step t l t₁)
    (hstep : ∀ e ∈ l, ∀ u u', Step u e.1 e.2 u' → R u u') : R t t₁ := by
  induction h with
  | nil t => exact hrefl t
  | cons hu hl ih =>
    exact htrans (hstep _ List.mem_cons_self _ _ hu)
      (ih fun e he => hstep e (List.mem_cons_of_mem _ he))

end Allowed

/-! ### Refinement -/

/-- **Refinement.** A program whose guarded answers are allowed, up to a relation between the states
and an interpretation of calls and answers, has allowed traces only. -/
theorem refines {exec : σ → ι → ο × σ} {Step : τ → κ → ω → τ → Prop} {R : σ → τ → Prop}
    {Ok : σ → ι → Prop} {call : ι → κ} {answer : ο → ω}
    (hstep : ∀ s t c, R s t → Ok s c →
      ∃ t', Step t (call c) (answer (exec s c).1) t' ∧ R (exec s c).2 t')
    {s : σ} {t : τ} (h : R s t) {calls : List ι} (hok : Throughout exec Ok s calls) :
    ∃ t', Allowed Step t ((trace exec s calls).map (Prod.map call answer)) t' ∧
      R (final exec s calls) t' := by
  induction calls generalizing s t with
  | nil => exact ⟨t, .nil t, h⟩
  | cons c calls ih =>
    -- one answer is allowed by `hstep`; the rest starts from the related states after it
    obtain ⟨t₁, hc, hR⟩ := hstep s t c h hok.1
    obtain ⟨t', hl, hR'⟩ := ih hR hok.2
    exact ⟨t', .cons hc hl, hR'⟩

end Trace
