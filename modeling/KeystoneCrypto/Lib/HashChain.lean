import KeystoneCrypto.Lib.Walk

/-!
# Chains of hashes

The states of a walk carry a tag, and every step puts the hash of a message, made from the state
and the input, in the place of the tag. If a message determines what it was made from, the tag at
the end of a walk commits to the whole walk: two walks that end in one tag are the same walk, or two
different messages that were hashed on the way have one hash (`walk_binds`).

The collision is one between messages of the two walks. That there are two messages with one hash
says nothing where there are more messages than hashes.
-/

namespace HashChain

open Walk

variable {σ ι ε μ δ : Type}

/-- The messages hashed on a walk from a state that was made from the message `root`. -/
def Hashed (step : σ → ι → Except ε σ) (msg : σ → ι → μ) (root : μ) (s : σ) (l : List ι) (x : μ) :
    Prop :=
  x = root ∨ ∃ l₁ i l₂ t, l = l₁ ++ i :: l₂ ∧ walk step s l₁ = .ok t ∧ x = msg t i

/-- Two different messages with one hash, each satisfying its own predicate. -/
def Collision (H : μ → δ) (A B : μ → Prop) : Prop :=
  ∃ x y, A x ∧ B y ∧ x ≠ y ∧ H x = H y

section Hashed

variable {step : σ → ι → Except ε σ} {msg : σ → ι → μ} {root root' : μ} {s s' t t' : σ}

/-- A longer walk hashes the messages of a shorter one. -/
theorem Hashed.concat {l : List ι} {x : μ} (i : ι) (h : Hashed step msg root s l x) :
    Hashed step msg root s (l ++ [i]) x := by
  rcases h with rfl | ⟨l₁, j, l₂, u, rfl, hu, rfl⟩
  · exact .inl rfl
  · exact .inr ⟨l₁, j, l₂ ++ [i], u, by simp, hu, rfl⟩

/-- The message of the last step. -/
theorem hashed_last {l : List ι} (i : ι) (h : walk step s l = .ok t) :
    Hashed step msg root s (l ++ [i]) (msg t i) :=
  .inr ⟨l, i, [], t, rfl, h, rfl⟩

/-- The last step of a walk that succeeds. -/
theorem exists_last_of_walk {l : List ι} {i : ι} (h : walk step s (l ++ [i]) = .ok t) :
    ∃ u, walk step s l = .ok u ∧ step u i = .ok t := by
  rw [walk_concat] at h
  cases hl : walk step s l with
  | error e =>
    rw [hl] at h
    cases h
  | ok u =>
    rw [hl] at h
    exact ⟨u, rfl, h⟩

variable {H : μ → δ} {tag : σ → δ}

/-- **Binding.** Walks that end in one tag agree from their roots on, unless there is a collision
among the messages hashed on the way. -/
theorem walk_binds (htag : ∀ s i t, step s i = .ok t → tag t = H (msg s i))
    (hinj : ∀ s i t s' i' t', step s i = .ok t → step s' i' = .ok t' → msg s i = msg s' i' →
      s = s' ∧ i = i')
    (hs : tag s = H root) (hs' : tag s' = H root')
    (hroot : ∀ l u i, walk step s' l = .ok u → msg u i ≠ root)
    (hroot' : ∀ l u i, walk step s l = .ok u → msg u i ≠ root')
    {l l' : List ι} (h : walk step s l = .ok t)
    (h' : walk step s' l' = .ok t') (heq : tag t = tag t') :
    (root = root' ∧ l = l') ∨
      Collision H (Hashed step msg root s l) (Hashed step msg root' s' l') := by
  -- from the back: the last steps of both walks first
  induction l using List.reverseRecOn generalizing l' t t' with
  | nil =>
    cases h
    induction l' using List.reverseRecOn with
    | nil =>
      cases h'
      by_cases hr : root = root'
      · exact .inl ⟨hr, rfl⟩
      · exact .inr ⟨root, root', .inl rfl, .inl rfl, hr, by rw [← hs, heq, hs']⟩
    | append_singleton l' i' =>
      -- a root against a step
      obtain ⟨u', hu', hi'⟩ := exists_last_of_walk h'
      exact .inr ⟨root, msg u' i', .inl rfl, hashed_last i' hu', (hroot l' u' i' hu').symm,
        by rw [← hs, heq, htag u' i' t' hi']⟩
  | append_singleton l i ih =>
    obtain ⟨u, hu, hi⟩ := exists_last_of_walk h
    induction l' using List.reverseRecOn with
    | nil =>
      cases h'
      exact .inr ⟨msg u i, root', hashed_last i hu, .inl rfl, hroot' l u i hu,
        by rw [← htag u i t hi, heq, hs']⟩
    | append_singleton l' i' =>
      obtain ⟨u', hu', hi'⟩ := exists_last_of_walk h'
      by_cases hm : msg u i = msg u' i'
      · -- equal messages were made from equal states, which have equal tags
        obtain ⟨rfl, rfl⟩ := hinj u i t u' i' t' hi hi' hm
        rcases ih hu hu' rfl with ⟨hr, rfl⟩ | ⟨x, y, hx, hy, hne, hxy⟩
        · exact .inl ⟨hr, rfl⟩
        · exact .inr ⟨x, y, hx.concat i, hy.concat i, hne, hxy⟩
      · exact .inr ⟨msg u i, msg u' i', hashed_last i hu, hashed_last i' hu', hm,
          by rw [← htag u i t hi, heq, htag u' i' t' hi']⟩

end Hashed

end HashChain
