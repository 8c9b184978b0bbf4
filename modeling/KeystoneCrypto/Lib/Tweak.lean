import KeystoneCrypto.Lib.Walk

/-!
# Keys that can be tweaked in public

A homomorphism takes secrets to public points. A key carries a context besides its secret, and a
*rule* looks at the point and the context of a key and decides on a tweak: an amount that is added
to the secret, together with the context of the child. Since the rule looks at nothing secret, two
parties can follow it. The owner adds the tweak to the secret, an observer adds its image to the
point.

* `walk_publish` — owner and observer stay together: the observer's walk is the image of the
  owner's, failures included;
* `secret_of_walk` — the secrets at the two ends of a walk differ by an amount the observer
  computes, so that whoever holds the secret at the end has the secret at the start (`recover`).
-/

/-- A homomorphism from secrets to points and a rule for the tweaks. -/
structure Tweak (A B C ι ε : Type) [AddCommGroup A] [AddCommGroup B] where
  point : A →+ B
  point_injective : Function.Injective point
  /-- The amount to be added to the secret and the context of the child, or the reason why there
  is no child. -/
  rule : B × C → ι → Except ε (A × C)
  /-- The reason why a child with the secret zero is refused. -/
  zero : ε

namespace Tweak

variable {A B C ι ε : Type} [AddCommGroup A] [AddCommGroup B] (T : Tweak A B C ι ε)

/-- The public half of a key. -/
def publish (x : A × C) : B × C := (T.point x.1, x.2)

/-- A step of the owner. -/
def privateStep [DecidableEq A] (x : A × C) (i : ι) : Except ε (A × C) := do
  let (t, c) ← T.rule (T.publish x) i
  if x.1 + t = 0 then .error T.zero else .ok (x.1 + t, c)

/-- A step of an observer. -/
def publicStep [DecidableEq B] (y : B × C) (i : ι) : Except ε (B × C) := do
  let (t, c) ← T.rule y i
  if y.1 + T.point t = 0 then .error T.zero else .ok (y.1 + T.point t, c)

/-- A tweak is the inverse of the secret exactly if its point is the inverse of the point. -/
theorem point_add_eq_zero_iff (a t : A) : T.point a + T.point t = 0 ↔ a + t = 0 := by
  -- the point of a sum is the sum of the points, and only zero has the point zero
  rw [← map_add]
  exact map_eq_zero_iff T.point T.point_injective

section Steps

variable [DecidableEq A] [DecidableEq B]

/-- **One step.** The observer's step is the image of the owner's. -/
theorem publicStep_publish (x : A × C) (i : ι) :
    T.publicStep (T.publish x) i = (T.privateStep x i).map T.publish := by
  unfold publicStep privateStep
  cases T.rule (T.publish x) i with
  | error e => rfl
  | ok p =>
    obtain ⟨t, c⟩ := p
    have hzero := T.point_add_eq_zero_iff x.1 t
    change (if T.point x.1 + T.point t = 0 then Except.error T.zero
        else .ok (T.point x.1 + T.point t, c))
      = (if x.1 + t = 0 then Except.error T.zero else .ok (x.1 + t, c)).map T.publish
    -- the two checks agree, and the point of the sum is the sum of the points
    by_cases h : x.1 + t = 0
    · rw [if_pos h, if_pos (hzero.mpr h)]
      rfl
    · rw [if_neg h, if_neg (fun h' => h (hzero.mp h')), ← map_add]
      rfl

/-- **Walks.** What the owner derives and what an observer derives have the same public half. -/
theorem walk_publish (x : A × C) (l : List ι) :
    Walk.walk T.publicStep (T.publish x) l = (Walk.walk T.privateStep x l).map T.publish :=
  Walk.walk_map T.publicStep_publish x l

end Steps

/-- The tweaks of a walk put together, as an observer computes them. -/
def total : B × C → List ι → A
  | _, [] => 0
  | y, i :: l =>
    match T.rule y i with
    | .ok (t, c) => t + total (y.1 + T.point t, c) l
    | .error _ => 0

/-- The secret at the start of a walk, from the secret at its end. -/
def recover (y : B × C) (l : List ι) (a : A) : A := a - T.total y l

section Recovery

variable [DecidableEq A]

/-- What a step of the owner does. -/
theorem privateStep_eq_ok_iff {x y : A × C} {i : ι} :
    T.privateStep x i = .ok y ↔
      ∃ t, T.rule (T.publish x) i = .ok (t, y.2) ∧ x.1 + t ≠ 0 ∧ y.1 = x.1 + t := by
  unfold privateStep
  cases T.rule (T.publish x) i with
  | error e =>
    refine ⟨?_, ?_⟩
    · intro h
      cases h
    · rintro ⟨t, h, -⟩
      cases h
  | ok p =>
    obtain ⟨t, c⟩ := p
    change (if x.1 + t = 0 then Except.error T.zero else .ok (x.1 + t, c)) = .ok y ↔ _
    by_cases h : x.1 + t = 0
    · rw [if_pos h]
      refine ⟨?_, ?_⟩
      · intro h'
        cases h'
      · rintro ⟨t', ht, hne, -⟩
        cases ht
        exact absurd h hne
    · rw [if_neg h]
      refine ⟨?_, ?_⟩
      · intro h'
        cases h'
        exact ⟨t, rfl, h, rfl⟩
      · rintro ⟨t', ht, -, hy⟩
        cases ht
        exact congrArg Except.ok (Prod.ext hy.symm rfl)

/-- **The secret at the end** is the secret at the start plus an amount that is public. -/
theorem secret_of_walk {x y : A × C} {l : List ι} (h : Walk.walk T.privateStep x l = .ok y) :
    y.1 = x.1 + T.total (T.publish x) l := by
  induction l generalizing x with
  | nil =>
    cases h
    exact (add_zero _).symm
  | cons i l ih =>
    rw [Walk.walk_cons] at h
    cases hi : T.privateStep x i with
    | error e =>
      rw [hi] at h
      cases h
    | ok z =>
      rw [hi] at h
      obtain ⟨t, hrule, -, hz⟩ := T.privateStep_eq_ok_iff.mp hi
      -- behind the first step the observer stands at the public half of its result
      have hpub : T.publish z = ((T.publish x).1 + T.point t, z.2) := by
        unfold publish
        rw [hz, map_add]
      rw [ih h, hz, total, hrule, hpub, add_assoc]

/-- **Recovery.** A secret at the end of a walk gives away the secret at its start. -/
theorem recover_of_walk {x y : A × C} {l : List ι} (h : Walk.walk T.privateStep x l = .ok y) :
    T.recover (T.publish x) l y.1 = x.1 := by
  unfold recover
  rw [T.secret_of_walk h, add_sub_cancel_right]

end Recovery

end Tweak
