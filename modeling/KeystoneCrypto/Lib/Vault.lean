import KeystoneCrypto.Lib.Processes

/-!
# Vaults

A vault keeps secrets under passwords. A *safe* holds one secret and has one password. Safes are
written to files, files are opened into *contexts*, and unlocking a context with its password gives
a *wallet* that holds the secret. As long as a wallet is open, keys can be derived from its secret;
a derived key becomes a *handle* of its own, which outlives the wallet.

The vault does not say how anything is encrypted, encoded or signed. What a secret yields is a
parameter (`Keyring`), and so is how far a vault may fall short of an ideal one (`Slack`): which
passwords can be confused, and whether saving and opening may fail for reasons that the vault does
not know. Nothing is promised of what a wrong password that is taken for the right one leads to.
Nor is anything known of safes that were not sealed, of contexts that come from elsewhere, and of
files that a save has broken off in (`none` below).

Files are known by names. Different names may lead to one file, and a name to none; in each vault
`locate` is fixed.

A vault only grows (`Step.grows`). The other results are about any number of vaults that share their
files (`Runs`). They follow from what a single step can do, by induction along the run.

* *Durability* (`unlock_saved`). A file keeps its safe until somebody saves to it, under whichever
  name (`files_eq`): a step that is no such save leaves the file alone (`Step.files_eq`), and names
  lead where they led (`Step.locate_eq`). Since numbers keep their objects as vaults grow, the
  context made by opening is still the one that is unlocked later, and there the right password
  leaves only one answer (`Step.of_unlock`).
* *Confinement* (`sourced`). In ideal vaults every wallet comes from a safe and from its password.
  The invariant is `Sourced`, and it mentions the trace so far: each safe, file and context was
  created somewhere in it, each wallet and handle was unlocked in it, by this vault, with the
  password of the safe. `Sourced.step` keeps it, one case for each answer of a vault; the answers
  that would break it are those that `Slack` allows and those to `Call.Foreign` calls.
-/

namespace Vault

/-- What keys, public keys and signatures a secret yields. -/
structure Keyring (Secret Key Public Message Sig : Type*) where
  /-- The public key at a key, if there is one. -/
  publicOf : Secret → Key → Option Public
  /-- This may come of signing a message, a failure being `none`. -/
  Signs : Secret → Key → Message → Option Sig → Prop

@[ext]
structure Safe (Secret Password : Type*) where
  secret : Secret
  password : Password

structure Wallet (Secret : Type*) where
  secret : Secret
  closed : Bool

/-- A derived key. -/
structure Handle (Secret Key : Type*) where
  secret : Secret
  key : Key

/-- A vault. Of what is `none` nothing is known. -/
structure State (Secret Password Name Key : Type*) where
  /-- The file that a name leads to. -/
  locate : Name → Option Name
  safes : List (Option (Safe Secret Password))
  files : Name → Option (Option (Safe Secret Password))
  contexts : List (Option (Safe Secret Password))
  wallets : List (Wallet Secret)
  handles : List (Handle Secret Key)

/-- Nothing in it. -/
def State.empty {Secret Password Name Key : Type*} (locate : Name → Option Name) :
    State Secret Password Name Key :=
  ⟨locate, [], fun _ => none, [], [], []⟩

/-- How far a vault may fall short of an ideal one. -/
structure Slack (Password : Type*) where
  /-- A safe with the first password may take the second for it. -/
  Accepts : Password → Password → Prop
  /-- Saving and opening may fail although there is a file. -/
  Fails : Prop
  /-- Saving may fail after the file is lost. -/
  Breaks : Prop

/-- Anything may happen. -/
def Slack.loose (Password : Type*) : Slack Password := ⟨fun _ _ => True, True, True⟩

/-- The calls. Objects are numbered in the order of their making. -/
inductive Call (Secret Password Name Key Message : Type*)
  /-- A secret is drawn. It is not kept until a safe is created for it. -/
  | generate
  | create (secret : Option Secret) (password : Password)
  /-- A safe that is not sealed. -/
  | createLoose
  | save (i : ℕ) (name : Name)
  | openFile (name : Name)
  /-- A context of unknown origin. -/
  | load
  | unlock (i : ℕ) (password : Password)
  | derive (i : ℕ) (key : Key)
  | sign (i : ℕ) (key : Key) (message : Message)
  | signWith (j : ℕ) (message : Message)
  | close (i : ℕ)

inductive Answer (Public Sig : Type*)
  | done
  | refused
  | publicKey (a : Public)
  | signature (s : Sig)

/-! ### Growth -/

section Grows

variable {Secret Password Name Key : Type*} {v v' : State Secret Password Name Key}

/-- What was there is still there; a wallet may have been closed. -/
structure Grows (v v' : State Secret Password Name Key) : Prop where
  safes : v.safes <+: v'.safes
  contexts : v.contexts <+: v'.contexts
  handles : v.handles <+: v'.handles
  wallets : ∀ (i : ℕ) (a : Wallet Secret), v.wallets[i]? = some a → ∃ a' : Wallet Secret,
    v'.wallets[i]? = some a' ∧ a'.secret = a.secret ∧ (a.closed = true → a'.closed = true)

theorem Grows.refl (v : State Secret Password Name Key) : Grows v v :=
  ⟨List.prefix_rfl, List.prefix_rfl, List.prefix_rfl, fun _ a h => ⟨a, h, rfl, id⟩⟩

theorem Grows.trans {v₁ v₂ v₃ : State Secret Password Name Key} (h : Grows v₁ v₂)
    (h' : Grows v₂ v₃) : Grows v₁ v₃ where
  safes := h.safes.trans h'.safes
  contexts := h.contexts.trans h'.contexts
  handles := h.handles.trans h'.handles
  wallets := by
    intro i a ha
    obtain ⟨a₁, ha₁, hsecret, hclosed⟩ := h.wallets i a ha
    obtain ⟨a₂, ha₂, hsecret', hclosed'⟩ := h'.wallets i a₁ ha₁
    exact ⟨a₂, ha₂, hsecret'.trans hsecret, fun hc => hclosed' (hclosed hc)⟩

/-- A new wallet takes the next number. -/
theorem Grows.of_wallets_concat (a : Wallet Secret) :
    Grows v { v with wallets := v.wallets ++ [a] } where
  safes := List.prefix_rfl
  contexts := List.prefix_rfl
  handles := List.prefix_rfl
  wallets := fun _ b hb =>
    ⟨b, (List.getElem?_append_left (List.getElem?_eq_some_iff.mp hb).1).trans hb, rfl, id⟩

/-- A closed wallet keeps its number and its secret. -/
theorem Grows.of_closed {i : ℕ} {a : Wallet Secret} (h : v.wallets[i]? = some a) :
    Grows v { v with wallets := v.wallets.set i { a with closed := true } } where
  safes := List.prefix_rfl
  contexts := List.prefix_rfl
  handles := List.prefix_rfl
  wallets := by
    intro j b hb
    change ∃ a' : Wallet Secret, (v.wallets.set i { a with closed := true })[j]? = some a' ∧ _
    -- the closed wallet keeps its secret, the others are not touched
    by_cases hij : i = j
    · subst hij
      obtain rfl : b = a := Option.some.inj (hb.symm.trans h)
      exact ⟨_, List.getElem?_set_self (List.getElem?_eq_some_iff.mp h).1, rfl, fun _ => rfl⟩
    · exact ⟨b, (List.getElem?_set_ne hij).trans hb, rfl, id⟩

/-- Objects keep their numbers. -/
theorem getElem?_of_isPrefix {α : Type*} {l l' : List α} (h : l <+: l') {i : ℕ} {a : α}
    (ha : l[i]? = some a) : l'[i]? = some a := by
  obtain ⟨hi, rfl⟩ := List.getElem?_eq_some_iff.mp ha
  exact List.prefix_iff_getElem?.mp h i hi

end Grows

/-! ### What a vault may answer -/

section Step

variable {Secret Password Name Key Public Message Sig : Type*} [DecidableEq Name]
  (K : Keyring Secret Key Public Message Sig) (L : Slack Password)

/-- The answers a vault may give, and what becomes of it. -/
inductive Step : State Secret Password Name Key → Call Secret Password Name Key Message →
    Answer Public Sig → State Secret Password Name Key → Prop
  | generated {v} : Step v .generate .done v
  | notGenerated {v} : Step v .generate .refused v
  | created {v x p} :
      Step v (.create (some x) p) .done { v with safes := v.safes ++ [some ⟨x, p⟩] }
  | notCreated {v x p} : Step v (.create x p) .refused v
  | createdLoose {v} : Step v .createLoose .done { v with safes := v.safes ++ [none] }
  | notCreatedLoose {v} : Step v .createLoose .refused v
  | saved {v i name file c} (h : v.safes[i]? = some c) (hname : v.locate name = some file) :
      Step v (.save i name) .done { v with files := Function.update v.files file (some c) }
  | notSaved {v i name} (h : v.safes[i]? = none ∨ v.locate name = none ∨ L.Fails) :
      Step v (.save i name) .refused v
  /-- The file is emptied, or holds a part of what was to be saved. -/
  | brokenOff {v i name file c} (h : v.safes[i]? = some c) (hname : v.locate name = some file)
      (hb : L.Breaks) :
      Step v (.save i name) .refused { v with files := Function.update v.files file (some none) }
  | opened {v name file c} (hname : v.locate name = some file) (h : v.files file = some c) :
      Step v (.openFile name) .done { v with contexts := v.contexts ++ [c] }
  | notOpened {v name} (h : (∀ file, v.locate name = some file → v.files file = none) ∨ L.Fails) :
      Step v (.openFile name) .refused v
  | loaded {v} : Step v .load .done { v with contexts := v.contexts ++ [none] }
  | unlocked {v i s} (h : v.contexts[i]? = some (some s)) :
      Step v (.unlock i s.password) .done { v with wallets := v.wallets ++ [⟨s.secret, false⟩] }
  /-- A wrong password that is taken for the right one. -/
  | confused {v i s p} (h : v.contexts[i]? = some (some s)) (hne : p ≠ s.password)
      (ha : L.Accepts s.password p) (x : Secret) :
      Step v (.unlock i p) .done { v with wallets := v.wallets ++ [⟨x, false⟩] }
  /-- A context of unknown origin that some password opens. -/
  | unlockedForeign {v i p} (h : v.contexts[i]? = some none) (x : Secret) :
      Step v (.unlock i p) .done { v with wallets := v.wallets ++ [⟨x, false⟩] }
  | notUnlocked {v i p} (h : ∀ s, v.contexts[i]? = some (some s) → p ≠ s.password) :
      Step v (.unlock i p) .refused v
  | derived {v i k x a} (h : v.wallets[i]? = some ⟨x, false⟩) (ha : K.publicOf x k = some a) :
      Step v (.derive i k) (.publicKey a) { v with handles := v.handles ++ [⟨x, k⟩] }
  | notDerived {v i k} (h : ∀ x, v.wallets[i]? = some ⟨x, false⟩ → K.publicOf x k = none) :
      Step v (.derive i k) .refused v
  | signed {v i k m x s} (h : v.wallets[i]? = some ⟨x, false⟩) (hs : K.Signs x k m (some s)) :
      Step v (.sign i k m) (.signature s) v
  | notSigned {v i k m} (h : ∀ x, v.wallets[i]? = some ⟨x, false⟩ → K.Signs x k m none) :
      Step v (.sign i k m) .refused v
  | signedWith {v j m x k s} (h : v.handles[j]? = some ⟨x, k⟩) (hs : K.Signs x k m (some s)) :
      Step v (.signWith j m) (.signature s) v
  | notSignedWith {v j m} (h : ∀ x k, v.handles[j]? = some ⟨x, k⟩ → K.Signs x k m none) :
      Step v (.signWith j m) .refused v
  | closed {v i a} (h : v.wallets[i]? = some a) :
      Step v (.close i) .done { v with wallets := v.wallets.set i { a with closed := true } }
  | notClosed {v i} (h : v.wallets[i]? = none) : Step v (.close i) .refused v

variable {K L} {v v' : State Secret Password Name Key}
  {c : Call Secret Password Name Key Message} {o : Answer Public Sig}

theorem Step.grows (h : Step K L v c o v') : Grows v v' := by
  -- lists grow at their ends; only wallets change in place, and only by being closed
  cases h with
  | created => exact ⟨List.prefix_append _ _, List.prefix_rfl, List.prefix_rfl, (Grows.refl v).4⟩
  | opened => exact ⟨List.prefix_rfl, List.prefix_append _ _, List.prefix_rfl, (Grows.refl v).4⟩
  | loaded => exact ⟨List.prefix_rfl, List.prefix_append _ _, List.prefix_rfl, (Grows.refl v).4⟩
  | derived => exact ⟨List.prefix_rfl, List.prefix_rfl, List.prefix_append _ _, (Grows.refl v).4⟩
  | createdLoose =>
    exact ⟨List.prefix_append _ _, List.prefix_rfl, List.prefix_rfl, (Grows.refl v).4⟩
  | saved => exact ⟨List.prefix_rfl, List.prefix_rfl, List.prefix_rfl, (Grows.refl v).4⟩
  | brokenOff => exact ⟨List.prefix_rfl, List.prefix_rfl, List.prefix_rfl, (Grows.refl v).4⟩
  | unlocked h => exact .of_wallets_concat _
  | confused h hne ha x => exact .of_wallets_concat _
  | unlockedForeign h x => exact .of_wallets_concat _
  | closed h => exact .of_closed h
  | generated => exact .refl _
  | notGenerated => exact .refl _
  | notCreated => exact .refl _
  | notCreatedLoose => exact .refl _
  | notSaved h => exact .refl _
  | notOpened h => exact .refl _
  | notUnlocked h => exact .refl _
  | notDerived h => exact .refl _
  | signed h hs => exact .refl _
  | notSigned h => exact .refl _
  | signedWith h hs => exact .refl _
  | notSignedWith h => exact .refl _
  | notClosed h => exact .refl _

/-- Names lead where they led. -/
theorem Step.locate_eq (h : Step K L v c o v') : v'.locate = v.locate := by
  cases h <;> rfl

/-- Only saving writes a file, and only the one that its name leads to. -/
theorem Step.files_eq {file : Name} (h : Step K L v c o v')
    (hc : ∀ i name, c = .save i name → v.locate name ≠ some file) :
    v'.files file = v.files file := by
  cases h with
  | @saved i name other c h hname =>
    -- the name leads to `other`, which `hc` tells apart from this file
    have hne : file ≠ other := by
      rintro rfl
      exact hc i name rfl hname
    exact Function.update_of_ne hne _ _
  | @brokenOff i name other c h hname =>
    have hne : file ≠ other := by
      rintro rfl
      exact hc i name rfl hname
    exact Function.update_of_ne hne _ _
  | _ => rfl

/-- The right password unlocks. -/
theorem Step.of_unlock {i : ℕ} {s : Safe Secret Password} (hs : v.contexts[i]? = some (some s))
    (h : Step K L v (.unlock i s.password) o v') :
    o = .done ∧ v' = { v with wallets := v.wallets ++ [⟨s.secret, false⟩] } := by
  -- `Step.unlocked` takes the password from the safe, so the equation is named first
  generalize hp : s.password = p at h
  cases h with
  | @unlocked _ s' h =>
    obtain rfl : s = s' := Option.some.inj (Option.some.inj (hs.symm.trans h))
    exact ⟨rfl, rfl⟩
  | @confused _ s' _ h hne =>
    obtain rfl : s = s' := Option.some.inj (Option.some.inj (hs.symm.trans h))
    exact absurd hp.symm hne
  | unlockedForeign h => cases hs.symm.trans h
  | notUnlocked h => exact absurd hp.symm (h s hs)

end Step

/-! ### Vaults that share their files -/

section Share

variable {Secret Password Name Key : Type*}

/-- The vault with the files of another. -/
def share (v v' : State Secret Password Name Key) : State Secret Password Name Key :=
  { v with files := v'.files }

theorem grows_share (v v' : State Secret Password Name Key) : Grows v (share v v') :=
  ⟨List.prefix_rfl, List.prefix_rfl, List.prefix_rfl, (Grows.refl v).4⟩

/-- After a call, what the vault of the caller has in its files, all have. -/
theorem files_update {π : Type*} [DecidableEq π] (V : π → State Secret Password Name Key) (p q : π)
    (v : State Secret Password Name Key) : (Processes.update share V p v q).files = v.files :=
  Processes.forall_update (I := fun _ (u : State Secret Password Name Key) => u.files = v.files)
    rfl (fun _ _ => rfl) q

end Share

section Sourced

variable {π Secret Password Name Key Message Public Sig : Type*}

/-- A safe was created with this secret under this password. -/
def Created (l : List ((π × Call Secret Password Name Key Message) × Answer Public Sig))
    (s : Safe Secret Password) : Prop :=
  ∃ p, ((p, .create (some s.secret) s.password), .done) ∈ l

/-- A safe with this secret was created, and unlocked here with its password afterwards. -/
def Unlocked (l : List ((π × Call Secret Password Name Key Message) × Answer Public Sig)) (p : π)
    (x : Secret) : Prop :=
  ∃ front i password back, l = front ++ ((p, .unlock i password), .done) :: back ∧
    Created front ⟨x, password⟩

/-- Everything in the vault `p` comes from where it should. -/
structure Sourced (l : List ((π × Call Secret Password Name Key Message) × Answer Public Sig))
    (p : π) (v : State Secret Password Name Key) : Prop where
  safes : ∀ c ∈ v.safes, ∃ s, c = some s ∧ Created l s
  files : ∀ file c, v.files file = some c → ∃ s, c = some s ∧ Created l s
  contexts : ∀ c ∈ v.contexts, ∃ s, c = some s ∧ Created l s
  wallets : ∀ a ∈ v.wallets, Unlocked l p a.secret
  handles : ∀ a ∈ v.handles, Unlocked l p a.secret

variable {l : List ((π × Call Secret Password Name Key Message) × Answer Public Sig)} {p : π}
  {v v' : State Secret Password Name Key}

theorem Created.concat {s : Safe Secret Password} (h : Created l s)
    (e : (π × Call Secret Password Name Key Message) × Answer Public Sig) :
    Created (l ++ [e]) s :=
  h.imp fun _ hp => List.mem_append_left _ hp

theorem Unlocked.concat {x : Secret} (h : Unlocked l p x)
    (e : (π × Call Secret Password Name Key Message) × Answer Public Sig) :
    Unlocked (l ++ [e]) p x := by
  obtain ⟨front, i, password, back, rfl, hcreated⟩ := h
  exact ⟨front, i, password, back ++ [e], by rw [List.append_assoc, List.cons_append], hcreated⟩

/-- What is sourced stays so while the trace goes on. -/
theorem Sourced.concat (h : Sourced l p v)
    (e : (π × Call Secret Password Name Key Message) × Answer Public Sig) :
    Sourced (l ++ [e]) p v where
  safes c hc := (h.safes c hc).imp fun _ hs => ⟨hs.1, hs.2.concat e⟩
  files file c hc := (h.files file c hc).imp fun _ hs => ⟨hs.1, hs.2.concat e⟩
  contexts c hc := (h.contexts c hc).imp fun _ hs => ⟨hs.1, hs.2.concat e⟩
  wallets a ha := (h.wallets a ha).concat e
  handles a ha := (h.handles a ha).concat e

theorem Sourced.share {q : π} (h : Sourced l p v) (h' : Sourced l q v') :
    Sourced l p (share v v') := { h with files := h'.files }

theorem sourced_empty (locate : Name → Option Name) (p : π) :
    Sourced ([] : List ((π × Call Secret Password Name Key Message) × Answer Public Sig)) p
      (.empty locate) where
  safes _ hc := absurd hc List.not_mem_nil
  files _ _ hc := nomatch hc
  contexts _ hc := absurd hc List.not_mem_nil
  wallets _ ha := absurd ha List.not_mem_nil
  handles _ ha := absurd ha List.not_mem_nil

/-- A property of a list extended by one element. -/
theorem forall_mem_concat {α : Type*} {p : α → Prop} {l : List α} {a : α} (h : ∀ b ∈ l, p b)
    (ha : p a) : ∀ b ∈ l ++ [a], p b := by
  intro b hb
  rcases List.mem_append.mp hb with hb | hb
  · exact h b hb
  · rwa [List.mem_singleton.mp hb]

/-- What holds of the contents of all files, and of what is written to one of them. -/
theorem forall_files_update [DecidableEq Name] {p : Option (Safe Secret Password) → Prop}
    {files : Name → Option (Option (Safe Secret Password))} {file : Name}
    {c : Option (Safe Secret Password)} (h : ∀ file c, files file = some c → p c) (hc : p c) :
    ∀ other d, Function.update files file (some c) other = some d → p d := by
  intro other d hd
  by_cases hother : other = file
  · subst hother
    rw [Function.update_self, Option.some.injEq] at hd
    exact hd ▸ hc
  · rw [Function.update_of_ne hother] at hd
    exact h other d hd

/-- The call makes something of unknown origin. -/
def Call.Foreign : Call Secret Password Name Key Message → Prop
  | .createLoose => True
  | .load => True
  | _ => False

/-- **One call** of an ideal vault keeps everything in it sourced. -/
theorem Sourced.step [DecidableEq Name] {K : Keyring Secret Key Public Message Sig}
    {L : Slack Password} {c : Call Secret Password Name Key Message} {o : Answer Public Sig}
    (hideal : ∀ i q, c = .unlock i q → ∀ p, L.Accepts p q → q = p) (hwhole : ¬ L.Breaks)
    (h : Sourced l p v) (hc : ¬ c.Foreign) (hstep : Step K L v c o v') :
    Sourced (l ++ [((p, c), o)]) p v' := by
  -- all that was sourced is so in the longer trace; new entries are looked at one by one
  have hl := h.concat ((p, c), o)
  cases hstep with
  | @created x password =>
    refine { hl with safes := forall_mem_concat hl.safes ⟨⟨x, password⟩, rfl, p, ?_⟩ }
    exact List.mem_append_right _ List.mem_cons_self
  | createdLoose => exact absurd trivial hc
  | saved hs =>
    exact { hl with files := forall_files_update hl.files (hl.safes _ (List.mem_of_getElem? hs)) }
  | brokenOff hs hname hb => exact absurd hb hwhole
  | opened hname hfile =>
    exact { hl with contexts := forall_mem_concat hl.contexts (hl.files _ _ hfile) }
  | loaded => exact absurd trivial hc
  | @unlocked i s hs =>
    -- the safe was created before this call, and this call is the unlocking
    obtain ⟨s', heq, hcreated⟩ := h.contexts _ (List.mem_of_getElem? hs)
    obtain rfl := Option.some.inj heq
    exact { hl with wallets := forall_mem_concat hl.wallets ⟨l, i, s.password, [], rfl, hcreated⟩ }
  | confused hs hne ha => exact absurd (hideal _ _ rfl _ ha) hne
  | unlockedForeign hs =>
    -- a context of unknown origin is what the invariant excludes
    obtain ⟨s, hsome, -⟩ := h.contexts _ (List.mem_of_getElem? hs)
    cases hsome
  | derived ha =>
    exact { hl with
      handles := forall_mem_concat hl.handles (hl.wallets _ (List.mem_of_getElem? ha)) }
  | @closed i a ha =>
    refine { hl with wallets := fun b hb => ?_ }
    -- closing changes no secret
    rcases List.mem_or_eq_of_mem_set hb with hb | rfl
    · exact hl.wallets b hb
    · exact hl.wallets a (List.mem_of_getElem? ha)
  | generated => exact hl
  | notGenerated => exact hl
  | notCreated => exact hl
  | notCreatedLoose => exact hl
  | notSaved => exact hl
  | notOpened => exact hl
  | notUnlocked => exact hl
  | notDerived => exact hl
  | signed => exact hl
  | notSigned => exact hl
  | signedWith => exact hl
  | notSignedWith => exact hl
  | notClosed => exact hl

end Sourced

section Runs

variable {π Secret Password Name Key Public Message Sig : Type*} [DecidableEq π]
  [DecidableEq Name] {K : Keyring Secret Key Public Message Sig}
  {L : Slack Password} {V V' : π → State Secret Password Name Key}
  {l : List ((π × Call Secret Password Name Key Message) × Answer Public Sig)} {p : π}

variable (K L) in
/-- The runs of vaults that share their files. -/
abbrev Runs : (π → State Secret Password Name Key) →
    List ((π × Call Secret Password Name Key Message) × Answer Public Sig) →
    (π → State Secret Password Name Key) → Prop :=
  Trace.Allowed (Processes.Step share (Step K L))

theorem grows (h : Runs K L V l V') (p : π) : Grows (V p) (V' p) := by
  refine Trace.Allowed.moves (R := fun V V' : π → State Secret Password Name Key =>
    ∀ p, Grows (V p) (V' p)) (fun V p => .refl (V p)) (fun h₁ h₂ p => (h₁ p).trans (h₂ p)) h ?_ p
  -- one vault takes the step, the others see its files and nothing else
  rintro ⟨⟨q, c⟩, o⟩ - V _ ⟨hstep⟩
  exact Processes.forall_update (I := fun r => Grows (V r)) hstep.grows fun r _ => grows_share _ _

theorem locate_eq (h : Runs K L V l V') (p : π) : (V' p).locate = (V p).locate := by
  refine Trace.Allowed.moves (R := fun V V' : π → State Secret Password Name Key =>
    ∀ p, (V' p).locate = (V p).locate) (fun _ _ => rfl)
    (fun h₁ h₂ p => (h₂ p).trans (h₁ p)) h ?_ p
  rintro ⟨⟨q, c⟩, o⟩ - V _ ⟨hstep⟩
  exact Processes.forall_update (I := fun r (u : State Secret Password Name Key) =>
    u.locate = (V r).locate) hstep.locate_eq fun _ _ => rfl

theorem locate_eq_of_step {c : π × Call Secret Password Name Key Message} {o : Answer Public Sig}
    (h : Processes.Step share (Step K L) V c o V') (p : π) : (V' p).locate = (V p).locate :=
  locate_eq (.cons h (.nil V')) p

/-- None of these calls saves to the file, whatever it is called where the call is made. -/
def Spares (V : π → State Secret Password Name Key)
    (l : List ((π × Call Secret Password Name Key Message) × Answer Public Sig)) (file : Name) :
    Prop :=
  ∀ e ∈ l, ∀ i name, e.1.2 = .save i name → (V e.1.1).locate name ≠ some file

/-- A file keeps what it holds until one of the vaults saves to it. -/
theorem files_eq {file : Name} {c : Option (Safe Secret Password)} (h : Runs K L V l V')
    (hl : Spares V l file) (hc : ∀ p, (V p).files file = some c) (p : π) :
    (V' p).files file = some c := by
  induction h with
  | nil V => exact hc p
  | @cons V V₁ V' k o l hstep _ ih =>
    refine ih (fun e he i name hsave => ?_) fun q => ?_
    · -- the names lead where they led before the first call
      rw [locate_eq_of_step hstep]
      exact hl e (List.mem_cons_of_mem _ he) i name hsave
    · obtain ⟨hcall⟩ := hstep
      rw [files_update]
      exact (hcall.files_eq (hl _ List.mem_cons_self)).trans (hc _)

/-- A save that returns puts the safe into the file, whoever looks. -/
theorem files_of_save {i : ℕ} {name file : Name} {c : Option (Safe Secret Password)}
    (hs : (V p).safes[i]? = some c) (hname : (V p).locate name = some file)
    (h : Processes.Step share (Step K L) V (p, .save i name) .done V') (q : π) :
    (V' q).files file = some c := by
  obtain ⟨hstep⟩ := h
  rw [files_update]
  cases hstep with
  | @saved _ _ file' c' hs' hname' =>
    -- a number has one safe, and a name leads to one file
    obtain rfl : c = c' := Option.some.inj (hs.symm.trans hs')
    obtain rfl : file = file' := Option.some.inj (hname.symm.trans hname')
    exact Function.update_self file _ _

/-- Opening that returns gives a context for what the file holds. -/
theorem contexts_of_open {name file : Name} {c : Option (Safe Secret Password)}
    (hname : (V p).locate name = some file) (hfile : (V p).files file = some c)
    (h : Processes.Step share (Step K L) V (p, .openFile name) .done V') :
    (V' p).contexts[(V p).contexts.length]? = some c := by
  obtain ⟨hstep⟩ := h
  rw [Processes.update_self]
  cases hstep with
  | @opened _ file' c' hname' hfile' =>
    obtain rfl : file = file' := Option.some.inj (hname.symm.trans hname')
    obtain rfl : c = c' := Option.some.inj (hfile.symm.trans hfile')
    exact List.getElem?_concat_length

/-- A new safe takes the next number. -/
theorem safes_of_create {x : Secret} {password : Password}
    (h : Processes.Step share (Step K L) V (p, .create (some x) password) .done V') :
    (V' p).safes[(V p).safes.length]? = some (some ⟨x, password⟩) := by
  obtain ⟨hstep⟩ := h
  rw [Processes.update_self]
  cases hstep with
  | created => exact List.getElem?_concat_length

/-- **Durability.** A safe is created and saved to a file, calls follow that do not save to this
file, one of the vaults opens it, other calls follow: there the password of the safe unlocks its
secret. The names used for saving and opening may differ. -/
theorem unlock_saved {V₀ V₁ V₂ V₃ V₄ V₅ V₆ : π → State Secret Password Name Key}
    {l₁ l₂ l₃ : List ((π × Call Secret Password Name Key Message) × Answer Public Sig)}
    {x : Secret} {password : Password} {name name' file : Name} {o : Answer Public Sig} {q : π}
    (hname : (V p).locate name = some file) (hname' : (V q).locate name' = some file)
    (hcreate : Processes.Step share (Step K L) V (p, .create (some x) password) .done V₀)
    (h₁ : Runs K L V₀ l₁ V₁)
    (hsave : Processes.Step share (Step K L) V₁ (p, .save (V p).safes.length name) .done V₂)
    (h₂ : Runs K L V₂ l₂ V₃) (hspares : Spares V l₂ file)
    (hopen : Processes.Step share (Step K L) V₃ (q, .openFile name') .done V₄)
    (h₃ : Runs K L V₄ l₃ V₅)
    (hunlock : Processes.Step share (Step K L) V₅
      (q, .unlock (V₃ q).contexts.length password) o V₆) :
    o = .done ∧ (V₆ q).wallets = (V₅ q).wallets ++ [⟨x, false⟩] := by
  have hlocate₁ : ∀ r, (V₁ r).locate = (V r).locate := fun r =>
    (locate_eq h₁ r).trans (locate_eq_of_step hcreate r)
  have hlocate₂ : ∀ r, (V₂ r).locate = (V r).locate := fun r =>
    (locate_eq_of_step hsave r).trans (hlocate₁ r)
  have hlocate₃ : ∀ r, (V₃ r).locate = (V r).locate := fun r =>
    (locate_eq h₂ r).trans (hlocate₂ r)
  -- the save puts the safe into the file, where it stays until the file is opened
  have hsafe := getElem?_of_isPrefix (grows h₁ p).safes (safes_of_create hcreate)
  have hsaved : ∀ r, (V₂ r).files file = some (some ⟨x, password⟩) :=
    files_of_save hsafe (by rw [hlocate₁, hname]) hsave
  have hfile : (V₃ q).files file = some (some ⟨x, password⟩) := by
    refine files_eq h₂ (fun e he i name hsave => ?_) hsaved q
    rw [hlocate₂]
    exact hspares e he i name hsave
  have hcontext := contexts_of_open (by rw [hlocate₃, hname']) hfile hopen
  obtain ⟨hunlock⟩ := hunlock
  obtain ⟨hdone, rfl⟩ :=
    hunlock.of_unlock (getElem?_of_isPrefix (grows h₃ q).contexts hcontext)
  refine ⟨hdone, ?_⟩
  rw [Processes.update_self]

/-- **No secret without its password.** Of vaults that make nothing of unknown origin, and take none
of the passwords that are tried for another one, every wallet and every handle comes from a safe
that was unlocked with its password. -/
theorem sourced {locate : π → Name → Option Name} (h : Runs K L (fun q => .empty (locate q)) l V)
    (hideal : ∀ e ∈ l, ∀ i q, e.1.2 = .unlock i q → ∀ p, L.Accepts p q → q = p)
    (hwhole : ¬ L.Breaks) (hforeign : ∀ e ∈ l, ¬ e.1.2.Foreign) (p : π) : Sourced l p (V p) := by
  -- what is asked of the calls goes into the invariant, which is about a part of the trace
  refine h.induction (I := fun l V =>
    (∀ e ∈ l, ¬ e.1.2.Foreign ∧ ∀ i q, e.1.2 = .unlock i q → ∀ p, L.Accepts p q → q = p) →
      ∀ p, Sourced l p (V p))
    (fun _ q => sourced_empty (locate q) q) ?_ (fun e he => ⟨hforeign e he, hideal e he⟩) p
  rintro l V ⟨q, c⟩ o _ - ih ⟨hstep⟩ hl p
  have hV := ih fun e he => hl e (List.mem_append_left _ he)
  obtain ⟨hc, hpasswords⟩ := hl _ (List.mem_append_right _ List.mem_cons_self)
  -- the files of the caller are sourced, so are then those of the others
  have hself := (hV q).step hpasswords hwhole hc hstep
  exact Processes.forall_update (I := Sourced (l ++ [((q, c), o)])) hself
    (fun r _ => ((hV r).concat _).share hself) p

end Runs

end Vault
