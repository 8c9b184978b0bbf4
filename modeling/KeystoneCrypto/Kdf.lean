import KeystoneCrypto.World

/-!
# Argon2id parameters and key derivation (`kdf.py`)

`Argon2Params.new` is the validating constructor, `Argon2Params.forTesting` the bypass.
`public_iff` says what the constructor admits; the bound on `time_cost` it enforces is `1`,
one below `owaspMinTimeCost`.
-/

namespace KeystoneCrypto

def owaspMinMemoryKib : ℤ := 19456

def owaspMinTimeCost : ℤ := 2

def owaspMinParallelism : ℤ := 1

structure Argon2Params where
  timeCost : ℤ
  memoryCost : ℤ
  parallelism : ℤ
  hashLen : ℤ
  saltLen : ℤ
  version : ℤ
  deriving DecidableEq, Repr

namespace Argon2Params

/-- The errors of a field `name: int = Field(ge=lo, le=hi)`. -/
def fieldErrors (name : String) (lo hi v : ℤ) : List (List TextPiece) :=
  if v < lo then
    [[.lit name, .lit "Input should be greater than or equal to ", .int lo]]
  else if hi < v then
    [[.lit name, .lit "Input should be less than or equal to ", .int hi]]
  else []

-- `ge=1`, although `OWASP_MIN_TIME_COST` is 2
def timeCostErrors (v : ℤ) := fieldErrors "time_cost" 1 10 v

/-- The field check comes first; `_memory_aligned` runs on a value that passed it. -/
def memoryCostErrors (v : ℤ) : List (List TextPiece) :=
  match fieldErrors "memory_cost" owaspMinMemoryKib (2 ^ 21) v with
  | [] => if v % 8 ≠ 0 then
      [[.lit "memory_cost", .lit "Value error, memory_cost must be a multiple of 8 KiB"]]
    else []
  | errors => errors

def parallelismErrors (v : ℤ) := fieldErrors "parallelism" owaspMinParallelism 16 v

def hashLenErrors (v : ℤ) := fieldErrors "hash_len" 16 64 v

def saltLenErrors (v : ℤ) := fieldErrors "salt_len" 8 64 v

def versionErrors (v : ℤ) := fieldErrors "version" 0x13 0x13 v

/-- All field errors of a candidate, in field order. -/
def errors (p : Argon2Params) : List (List TextPiece) :=
  timeCostErrors p.timeCost ++ memoryCostErrors p.memoryCost ++ parallelismErrors p.parallelism
    ++ hashLenErrors p.hashLen ++ saltLenErrors p.saltLen ++ versionErrors p.version

/-- `Argon2Params(...)`. -/
def new (timeCost memoryCost parallelism hashLen saltLen version : ℤ) :
    Except PyExc Argon2Params :=
  let p : Argon2Params := ⟨timeCost, memoryCost, parallelism, hashLen, saltLen, version⟩
  match p.errors with
  | [] => .ok p
  -- pydantic collects the errors of all fields into one exception
  | errors => raise .validationError errors.flatten

/-- `Argon2Params.for_testing(...)`: no validation. -/
def forTesting (timeCost memoryCost parallelism hashLen saltLen version : ℤ) : Argon2Params :=
  ⟨timeCost, memoryCost, parallelism, hashLen, saltLen, version⟩

/-- The values the validating constructor returns. -/
def Public (p : Argon2Params) : Prop :=
  new p.timeCost p.memoryCost p.parallelism p.hashLen p.saltLen p.version = .ok p

theorem fieldErrors_eq_nil_iff {name : String} {lo hi v : ℤ} :
    fieldErrors name lo hi v = [] ↔ lo ≤ v ∧ v ≤ hi := by
  unfold fieldErrors
  split
  · refine ⟨?_, ?_⟩
    · intro h
      cases h
    · intro h
      omega
  · split
    · refine ⟨?_, ?_⟩
      · intro h
        cases h
      · intro h
        omega
    · refine ⟨?_, fun _ => rfl⟩
      intro _
      omega

theorem memoryCostErrors_eq_nil_iff {v : ℤ} :
    memoryCostErrors v = [] ↔ owaspMinMemoryKib ≤ v ∧ v ≤ 2 ^ 21 ∧ v % 8 = 0 := by
  unfold memoryCostErrors
  cases h : fieldErrors "memory_cost" owaspMinMemoryKib (2 ^ 21) v with
  | nil =>
    have hb := fieldErrors_eq_nil_iff.mp h
    by_cases h8 : v % 8 = 0
    · simp only [ne_eq, h8, not_true_eq_false, if_false, true_iff]
      exact ⟨hb.1, hb.2, trivial⟩
    · simp [h8]
  | cons e es =>
    -- the field check failed already, whatever the alignment is
    have hb : ¬ (owaspMinMemoryKib ≤ v ∧ v ≤ 2 ^ 21) := by
      intro hb
      rw [fieldErrors_eq_nil_iff.mpr hb] at h
      cases h
    refine ⟨?_, ?_⟩
    · intro h'
      cases h'
    · intro h'
      exact absurd ⟨h'.1, h'.2.1⟩ hb

/-- What the validating constructor admits. -/
structure InRange (p : Argon2Params) : Prop where
  timeCost_ge : 1 ≤ p.timeCost
  timeCost_le : p.timeCost ≤ 10
  memoryCost_ge : owaspMinMemoryKib ≤ p.memoryCost
  memoryCost_le : p.memoryCost ≤ 2 ^ 21
  memoryCost_mod : p.memoryCost % 8 = 0
  parallelism_ge : owaspMinParallelism ≤ p.parallelism
  parallelism_le : p.parallelism ≤ 16
  hashLen_ge : 16 ≤ p.hashLen
  hashLen_le : p.hashLen ≤ 64
  saltLen_ge : 8 ≤ p.saltLen
  saltLen_le : p.saltLen ≤ 64
  version_eq : p.version = 0x13

theorem errors_eq_nil_iff {p : Argon2Params} : p.errors = [] ↔ p.InRange := by
  unfold errors timeCostErrors parallelismErrors hashLenErrors saltLenErrors versionErrors
  simp only [List.append_eq_nil_iff, fieldErrors_eq_nil_iff, memoryCostErrors_eq_nil_iff]
  refine ⟨?_, ?_⟩
  · rintro ⟨⟨⟨⟨⟨ht, hm⟩, hp⟩, hh⟩, hs⟩, hv⟩
    exact ⟨ht.1, ht.2, hm.1, hm.2.1, hm.2.2, hp.1, hp.2, hh.1, hh.2, hs.1, hs.2, by omega⟩
  · intro h
    have hv := h.version_eq
    exact ⟨⟨⟨⟨⟨⟨h.timeCost_ge, h.timeCost_le⟩,
      h.memoryCost_ge, h.memoryCost_le, h.memoryCost_mod⟩, h.parallelism_ge, h.parallelism_le⟩,
      h.hashLen_ge, h.hashLen_le⟩, h.saltLen_ge, h.saltLen_le⟩, by omega, by omega⟩

/-- The constructor returns exactly the values in range, unchanged. -/
theorem public_iff {p : Argon2Params} : p.Public ↔ p.InRange := by
  rw [← errors_eq_nil_iff]
  unfold Public new
  cases h : p.errors with
  | nil => simp [h]
  | cons e es => simp [h, raise]

end Argon2Params

/-- `INTERACTIVE_PROFILE`, the default of `Keystore.create`. -/
def interactiveProfile : Argon2Params := ⟨3, 262144, 4, 32, 16, 0x13⟩

/-- `HIGH_SECURITY_PROFILE`. -/
def highSecurityProfile : Argon2Params := ⟨4, 524288, 4, 32, 16, 0x13⟩

/-- Both shipped profiles pass the validation they are built through. -/
theorem profiles_public : interactiveProfile.Public ∧ highSecurityProfile.Public :=
  ⟨rfl, rfl⟩

/-- The Argon2id call `derive_key` makes. -/
def argon2Call (password : SecretBytes) (params : Argon2Params) (salt : Bytes) : Argon2Call where
  secret := password.buf
  salt := salt
  timeCost := params.timeCost
  memoryCost := params.memoryCost
  parallelism := params.parallelism
  hashLen := params.hashLen
  version := params.version

/-- `derive_key(password, params, salt)`. -/
def deriveKey (P : Primitives) (password : SecretBytes) (params : Argon2Params)
    (salt : Option Bytes) : Py (SecretBytes × Bytes) := do
  let salt ← match salt with
    | none => tokenBytes params.saltLen
    | some salt => do
      -- a given salt has to have the declared length
      raiseIf ((salt.length : ℤ) ≠ params.saltLen) .valueError
        [.lit "salt length ", .int salt.length, .lit " != params.salt_len ", .int params.saltLen]
      pure salt
  let raw ← hashSecretRaw P (argon2Call password params salt)
  let key ← SecretBytes.new raw
  return (key, salt)

/-- Public parameters lie in the ranges Argon2id supports. -/
theorem argon2Call_supported {params : Argon2Params} (h : params.Public) (password : SecretBytes)
    {salt : Bytes} (hsalt : (salt.length : ℤ) = params.saltLen) :
    (argon2Call password params salt).Supported := by
  -- every declared range lies inside the supported one; memory covers sixteen lanes with room
  obtain ⟨h1, h2, h3, h4, -, h6, h7, h8, h9, h10, h11, -⟩ := Argon2Params.public_iff.mp h
  unfold owaspMinMemoryKib at h3
  unfold owaspMinParallelism at h6
  constructor <;> simp only [argon2Call] <;> omega

/-- The key an Argon2id call yields, as `derive_key` wraps it. -/
def derivedKey (P : Primitives) (call : Argon2Call) : Except PyExc SecretBytes :=
  match P.hashSecretRaw call with
  | .ok raw => SecretBytes.new raw
  | .error text => raise .hashingError [.foreign text]

/-- A state with one more Argon2id call on record. -/
def World.recordKdf (w : World) (call : Argon2Call) : World :=
  { w with kdfCalls := w.kdfCalls ++ [call] }

/-- `derive_key` with a given salt of the right length makes one Argon2id call and returns or
raises what comes of it. -/
theorem run_deriveKey (P : Primitives) (w : World) (password : SecretBytes)
    {params : Argon2Params} {salt : Bytes} (hsalt : (salt.length : ℤ) = params.saltLen) :
    (deriveKey P password params (some salt)).run w
      = match derivedKey P (argon2Call password params salt) with
        | .ok key => .ok (key, salt) (w.recordKdf (argon2Call password params salt))
        | .error e => .error e (w.recordKdf (argon2Call password params salt)) := by
  unfold deriveKey derivedKey World.recordKdf
  simp only [raiseIf_neg (not_not.mpr hsalt), EStateM.run_bind, Effect.run_liftM,
    EStateM.run_pure, run_hashSecretRaw]
  -- the call is on record whether it returned or raised
  cases P.hashSecretRaw (argon2Call password params salt) with
  | error text => rfl
  | ok raw =>
    cases h : SecretBytes.new raw with
    | error e => simp only [h]
    | ok key => simp only [h]

/-- What a key derivation that returned must have found. -/
theorem run_deriveKey_eq_ok_iff {P : Primitives} {w w' : World} {password : SecretBytes}
    {params : Argon2Params} {salt : Bytes} {r : SecretBytes × Bytes} :
    (deriveKey P password params (some salt)).run w = .ok r w' ↔
      (salt.length : ℤ) = params.saltLen ∧
        derivedKey P (argon2Call password params salt) = .ok r.1 ∧ r.2 = salt ∧
        w' = w.recordKdf (argon2Call password params salt) := by
  by_cases hsalt : (salt.length : ℤ) = params.saltLen
  · rw [run_deriveKey P w password hsalt]
    obtain ⟨key, salt'⟩ := r
    cases derivedKey P (argon2Call password params salt) with
    | error e => simp
    | ok key' => simp [hsalt, @eq_comm _ salt salt', @eq_comm _ w', and_assoc]
  · unfold deriveKey
    simp only [ne_eq, raiseIf_pos hsalt]
    refine ⟨?_, ?_⟩
    · intro h
      cases h
    · intro h
      exact absurd h.1 hsalt

/-- A derived key holds the bytes Argon2id returned. -/
theorem derivedKey_eq_ok_iff {P : Primitives} {call : Argon2Call} {key : SecretBytes} :
    derivedKey P call = .ok key ↔ P.hashSecretRaw call = .ok key.buf := by
  unfold derivedKey
  cases P.hashSecretRaw call with
  | error text => simp [raise]
  | ok raw =>
    rw [Except.ok.injEq, @eq_comm _ raw]
    exact SecretBytes.new_eq_ok_iff

/-- A supported call that asks for output yields a key. -/
theorem exists_derivedKey {P : Primitives} {call : Argon2Call} (h : call.Supported) :
    ∃ key, derivedKey P call = .ok key := by
  obtain ⟨raw, hraw⟩ := P.hashSecretRaw_supported call h
  have hlen := P.hashSecretRaw_length call raw hraw
  have hne : raw ≠ [] := by
    -- an empty output would contradict the length that was asked for
    rintro rfl
    have := h.hashLen_ge
    rw [← hlen] at this
    simp at this
  exact ⟨⟨raw, hne⟩, derivedKey_eq_ok_iff.mpr hraw⟩

end KeystoneCrypto
