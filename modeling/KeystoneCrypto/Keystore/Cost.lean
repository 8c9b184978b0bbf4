import KeystoneCrypto.Keystore.Run

/-!
# What a run costs

Argon2id is the expensive part of the library, and the weak part if its parameters are low. Every
call of the library reaches it at most once, and whether it does, and with which parameters, can be
read off the arguments (`ApiCall.request`): packing and creating pass on the parameters they are
given, unpacking and unlocking those of the header of the blob.

So the log of Argon2id calls over a run is the list of these requests (`costs_runAll`). The
requests of the first kind went through the validating constructor, which leaves one gap below the
OWASP minimum: `time_cost` 1. The requests of the second kind went through no check at all: the
header is read before anything is authenticated, and any readable blob has its parameters run.
-/

namespace KeystoneCrypto

/-- What an Argon2id call is made to spend. -/
structure Cost where
  timeCost : ℤ
  memoryCost : ℤ
  parallelism : ℤ
  deriving DecidableEq

def Argon2Params.cost (p : Argon2Params) : Cost := ⟨p.timeCost, p.memoryCost, p.parallelism⟩

def Argon2Call.cost (c : Argon2Call) : Cost := ⟨c.timeCost, c.memoryCost, c.parallelism⟩

/-- Between the OWASP minimums and the upper limits that `Argon2Params` declares. -/
structure Cost.InLimits (c : Cost) : Prop where
  timeCost_ge : owaspMinTimeCost ≤ c.timeCost
  timeCost_le : c.timeCost ≤ 10
  memoryCost_ge : owaspMinMemoryKib ≤ c.memoryCost
  memoryCost_le : c.memoryCost ≤ 2 ^ 21
  parallelism_ge : owaspMinParallelism ≤ c.parallelism
  parallelism_le : c.parallelism ≤ 16

/-- Public parameters are within the limits as soon as they make two passes. -/
theorem Argon2Params.cost_inLimits_iff {p : Argon2Params} (h : p.Public) :
    p.cost.InLimits ↔ owaspMinTimeCost ≤ p.timeCost := by
  have hr := public_iff.mp h
  refine ⟨?_, ?_⟩
  · intro hl
    exact hl.timeCost_ge
  · intro ht
    exact ⟨ht, hr.timeCost_le, hr.memoryCost_ge, hr.memoryCost_le, hr.parallelism_ge,
      hr.parallelism_le⟩

/-- What the Argon2id calls made so far were to spend. -/
def World.costs (w : World) : List Cost := w.kdfCalls.map Argon2Call.cost

/-! ### Calls that do not reach Argon2id -/

section Quiet

variable (P : Primitives)

/-- A computation that makes no Argon2id call. -/
abbrev Quiet {α : Type} (x : Py α) : Prop := Effect.Keeps World.costs x

theorem costs_randomFree : RandomFree World.costs := fun _ _ => rfl

theorem quiet_generate (strength : ℤ) : Quiet (Mnemonic.generate P strength) :=
  .bind (.lift _) fun _ => .bind
    (.bind (.lift _) fun _ => .bind (.lift _) fun _ =>
      .bind (keeps_tokenBytes costs_randomFree _) fun _ => .lift _)
    fun _ => .lift _

theorem quiet_deriveAccount (wallet : Wallet) (path : DerivationPath) (scheme : PyStr) :
    Quiet (wallet.deriveAccount P path scheme) := by
  intro w
  rw [Wallet.after_deriveAccount]

end Quiet

/-! ### Requests -/

/-- The parameters with which `derive_key` reaches Argon2id, if it does. -/
def keyRequest (params : Argon2Params) : Option Bytes → Option Argon2Params
  | none => if 0 ≤ params.saltLen then some params else none
  | some salt => if (salt.length : ℤ) = params.saltLen then some params else none

/-- The parameters with which `pack` reaches Argon2id. -/
def packRequest (seed : SecretBytes) (params : Argon2Params) (kdfId : ℤ) : Option Argon2Params :=
  if kdfId = 1 ∧ seed.buf.length ≤ 255 ∧ params.hashLen = 32 ∧ 0 ≤ params.saltLen
  then some params else none

/-- The parameters with which `create` reaches Argon2id. -/
def createRequest (m : Mnemonic) (password : PyStr) (params : Argon2Params) :
    Option Argon2Params :=
  if password = [] then none
  else match password.encodeUtf8, m.entropy with
    | .ok _, .ok e => packRequest e params 1
    | _, _ => none

instance (blob : Bytes) : Decidable (Envelope.Readable blob) :=
  decidable_of_iff (82 ≤ blob.length ∧ sliceFromTo blob 0 4 = magic ∧ blob.getD 4 0 = 1)
    ⟨fun h => ⟨h.1, h.2.1, h.2.2⟩, fun h => ⟨h.length_ge, h.magic_eq, h.version_eq⟩⟩

/-- The parameters with which `unpack` reaches Argon2id: those of the header. -/
def unpackRequest (blob : Bytes) : Option Argon2Params :=
  if Envelope.Readable blob then some (Envelope.header blob).params else none

/-- The parameters with which `unlock` reaches Argon2id. -/
def unlockRequest (blob : Bytes) (password : PyStr) : Option Argon2Params :=
  match password.encodeUtf8 with
  | .ok (_ :: _) => unpackRequest blob
  | _ => none

/-- The entry a request leaves in the log. -/
def entry (request : Option Argon2Params) : List Cost := (request.map Argon2Params.cost).toList

section Costs

variable (P : Primitives)

/-- Whatever comes of an Argon2id call, it is on record. -/
theorem costs_hashSecretRaw {α : Type} (call : Argon2Call) {f : Bytes → Py α}
    (hf : ∀ raw, Quiet (f raw)) (w : World) :
    (Effect.after (hashSecretRaw P call >>= f) w).costs = w.costs ++ [call.cost] := by
  rw [Effect.part_after_bind World.costs hf]
  -- the call enters the log before its outcome is known
  have hrun := run_hashSecretRaw P w call
  cases hraw : P.hashSecretRaw call with
  | ok raw =>
    rw [hraw] at hrun
    rw [Effect.after_of_ok hrun]
    exact List.map_append
  | error text =>
    rw [hraw] at hrun
    rw [Effect.after_of_error hrun]
    exact List.map_append

/-- A check that raises makes no request, and one that passes leaves the request to the rest. -/
theorem costs_guard {α : Type} {c : Prop} [Decidable c] {t : ExcType} {text : List TextPiece}
    {f : Unit → Py α} {request : Option Argon2Params} {w : World} (hpos : c → request = none)
    (hneg : ¬ c → (Effect.after (f ()) w).costs = w.costs ++ entry request) :
    (Effect.after ((liftM (raiseIf c t text) : Py Unit) >>= f) w).costs
      = w.costs ++ entry request := by
  by_cases h : c
  · rw [raiseIf_pos h, hpos h]
    exact (List.append_nil _).symm
  · rw [raiseIf_neg h]
    exact hneg h

theorem costs_deriveKey (password : SecretBytes) (params : Argon2Params) (salt : Option Bytes)
    (w : World) : (Effect.after (deriveKey P password params salt) w).costs
      = w.costs ++ entry (keyRequest params salt) := by
  unfold deriveKey keyRequest
  cases salt with
  | none =>
    simp only
    by_cases h : 0 ≤ params.saltLen
    · -- the salt is drawn, then the call is made
      rw [if_pos h, Effect.after_bind_of_ok (run_tokenBytes w h)]
      exact costs_hashSecretRaw P _ (fun _ => .bind (.lift _) fun _ => .pure _) _
    · rw [if_neg h]
      unfold tokenBytes
      rw [raiseIf_pos (by omega)]
      exact (List.append_nil _).symm
  | some salt =>
    simp only
    refine costs_guard (fun h => if_neg h) fun h => ?_
    rw [if_pos (not_not.mp h)]
    exact costs_hashSecretRaw P _ (fun _ => .bind (.lift _) fun _ => .pure _) _

theorem costs_pack (seed password : SecretBytes) (params : Argon2Params) (kdfId : ℤ)
    (hasPassphrase : Bool) (createdAt : Option ℤ) (w : World) :
    (Effect.after (Envelope.pack P seed password params kdfId hasPassphrase createdAt) w).costs
      = w.costs ++ entry (packRequest seed params kdfId) := by
  -- the three checks of `pack` come first, in the order of the conditions of the request
  unfold Envelope.pack packRequest
  refine costs_guard (fun h => if_neg fun h' => h h'.1) fun hid => ?_
  refine costs_guard (fun h => if_neg fun h' => Nat.not_lt.mpr h'.2.1 h) fun hseed => ?_
  refine costs_guard (fun h => if_neg fun h' => h h'.2.2.1) fun hlen => ?_
  by_cases hsalt : 0 ≤ params.saltLen
  · rw [if_pos ⟨not_not.mp hid, Nat.not_lt.mp hseed, not_not.mp hlen, hsalt⟩]
    -- the salt drawn has the length `derive_key` checks
    have hdrawn : ((w.random.take params.saltLen.toNat).length : ℤ) = params.saltLen := by
      rw [Stream'.length_take]
      omega
    refine (congrArg World.costs (Effect.after_bind_of_ok (run_tokenBytes w hsalt))).trans ?_
    rw [Effect.part_after_bind World.costs, costs_deriveKey, keyRequest, if_pos hdrawn]
    · rfl
    · -- after the key derivation nothing calls Argon2id again
      rintro ⟨key, salt⟩
      exact .bind (keeps_timestamp (fun _ _ => rfl) _) fun _ => .bind (.lift _) fun _ =>
        .bind (.lift _) fun _ => .bind (keeps_encrypt P costs_randomFree _ _ _) fun _ =>
          .bind (.lift _) fun _ => .bind (.lift _) fun _ => .pure _
  · -- `token_bytes` refuses a negative length
    rw [if_neg fun h => hsalt h.2.2.2]
    unfold tokenBytes
    rw [raiseIf_pos (Int.not_le.mp hsalt)]
    exact (List.append_nil _).symm

theorem costs_unpack (blob : Bytes) (password : SecretBytes) (w : World) :
    (Effect.after (Envelope.unpack P blob password) w).costs
      = w.costs ++ entry (unpackRequest blob) := by
  unfold unpackRequest
  by_cases h : Envelope.Readable blob
  · -- the call is on record whether or not the blob opens
    have hrun : (Envelope.unpack P blob password).run w = _ := Envelope.run_unpack h w
    rw [if_pos h]
    cases hu : derivedKey P (Envelope.headerCall blob password)
        >>= Envelope.openHeader P (Envelope.header blob) with
    | ok u =>
      rw [hu] at hrun
      rw [Effect.after_of_ok hrun]
      exact List.map_append
    | error e =>
      rw [hu] at hrun
      rw [Effect.after_of_error hrun]
      exact List.map_append
  · obtain ⟨e, -, hrun⟩ := Envelope.run_unpack_of_not_readable P password h w
    rw [if_neg h, Effect.after_of_error hrun]
    exact (List.append_nil _).symm

theorem costs_create (m : Mnemonic) (password : PyStr) (params : Argon2Params)
    (hasPassphrase : Bool) (w : World) :
    (Effect.after (Keystore.create P m password params hasPassphrase) w).costs
      = w.costs ++ entry (createRequest m password params) := by
  unfold Keystore.create createRequest
  refine costs_guard (fun hne => if_pos hne) fun hne => ?_
  rw [if_neg hne]
  cases hb : password.encodeUtf8 with
  | error x => exact (List.append_nil _).symm
  | ok b =>
    simp only [Effect.after_liftM_ok_bind,
      SecretBytes.new_of_ne_nil (PyStr.encodeUtf8_ne_nil hne hb)]
    rw [Effect.after_bind_of_ok (run_newSecret w _)]
    cases he : m.entropy with
    | error x => exact (List.append_nil _).symm
    | ok e =>
      -- the wrapper is allocated, and packing takes over
      simp only [Effect.after_liftM_ok_bind]
      rw [Effect.after_bind_of_ok (run_readSecret _ _), Effect.part_after_bind World.costs,
        costs_pack]
      · rfl
      · exact fun _ => .bind (fun _ => rfl) fun _ => .pure _

theorem costs_unlock (blob : Bytes) (password : PyStr) (w : World) :
    (Effect.after (KeystoreContext.unlock P ⟨blob⟩ password) w).costs
      = w.costs ++ entry (unlockRequest blob password) := by
  unfold KeystoreContext.unlock unlockRequest
  cases password.encodeUtf8 with
  | error x => exact (List.append_nil _).symm
  | ok b =>
    cases b with
    | nil =>
      -- `SecretBytes(b"")` raises before the blob is looked at
      exact (List.append_nil _).symm
    | cons b bs =>
      simp only [Effect.after_liftM_ok_bind, SecretBytes.new_of_ne_nil (List.cons_ne_nil b bs)]
      rw [Effect.after_bind_of_ok (run_newSecret w _),
        Effect.after_bind_of_ok (run_readSecret _ _), Effect.part_after_bind World.costs,
        costs_unpack]
      · rfl
      · exact fun _ => .bind (fun _ => rfl) fun _ => .bind (fun _ => rfl) fun _ =>
          .bind (fun _ => rfl) fun _ => .pure _

end Costs

/-! ### Runs -/

/-- A call of the library, with its arguments. -/
inductive ApiCall
  | create (m : Mnemonic) (password : PyStr) (params : Argon2Params) (hasPassphrase : Bool)
  | pack (seed password : SecretBytes) (params : Argon2Params) (kdfId : ℤ) (hasPassphrase : Bool)
      (createdAt : Option ℤ)
  | unlock (blob : Bytes) (password : PyStr)
  | unpack (blob : Bytes) (password : SecretBytes)
  | deriveKey (password : SecretBytes) (params : Argon2Params) (salt : Option Bytes)
  | generate (strength : ℤ)
  | save (ks : Keystore) (path : PyStr)
  | openFile (path : PyStr)
  | deriveAccount (wallet : Wallet) (path : DerivationPath) (scheme : PyStr)
  | signMessage (wallet : Wallet) (path : DerivationPath) (message : Bytes) (scheme : PyStr)
  | close (wallet : Wallet)

namespace ApiCall

/-- Running a call, for its effects. -/
def exec (P : Primitives) : ApiCall → Py Unit
  | create m password params hasPassphrase => do
    let _ ← Keystore.create P m password params hasPassphrase
  | pack seed password params kdfId hasPassphrase createdAt => do
    let _ ← Envelope.pack P seed password params kdfId hasPassphrase createdAt
  | unlock blob password => do let _ ← KeystoreContext.unlock P ⟨blob⟩ password
  | unpack blob password => do let _ ← Envelope.unpack P blob password
  | deriveKey password params salt => do let _ ← KeystoneCrypto.deriveKey P password params salt
  | generate strength => do let _ ← Mnemonic.generate P strength
  | save ks path => ks.save path
  | openFile path => do let _ ← Keystore.openFile path
  | deriveAccount wallet path scheme => do let _ ← wallet.deriveAccount P path scheme
  | signMessage wallet path message scheme => do
    let _ ← wallet.signMessage P path message scheme
  | close wallet => wallet.close

/-- The parameters with which a call reaches Argon2id, if it does. -/
def request : ApiCall → Option Argon2Params
  | create m password params _ => createRequest m password params
  | pack seed _ params kdfId _ _ => packRequest seed params kdfId
  | unlock blob password => unlockRequest blob password
  | unpack blob _ => unpackRequest blob
  | deriveKey _ params salt => keyRequest params salt
  | _ => none

/-- The parameters a call is given come from the validating constructor. -/
def Validated : ApiCall → Prop
  | create _ _ params _ => params.Public
  | pack _ _ params _ _ _ => params.Public
  | deriveKey _ params _ => params.Public
  | _ => True

/-- **One call** leaves the entry of its request in the log. -/
theorem costs_exec (P : Primitives) (c : ApiCall) (w : World) :
    (Effect.after (c.exec P) w).costs = w.costs ++ entry c.request := by
  -- what a call returns is dropped, which the log does not see
  have hdrop : ∀ {α : Type} (x : Py α),
      (Effect.after (do let _ ← x) w).costs = (Effect.after x w).costs :=
    fun x => Effect.part_after_bind World.costs (fun _ => .pure _) w
  have hquiet : ∀ {α : Type} {x : Py α}, Quiet x →
      (Effect.after x w).costs = w.costs ++ entry none :=
    fun hx => (hx w).trans (List.append_nil _).symm
  cases c with
  | create m password params hasPassphrase =>
    exact (hdrop _).trans (costs_create P m password params hasPassphrase w)
  | pack seed password params kdfId hasPassphrase createdAt =>
    exact (hdrop _).trans (costs_pack P seed password params kdfId hasPassphrase createdAt w)
  | unlock blob password => exact (hdrop _).trans (costs_unlock P blob password w)
  | unpack blob password => exact (hdrop _).trans (costs_unpack P blob password w)
  | deriveKey password params salt =>
    exact (hdrop _).trans (costs_deriveKey P password params salt w)
  | generate strength => exact (hdrop _).trans (hquiet (quiet_generate P strength))
  | save ks path => exact hquiet (keeps_save (fun _ _ => rfl) ks path)
  | openFile path => exact (hdrop _).trans (hquiet (keeps_openFile (fun _ _ => rfl) path))
  | deriveAccount wallet path scheme =>
    exact (hdrop _).trans (hquiet (quiet_deriveAccount P wallet path scheme))
  | signMessage wallet path message scheme =>
    exact (hdrop _).trans (hquiet (wallet.keeps_signMessage costs_randomFree message))
  | close wallet => exact hquiet fun _ => rfl

/-- **A run** leaves the entries of its requests, in order. -/
theorem costs_runAll (P : Primitives) (calls : List ApiCall) (w : World) :
    (Effect.runAll (calls.map (exec P)) w).costs
      = w.costs ++ calls.flatMap fun c => entry c.request :=
  Effect.log_runAll World.costs (costs_exec P) calls w

/-! ### Which runs stay within the limits -/

/-- The condition on a call: parameters that reach Argon2id make two passes at least, and a header
that reaches it is within the limits. -/
def Moderate : ApiCall → Prop
  | create m password params _ =>
    createRequest m password params ≠ none → owaspMinTimeCost ≤ params.timeCost
  | pack seed _ params kdfId _ _ =>
    packRequest seed params kdfId ≠ none → owaspMinTimeCost ≤ params.timeCost
  | deriveKey _ params salt => keyRequest params salt ≠ none → owaspMinTimeCost ≤ params.timeCost
  | unlock blob password =>
    unlockRequest blob password ≠ none → (Envelope.header blob).params.cost.InLimits
  | unpack blob _ => Envelope.Readable blob → (Envelope.header blob).params.cost.InLimits
  | _ => True

end ApiCall

/-! A request asks for the parameters of the argument, or of the header, and for no others. -/

section Requests

variable {params p : Argon2Params}

theorem eq_of_keyRequest {salt : Option Bytes} (h : keyRequest params salt = some p) :
    p = params := by
  unfold keyRequest at h
  split at h
  · exact (Option.some.inj (Option.ite_none_right_eq_some.mp h).2).symm
  · exact (Option.some.inj (Option.ite_none_right_eq_some.mp h).2).symm

theorem eq_of_packRequest {seed : SecretBytes} {kdfId : ℤ}
    (h : packRequest seed params kdfId = some p) : p = params := by
  unfold packRequest at h
  exact (Option.some.inj (Option.ite_none_right_eq_some.mp h).2).symm

theorem eq_of_createRequest {m : Mnemonic} {password : PyStr}
    (h : createRequest m password params = some p) : p = params := by
  unfold createRequest at h
  split at h
  · cases h
  · split at h
    · exact eq_of_packRequest h
    · cases h

theorem eq_of_unpackRequest {blob : Bytes} (h : unpackRequest blob = some p) :
    Envelope.Readable blob ∧ p = (Envelope.header blob).params := by
  unfold unpackRequest at h
  obtain ⟨hread, hp⟩ := Option.ite_none_right_eq_some.mp h
  exact ⟨hread, (Option.some.inj hp).symm⟩

theorem eq_of_unlockRequest {blob : Bytes} {password : PyStr}
    (h : unlockRequest blob password = some p) : p = (Envelope.header blob).params := by
  unfold unlockRequest at h
  split at h
  · exact (eq_of_unpackRequest h).2
  · cases h

/-- A condition on what a request asks for is a condition on its source. -/
theorem forall_request_iff {request : Option Argon2Params} (hsource : ∀ p, request = some p →
    p = params) (C : Argon2Params → Prop) :
    (∀ p, request = some p → C p) ↔ (request ≠ none → C params) := by
  refine ⟨?_, ?_⟩
  · intro h hne
    obtain ⟨p, hp⟩ := Option.ne_none_iff_exists'.mp hne
    exact hsource p hp ▸ h p hp
  · intro h p hp
    exact (hsource p hp).symm ▸ h (by simp [hp])

end Requests

namespace ApiCall

/-- For validated arguments the condition says that the request is within the limits. -/
theorem forall_request_inLimits_iff {c : ApiCall} (hv : c.Validated) :
    (∀ p, c.request = some p → p.cost.InLimits) ↔ c.Moderate := by
  cases c with
  -- validated parameters fall short of the limits in `time_cost` only
  | create m password params hasPassphrase =>
    refine (forall_request_iff (fun p => eq_of_createRequest) _).trans ?_
    rw [Argon2Params.cost_inLimits_iff hv]
    rfl
  | pack seed password params kdfId hasPassphrase createdAt =>
    refine (forall_request_iff (fun p => eq_of_packRequest) _).trans ?_
    rw [Argon2Params.cost_inLimits_iff hv]
    rfl
  | deriveKey password params salt =>
    refine (forall_request_iff (fun p => eq_of_keyRequest) _).trans ?_
    rw [Argon2Params.cost_inLimits_iff hv]
    rfl
  | unlock blob password => exact forall_request_iff (fun p => eq_of_unlockRequest) _
  | unpack blob password =>
    refine (forall_request_iff (fun p h => (eq_of_unpackRequest h).2) _).trans ?_
    refine imp_congr_left ?_
    unfold unpackRequest
    simp
  | generate | save | openFile | deriveAccount | signMessage | close =>
    -- these make no Argon2id call, so nothing is asked of them
    refine ⟨fun _ => trivial, ?_⟩
    intro _ p h
    cases h

end ApiCall

/-- The Argon2id calls on record in `w'` but not in the earlier state `w`. -/
def newCalls (w w' : World) : List Argon2Call := w'.kdfCalls.drop w.kdfCalls.length

theorem map_cost_newCalls {w w' : World} {l : List Cost} (h : w'.costs = w.costs ++ l) :
    (newCalls w w').map Argon2Call.cost = l := by
  have hlen : w.costs.length = w.kdfCalls.length := List.length_map _
  unfold newCalls
  rw [List.map_drop]
  change w'.costs.drop w.kdfCalls.length = l
  rw [h, ← hlen, List.drop_left]

/-- **No downgrade and no runaway cost, when.** A run of calls with validated parameters makes
only Argon2id calls within the limits exactly if all its calls are moderate. -/
theorem newCalls_inLimits_iff (P : Primitives) {calls : List ApiCall}
    (hv : ∀ c ∈ calls, c.Validated) (w : World) :
    (∀ call ∈ newCalls w (Effect.runAll (calls.map (ApiCall.exec P)) w), call.cost.InLimits) ↔
      ∀ c ∈ calls, c.Moderate := by
  have hcosts := map_cost_newCalls (ApiCall.costs_runAll P calls w)
  have hall : (∀ call ∈ newCalls w (Effect.runAll (calls.map (ApiCall.exec P)) w),
      call.cost.InLimits) ↔ ∀ cost ∈ calls.flatMap fun c => entry c.request, cost.InLimits := by
    rw [← hcosts, List.forall_mem_map]
  rw [hall, List.forall_mem_flatMap]
  -- call by call, what is in the log is what was requested
  refine forall₂_congr fun c hc => ?_
  rw [← ApiCall.forall_request_inLimits_iff (hv c hc)]
  unfold entry
  cases c.request <;> simp

/-- Parameters the constructor accepts although they make a single pass. -/
def onePass : Argon2Params := ⟨1, 19456, 1, 32, 16, 0x13⟩

/-- Eighty-two bytes whose header asks for 4 TiB of memory. -/
def hugeHeader : Bytes :=
  magic ++ [1, 1] ++ List.replicate 12 0xFF ++ [0, 0, 0, 32] ++ [0, 0, 0, 0x13]
    ++ List.replicate 56 0

/-- A one-byte secret. -/
def nine : SecretBytes := ⟨[9], by decide⟩

/-- A packing with one pass, then an unpacking of the crafted blob. -/
def costlyRun : List ApiCall := [.pack nine nine onePass 1 false none, .unpack hugeHeader nine]

theorem newCalls_inLimits_iff_costlyRun :
    (∀ call ∈ newCalls zeroWorld
      (Effect.runAll (costlyRun.map (ApiCall.exec Primitives.toy)) zeroWorld),
      call.cost.InLimits) ↔ ∀ c ∈ costlyRun, c.Moderate :=
  newCalls_inLimits_iff Primitives.toy
    (by rintro c (_ | ⟨_, _ | ⟨_, ⟨⟩⟩⟩)
        · exact (rfl : onePass.Public)
        · trivial) zeroWorld

/-- **A downgrade and a runaway.** Both calls reach Argon2id, the first with one pass, the second
with all three parameters at the largest value a header can hold. -/
theorem costlyRun_costs :
    onePass.Public ∧ (newCalls zeroWorld
      (Effect.runAll (costlyRun.map (ApiCall.exec Primitives.toy)) zeroWorld)).map Argon2Call.cost
        = [⟨1, 19456, 1⟩, ⟨4294967295, 4294967295, 4294967295⟩] ∧
    ¬ (⟨1, 19456, 1⟩ : Cost).InLimits ∧
    ¬ (⟨4294967295, 4294967295, 4294967295⟩ : Cost).InLimits := by
  refine ⟨rfl, ?_, ?_, ?_⟩
  · rw [map_cost_newCalls (ApiCall.costs_runAll Primitives.toy costlyRun zeroWorld)]
    decide
  · intro h
    exact absurd h.timeCost_ge (by decide)
  · intro h
    exact absurd h.memoryCost_le (by decide)

end KeystoneCrypto
