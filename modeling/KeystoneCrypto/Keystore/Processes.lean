import KeystoneCrypto.Keystore.Refinement
import KeystoneCrypto.Keystore.Root

/-!
# Processes that share their files

A keystore outlives the process that created it: it is saved to a file, and opened again by this
process, by another one, or by one that is started much later. A machine runs any number of
processes. Each is a client with an interpreter of its own (its objects, its buffers, its random
bytes, its clock), and the contents of the files are common. Where a path leads to is a matter of
the process, which may run in another directory than the others, and so is which of its accesses
fail. The calls of the processes come in any order but do not overlap, since `save` does not write a
file in one step.

`clients_see_vaults` is the refinement: what all clients together get to see of the library is what
vaults with common files may answer. How far these vaults may fall short of ideal ones is read off
the run (`Machine.slack`): a password is taken for another one only if a keystore of the run opens
under both, and accesses fail or break off only if those of some process do. The proof is the
simulation of one call, which sharing the files keeps, carried along the run.
-/

namespace KeystoneCrypto

open Trace

/-- The client, with the files as another one left them. -/
def Client.share (s s' : Client) : Client :=
  s.withWorld (s.world.withFiles s'.world.disk.files)

/-- The clients of a machine. -/
abbrev Machine (π : Type) := π → Client

namespace Machine

variable {π : Type}

/-- No process holds anything yet. -/
def start (files : PyStr → Option Bytes) (w : π → World) : Machine π :=
  fun p => .start ((w p).withFiles files)

variable [DecidableEq π]

/-- One call of one process. -/
abbrev exec (P : Primitives) : Machine π → π × Client.Call → Client.Answer × Machine π :=
  Processes.exec Client.share (Client.exec P)

/-- The calls of all processes and their answers, as vaults see them. -/
def vaultTrace (P : Primitives) (S : Machine π) (calls : List (π × Client.Call)) :
    List ((π × Client.VaultCall) × Vault.Answer Bytes Bytes) :=
  (trace (exec P) S calls).map (Prod.map (Prod.map id Client.Call.toVault) Client.Answer.toVault)

/-- In these calls somebody tries the password. -/
def Tries (calls : List (π × Client.Call)) (password : PyStr) : Prop :=
  ∃ p i, (p, .unlock i password) ∈ calls

/-- In this run a keystore is created under the one password, with 16 bytes of salt, that opens
under the other. -/
def Confuses (P : Primitives) (S : Machine π) (calls : List (π × Client.Call))
    (password other : PyStr) : Prop :=
  ∃ p m params hasPassphrase ks pw u, params.saltLen = 16 ∧
    ((p, .create m password params hasPassphrase), .keystore (.ok ks)) ∈ trace (exec P) S calls ∧
    Encodes other pw ∧ Envelope.Unpacks P ks.blob pw u

/-- How far the vaults of a run may fall short of ideal ones. -/
def slack (P : Primitives) (S : Machine π) (calls : List (π × Client.Call)) :
    Vault.Slack PyStr where
  Accepts := S.Confuses P calls
  Fails := ∃ p, ¬ (S p).world.disk.Reliable
  Breaks := ∃ p, ¬ (S p).world.disk.Whole

end Machine

section Refinement

variable {P : Primitives} {L : Vault.Slack PyStr} {s s' : Client} {v v' : VaultState}

/-- Another process writes to the files. -/
theorem Simulates.share (h : Simulates P L s v) (h' : Simulates P L s' v') :
    Simulates P L (s.share s') (Vault.share v v') :=
  h.withWorld (.of_eq rfl rfl) { h.disk with files := h'.disk.files }

variable {π : Type} [DecidableEq π] {S : Machine π} {V : π → VaultState}
  {calls : List (π × Client.Call)}

/-- **Refinement.** As long as keystores are sealed when they are created, the trace of the clients
is a trace of vaults. -/
theorem runs_of_simulates (h : ∀ p, Simulates P L (S p) (V p))
    (hsecures : Throughout (Machine.exec P) (fun S c => Secures P L.Accepts (S c.1) c.2) S calls) :
    ∃ V', Vault.Runs (Client.keyring P) L V (S.vaultTrace P calls) V' ∧
      ∀ p, Simulates P L (final (Machine.exec P) S calls p) (V' p) :=
  Processes.refines (fun _ _ _ _ => Simulates.share) (fun _ _ c hs hc => hs.exec c hc) h hsecures

/-- One call of one process. -/
theorem step_of_simulates (h : ∀ p, Simulates P L (S p) (V p)) {p : π} {c : Client.Call}
    (hsecures : Secures P L.Accepts (S p) c) :
    ∃ V', Processes.Step Vault.share (Vault.Step (Client.keyring P) L) V (p, c.toVault)
        ((S p).exec P c).1.toVault V' ∧
      ∀ q, Simulates P L ((Machine.exec P S (p, c)).2 q) (V' q) := by
  obtain ⟨v', hstep, hself⟩ := (h p).exec c hsecures
  -- the other clients see new files, and so do the other vaults
  exact ⟨_, .call hstep, Processes.rel_update (fun _ _ _ _ => Simulates.share) h hself⟩

/-- A keystore of the run is sealed, up to what the run confuses. -/
theorem secures_confuses (hP : P.AesGcmUndoes) : Throughout (Machine.exec P)
    (fun T c => Secures P (S.Confuses P calls) (T c.1) c.2) S calls := by
  refine throughout_of_split _ fun front c back hcalls => ?_
  obtain ⟨p, c⟩ := c
  refine secures_of_undoes hP ?_
  rintro m password params hasPassphrase ks rfl h16 hks q qw u hq hu
  -- the keystore is the answer to this call of the run, and the other password opens it
  refine ⟨p, m, params, hasPassphrase, ks, qw, u, h16, ?_, hq, hu⟩
  refine (mem_trace_iff _).mpr ⟨front, back, hcalls, ?_⟩
  exact congrArg Client.Answer.keystore hks

end Refinement

/-- **The library is a vault**, for all clients of a machine and every order of their calls. -/
theorem clients_see_vaults {P : Primitives} (hP : P.AesGcmUndoes) {π : Type} [DecidableEq π]
    (files : PyStr → Option Bytes) (w : π → World) (calls : List (π × Client.Call)) :
    ∃ V, Vault.Runs (Client.keyring P) ((Machine.start files w).slack P calls)
        (fun p => foreignVault (Machine.start files w p).world.disk)
        ((Machine.start files w).vaultTrace P calls) V ∧
      ∀ p, Simulates P ((Machine.start files w).slack P calls)
        (final (Machine.exec P) (.start files w) calls p) (V p) := by
  -- at first the files hold blobs of unknown origin, and the slack covers every faulty disk
  refine runs_of_simulates (fun p => simulates_start ?_ ?_) (secures_confuses hP)
  · exact fun hfails => not_not.mp fun hp => hfails ⟨p, hp⟩
  · exact fun hbreaks => not_not.mp fun hp => hbreaks ⟨p, hp⟩

/-- A password that is tried on the keystores of the examples. -/
def pwPassword : PyStr := PyStr.ofString "pw"

/-- One process creates a keystore and saves it as `k`, another one opens `./k`, unlocks and uses
it. -/
def sessionCalls : List (Bool × Client.Call) :=
  [(false, .create ⟨zeroPhrase⟩ pwPassword interactiveProfile false), (false, .save 0 [0x6B]),
    (true, .openFile [0x2E, 0x2F, 0x6B]), (true, .unlock 0 pwPassword),
    (true, .derive 0 bitcoinPath schnorrScheme), (true, .close 0), (true, .accountSign 0 [1])]

/-- Two interpreters whose random bytes are zeros, and no files. -/
def zeroMachine : Machine Bool := .start (fun _ => none) fun _ => zeroWorld

theorem clients_see_vaults_sessionCalls :
    ∃ V, Vault.Runs (Client.keyring Primitives.toy) (zeroMachine.slack Primitives.toy sessionCalls)
        (fun p => foreignVault (zeroMachine p).world.disk)
        (zeroMachine.vaultTrace Primitives.toy sessionCalls) V ∧
      ∀ p, Simulates Primitives.toy (zeroMachine.slack Primitives.toy sessionCalls)
        (final (Machine.exec Primitives.toy) zeroMachine sessionCalls p) (V p) :=
  clients_see_vaults Primitives.toy_undoes (fun _ => none) (fun _ => zeroWorld) sessionCalls

end KeystoneCrypto
