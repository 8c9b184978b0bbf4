import KeystoneCrypto.Keystore.Processes
import KeystoneCrypto.Keystore.Recovery
import KeystoneCrypto.Envelope.Tamper
import KeystoneCrypto.Lib.Draws

/-!
# Where salts, nonces and entropies come from

Random bytes are handed out in order, and no call gives any back (`World.Draws`). Two kinds of
answers show what was drawn for them (`Client.drawn`): the salt and the nonce of a keystore stand
next to each other in its blob, and a generated mnemonic has an entropy.

So over a whole run these answers have windows of the random bytes of their own (`exists_windows`):
a salt, a nonce or an entropy repeats only where the random bytes do, and none shares its bytes
with another, whatever else is called in between.

One call either shows the next bytes, all of those it has drawn, or shows none and has drawn any
number (`takes_exec`). The windows then line up by induction along the run
(`Draws.windows_of_takes`); the calls of other processes draw from other bytes.
-/

namespace KeystoneCrypto

open Trace

/-! ### Drawing -/

/-- From `w` to `w'` random bytes were drawn at most. -/
def World.Draws (w w' : World) : Prop := ∃ n, w'.random = w.random.drop n

theorem World.Draws.of_eq {w w' : World} (h : w'.random = w.random) : w.Draws w' := ⟨0, h⟩

theorem World.Draws.refl (w : World) : w.Draws w := .of_eq rfl

theorem World.Draws.trans {w w₁ w₂ : World} (h : w.Draws w₁) (h' : w₁.Draws w₂) : w.Draws w₂ := by
  obtain ⟨m, hm⟩ := h
  obtain ⟨n, hn⟩ := h'
  exact ⟨m + n, by rw [hn, hm, Stream'.drop_drop]⟩

/-- However a method ends, it hands back no random bytes. -/
theorem drawsRules (P : Primitives) :
    CallRules P fun {α} (x : Py α) => Effect.Steps World.Draws x where
  __ := Effect.compositional_steps World.Draws.refl fun h h' => h.trans h'
  tokenBytes n := by
    intro w
    by_cases hn : 0 ≤ n
    · rw [Effect.after_of_ok (run_tokenBytes w hn)]
      exact ⟨n.toNat, rfl⟩
    · unfold tokenBytes
      rw [raiseIf_pos (by omega)]
      exact .refl w
  time w := .refl w
  hashSecretRaw call := by
    intro w
    unfold Effect.after
    rw [run_hashSecretRaw]
    cases P.hashSecretRaw call <;> exact .refl w
  newSecret _ w := .refl w
  readSecret _ w := .refl w
  zeroizeSecret _ w := .refl w
  newFlag _ w := .refl w
  readFlag _ w := .refl w
  writeFlag _ _ w := .refl w

/-- **One call** of a client hands back no random bytes. -/
theorem draws_exec (P : Primitives) (s : Client) (c : Client.Call) :
    s.world.Draws (s.exec P c).2.world :=
  s.steps_exec World.Draws.refl (drawsRules P).generate (drawsRules P).create
    (fun ks path w => .of_eq (keeps_save (fun _ _ => rfl) ks path w))
    (fun path w => .of_eq (keeps_openFile (fun _ _ => rfl) path w)) (drawsRules P).unlock
    (drawsRules P).signMessage (drawsRules P).accountSign (drawsRules P).close c

/-! ### What is drawn -/

/-- The random bytes that the answer to a call shows, and how many the call asks for. -/
def Client.drawn : Client.Call × Client.Answer → Option (Draws.Piece UInt8)
  | (.create _ _ params _, .keystore (.ok ks)) =>
    let n := params.saltLen.toNat + nonceLen
    some ⟨sliceFromTo ks.blob offSalt (offSalt + n), n⟩
  -- an entropy that cannot be read would have no bytes
  | (.generate strength, .mnemonic (.ok m)) =>
    some ⟨(m.entropy.toOption.map SecretBytes.buf).getD [], (strength / 8).toNat⟩
  | _ => none

section Drawn

variable {P : Primitives} {m : Mnemonic} {w w' : World}

/-- A keystore takes the coming random bytes, and leaves those behind them. -/
theorem takes_of_run_create {password : PyStr} {params : Argon2Params} {hasPassphrase : Bool}
    {ks : Keystore} (h : (Keystore.create P m password params hasPassphrase).run w = .ok ks w') :
    Draws.Takes w.random w'.random
      (Client.drawn (.create m password params hasPassphrase, .keystore (.ok ks))) := by
  obtain ⟨hne, pw, e, hpw, he, sealing, hsalt, hnonce, rfl⟩ := Keystore.sealing_of_run_create h
  have hrun := (Keystore.run_create hne hpw he sealing hsalt hnonce).symm.trans h
  -- the run is known in full, so the random bytes left are, too
  obtain ⟨-, rfl⟩ := EStateM.Result.ok.injEq .. |>.mp hrun
  refine Draws.takes_some ?_ (Stream'.drop_drop _ _ _)
  have hdrawn : sealing.salt ++ sealing.nonce
      = w.random.take (params.saltLen.toNat + nonceLen) := by
    rw [hsalt, hnonce]
    exact (Stream'.take_add ..).symm
  change sliceFromTo sealing.blob offSalt (offSalt + (params.saltLen.toNat + nonceLen)) = _
  -- salt and nonce stand between the parameters and the ciphertext
  unfold Envelope.Sealing.blob
  rw [List.append_assoc, List.append_assoc, ← List.append_assoc sealing.salt,
    sliceFromTo_middle _ (sealing.salt ++ sealing.nonce) _]
  · exact hdrawn
  · simp [magic, offSalt, sealing.kdf_length]
  · rw [hdrawn, Stream'.length_take]

/-- A generated mnemonic has the coming random bytes as its entropy. -/
theorem takes_of_run_generate {strength : ℤ}
    (h : (Mnemonic.generate P strength).run w = .ok m w') :
    Draws.Takes w.random w'.random (Client.drawn (.generate strength, .mnemonic (.ok m))) := by
  obtain ⟨e, hbuf, hsize, hm, rfl⟩ := exists_entropy_of_generate h
  obtain ⟨k, -, hk, hlen, hwords⟩ := exists_words_of_fromEntropy hsize hm
  have hentropy : m.entropy = .ok e := entropy_eq (by omega) hlen hwords
  refine Draws.takes_some ?_ rfl
  change (m.entropy.toOption.map SecretBytes.buf).getD [] = _
  rw [hentropy]
  exact hbuf

/-- **One call.** What an answer shows was taken from the random bytes. -/
theorem takes_exec (P : Primitives) (s : Client) (c : Client.Call) :
    Draws.Takes s.world.random (s.exec P c).2.world.random (Client.drawn (c, (s.exec P c).1)) := by
  -- no other answer shows any
  have hnone : Client.drawn (c, (s.exec P c).1) = none →
      Draws.Takes s.world.random (s.exec P c).2.world.random
        (Client.drawn (c, (s.exec P c).1)) := by
    intro h
    rw [h]
    -- bytes may have been drawn all the same, if the call has raised
    obtain ⟨k, hk⟩ := draws_exec P s c
    exact Draws.takes_none hk
  cases c with
  | create m password params hasPassphrase =>
    cases hout : Effect.outcome (Keystore.create P m password params hasPassphrase) s.world with
    | error x =>
      refine hnone ?_
      rw [Client.exec_create_of_error hout]
      rfl
    | ok ks =>
      rw [Client.exec_create_of_ok hout]
      exact takes_of_run_create (Effect.run_of_outcome hout)
  | generate strength =>
    cases hout : Effect.outcome (Mnemonic.generate P strength) s.world with
    | error x =>
      refine hnone ?_
      rw [Client.exec_generate hout]
      rfl
    | ok m =>
      rw [Client.exec_generate hout]
      exact takes_of_run_generate (Effect.run_of_outcome hout)
  | _ => exact hnone rfl

end Drawn

/-! ### Runs -/

section Runs

variable {π : Type} [DecidableEq π]

/-- The random bytes that an answer to the process `p` shows. -/
def Machine.drawn (p : π) (e : (π × Client.Call) × Client.Answer) : Option (Draws.Piece UInt8) :=
  if e.1.1 = p then Client.drawn (e.1.2, e.2) else none

/-- **Random bytes are used once.** Whatever the processes of a machine call, the salt and nonce of
every keystore and the entropy of every mnemonic that a process makes are random bytes that no other
of its keystores or mnemonics got: the windows come one behind the other, in the order of the
calls. -/
theorem exists_windows (P : Primitives) (S : Machine π) (calls : List (π × Client.Call)) (p : π) :
    ∃ l n, l.map Prod.fst = (trace (Machine.exec P) S calls).filterMap (Machine.drawn p) ∧
      Draws.Windows (S p).world.random n l ∧
      (final (Machine.exec P) S calls p).world.random = (S p).world.random.drop n := by
  refine Draws.windows_of_takes (Machine.exec P) (fun S => (S p).world.random) (Machine.drawn p)
    (fun S c => ?_) S calls
  obtain ⟨q, c⟩ := c
  by_cases hq : q = p
  · subst hq
    rw [Machine.drawn, if_pos rfl, Processes.exec_self]
    exact takes_exec P (S q) c
  · -- another process has random bytes of its own
    rw [Machine.drawn, if_neg hq]
    refine Draws.takes_none (k := 0) ?_
    change (Processes.update Client.share S q _ p).world.random = _
    rw [Processes.update_of_ne (Ne.symm hq)]
    rfl

end Runs

end KeystoneCrypto
