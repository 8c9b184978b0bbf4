import KeystoneCrypto.Primitives
import KeystoneCrypto.SecretBytes
import KeystoneCrypto.Lib.Disk
import KeystoneCrypto.Lib.Effect
import KeystoneCrypto.Lib.Store

/-!
# The world a call runs in

A call of the library draws random bytes, reads the clock, calls Argon2id, allocates and overwrites
buffers, sets flags of objects and reads and writes files. `World` holds what these effects
depend on and what they leave behind, and `Py` is a computation over it that may raise. Argon2id
calls are recorded as they are made, so that what the key derivation was asked to do is part of
the state a call ends in.

A `SecretBytes` argument is passed by its contents wherever the callee only reads it. The buffers
that some caller overwrites later (the password wrapper of a call, the seed of a wallet) are cells
of `World.secrets` and are passed by reference.

Path names and failing accesses are those of `Disk`: a file is what a path leads to, and which paths
lead to which file, and when an access fails, is part of the world.
-/

namespace KeystoneCrypto

/-- The classes that `pathlib` raises when a file cannot be read or written. A path with a null
character is a `ValueError`, one that the file system cannot encode a `UnicodeEncodeError`. -/
def ioErrors : List ExcType := [.osError, .fileNotFoundError, .valueError, .unicodeEncodeError]

/-- What a failing access raises. -/
abbrev IoError := { x : PyExc // x.type ∈ ioErrors }

/-- `FileNotFoundError`, for a path that leads to no file with contents. -/
def IoError.noSuchFile : IoError :=
  ⟨⟨.fileNotFoundError, [.foreign "No such file or directory"]⟩, by decide⟩

/-- The file system. Paths are strings, and so are the names by which files are told apart. -/
abbrev PyDisk := Disk PyStr PyStr UInt8 IoError

/-- A directory without files. A leading `./` makes no difference, and no access fails by itself. -/
def PyDisk.blank : PyDisk where
  locate path := .ok (if [0x2E, 0x2F].isPrefixOf path then path.drop 2 else path)
  files _ := none
  faults := Stream'.const none

/-- The state of the interpreter and its surroundings. -/
structure World where
  /-- The operating system's random bytes, in the order they are handed out. -/
  random : Stream' UInt8
  /-- The coming readings of `int(time.time())`. -/
  clock : Stream' ℤ
  /-- The Argon2id calls made so far, in order. -/
  kdfCalls : List Argon2Call
  /-- The `SecretBytes` objects somebody holds a reference to. -/
  secrets : Store SecretBytes
  /-- The `_closed` attributes of the wallets. -/
  flags : Store Bool
  /-- The file system. -/
  disk : PyDisk

/-- The state of an interpreter that has called nothing yet. -/
def World.fresh (random : Stream' UInt8) (clock : Stream' ℤ) : World where
  random := random
  clock := clock
  kdfCalls := []
  secrets := ⟨fun _ => ⟨[0], by simp⟩, 0⟩
  flags := ⟨fun _ => false, 0⟩
  disk := .blank

/-- A fresh interpreter on a machine whose random bytes and clock are zeros. -/
def zeroWorld : World := .fresh (Stream'.const 0) (Stream'.const 0)

/-- The world with the files as another one has left them. -/
def World.withFiles (w : World) (files : PyStr → Option Bytes) : World :=
  { w with disk := { w.disk with files } }

/-- A computation of the library. -/
abbrev Py (α : Type) := EStateM PyExc World α

/-- `secrets.token_bytes(n)` and `os.urandom(n)`. -/
def tokenBytes (n : ℤ) : Py Bytes := do
  raiseIf (n < 0) .valueError [.foreign "negative argument not allowed"]
  -- bytes once handed out are not handed out again
  let w ← get
  set { w with random := w.random.drop n.toNat }
  return w.random.take n.toNat

/-- `int(time.time())`. -/
def time : Py ℤ := do
  let w ← get
  set { w with clock := w.clock.tail }
  return w.clock.head

/-- `hash_secret_raw(...)`. For integers that do not fit into 32 bits, which no validated parameters
and no header contain, the binding raises `OverflowError`; here they fail with the others. -/
def hashSecretRaw (P : Primitives) (call : Argon2Call) : Py Bytes := do
  -- a call that raises was made all the same
  modify fun w => { w with kdfCalls := w.kdfCalls ++ [call] }
  match P.hashSecretRaw call with
  | .ok raw => return raw
  | .error text => throw ⟨.hashingError, [.foreign text]⟩

/-- The reference to a fresh `SecretBytes` object with the given contents. -/
def newSecret (s : SecretBytes) : Py ℕ := do
  let w ← get
  set { w with secrets := w.secrets.alloc s }
  return w.secrets.next

/-- The contents of a `SecretBytes` object. -/
def readSecret (r : ℕ) : Py SecretBytes := do
  return (← get).secrets.read r

/-- `zeroize()` of a `SecretBytes` object. -/
def zeroizeSecret (r : ℕ) : Py Unit :=
  modify fun w => { w with secrets := w.secrets.write (w.secrets.read r).zeroize r }

/-- A fresh flag. -/
def newFlag (b : Bool) : Py ℕ := do
  let w ← get
  set { w with flags := w.flags.alloc b }
  return w.flags.next

/-- The value of a flag. -/
def readFlag (r : ℕ) : Py Bool := do
  return (← get).flags.read r

/-- Assignment to a flag. -/
def writeFlag (r : ℕ) (b : Bool) : Py Unit :=
  modify fun w => { w with flags := w.flags.write b r }

/-- `Path(path).write_bytes(data)`. -/
def writeBytes (path : PyStr) (data : Bytes) : Py Unit := do
  let w ← get
  -- a write that raises may have left a part of the data
  set { w with disk := (w.disk.write path data).2 }
  (w.disk.write path data).1.mapError Subtype.val

/-- `Path(path).read_bytes()`. -/
def readBytes (path : PyStr) : Py Bytes := do
  let w ← get
  set { w with disk := (w.disk.read .noSuchFile path).2 }
  (w.disk.read .noSuchFile path).1.mapError Subtype.val

/-! ### Running the effects -/

section Run

variable (P : Primitives) (w : World)

theorem run_tokenBytes {n : ℤ} (h : 0 ≤ n) :
    (tokenBytes n).run w
      = .ok (w.random.take n.toNat) { w with random := w.random.drop n.toNat } := by
  unfold tokenBytes
  rw [raiseIf_neg (by omega)]
  rfl

theorem run_tokenBytes_eq_ok_iff {n : ℤ} {b : Bytes} {w w' : World} :
    (tokenBytes n).run w = .ok b w' ↔
      0 ≤ n ∧ b = w.random.take n.toNat ∧ w' = { w with random := w.random.drop n.toNat } := by
  by_cases h : 0 ≤ n
  · rw [run_tokenBytes w h, EStateM.Result.ok.injEq]
    simp only [h, true_and, eq_comm]
  · unfold tokenBytes
    rw [raiseIf_pos (by omega)]
    refine ⟨?_, ?_⟩
    · intro h'
      cases h'
    · intro h'
      exact absurd h'.1 h

@[simp] theorem run_time :
    time.run w = .ok w.clock.head { w with clock := w.clock.tail } := rfl

@[simp] theorem run_hashSecretRaw (call : Argon2Call) :
    (hashSecretRaw P call).run w = match P.hashSecretRaw call with
      | .ok raw => .ok raw { w with kdfCalls := w.kdfCalls ++ [call] }
      | .error text => .error ⟨.hashingError, [.foreign text]⟩
          { w with kdfCalls := w.kdfCalls ++ [call] } := by
  unfold hashSecretRaw
  cases h : P.hashSecretRaw call <;> rfl

@[simp] theorem run_newSecret (s : SecretBytes) :
    (newSecret s).run w = .ok w.secrets.next { w with secrets := w.secrets.alloc s } := rfl

@[simp] theorem run_readSecret (r : ℕ) :
    (readSecret r).run w = .ok (w.secrets.read r) w := rfl

@[simp] theorem run_zeroizeSecret (r : ℕ) :
    (zeroizeSecret r).run w
      = .ok () { w with secrets := w.secrets.write (w.secrets.read r).zeroize r } := rfl

@[simp] theorem run_newFlag (b : Bool) :
    (newFlag b).run w = .ok w.flags.next { w with flags := w.flags.alloc b } := rfl

@[simp] theorem run_readFlag (r : ℕ) : (readFlag r).run w = .ok (w.flags.read r) w := rfl

@[simp] theorem run_writeFlag (r : ℕ) (b : Bool) :
    (writeFlag r b).run w = .ok () { w with flags := w.flags.write b r } := rfl

/-- A write returns or raises what the disk says. -/
theorem outcome_writeBytes (path : PyStr) (data : Bytes) :
    Effect.outcome (writeBytes path data) w
      = (w.disk.write path data).1.mapError Subtype.val := by
  unfold writeBytes Effect.outcome
  cases h : (w.disk.write path data).1 <;> simp [Except.mapError, h]

theorem after_writeBytes (path : PyStr) (data : Bytes) :
    Effect.after (writeBytes path data) w = { w with disk := (w.disk.write path data).2 } := by
  unfold writeBytes Effect.after
  cases h : (w.disk.write path data).1 <;> simp [Except.mapError, h]

/-- The coming access does not fail, and the path leads to a file. -/
theorem run_writeBytes {path file : PyStr} (h : w.disk.locate path = .ok file)
    (hfault : w.disk.faults.head = none) (data : Bytes) :
    (writeBytes path data).run w = .ok () { w with disk := w.disk.put file data } := by
  unfold writeBytes
  simp only [EStateM.run_bind, EStateM.run_get, EStateM.run_set,
    Disk.write_of_head data h hfault]
  rfl

theorem run_readBytes_of_ok {path : PyStr} {data : Bytes}
    (h : (w.disk.read .noSuchFile path).1 = .ok data) :
    (readBytes path).run w = .ok data { w with disk := w.disk.used } := by
  unfold readBytes
  simp only [EStateM.run_bind, EStateM.run_get, EStateM.run_set, Disk.snd_read, h]
  rfl

theorem run_readBytes_of_error {path : PyStr} {e : IoError}
    (h : (w.disk.read .noSuchFile path).1 = .error e) :
    (readBytes path).run w = .error e { w with disk := w.disk.used } := by
  unfold readBytes
  simp only [EStateM.run_bind, EStateM.run_get, EStateM.run_set, Disk.snd_read, h]
  rfl

theorem after_readBytes (path : PyStr) :
    Effect.after (readBytes path) w = { w with disk := w.disk.used } := by
  -- an access is used up either way
  cases h : (w.disk.read .noSuchFile path).1 with
  | ok data => exact Effect.after_of_ok (run_readBytes_of_ok w h)
  | error e => exact Effect.after_of_error (run_readBytes_of_error w h)

/-- The coming access does not fail, and the path leads to a file with these contents. -/
theorem run_readBytes {path file : PyStr} {data : Bytes} (h : w.disk.locate path = .ok file)
    (hfault : w.disk.faults.head = none) (hfile : w.disk.files file = some data) :
    (readBytes path).run w = .ok data { w with disk := w.disk.used } :=
  run_readBytes_of_ok w (by rw [Disk.read_of_head .noSuchFile h hfault hfile])

end Run

end KeystoneCrypto
