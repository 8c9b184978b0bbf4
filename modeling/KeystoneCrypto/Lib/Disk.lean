import Mathlib.Tactic
import Mathlib.Data.Stream.Init

/-!
# Files behind path names

A program names a file by a path. Several paths may lead to one file (`./k` and `k`), and some lead
to none (a directory that does not exist). `Disk.locate` says where the paths lead, so that files
are told apart by what they are and not by how they are written; what the file system itself does to
find a file is not modelled. `Disk.files` are their contents.

Accesses may fail at any time: the disk is full, permissions are missing. `Disk.faults` lists how
the coming accesses end, one entry each. A write that fails has either not begun, or it has emptied
the file and written the first bytes of the new contents.

Most programs only need to know what an access can have done: `write_cases` and `read_cases` list
the possibilities, and say when a failure may be excluded. A *reliable* disk fails only where the
path or the missing file is to blame, and on a *whole* disk no write is broken off. Both properties
are kept by every access.
-/

/-- How an access fails. -/
structure Disk.Fault (ε : Type) where
  error : ε
  /-- How many bytes a write has left in the file, if it has begun. -/
  written : Option ℕ

/-- A file system, as one process sees it. -/
structure Disk (Path File Byte ε : Type) where
  /-- The file that a path leads to. -/
  locate : Path → Except ε File
  /-- The contents of the files. -/
  files : File → Option (List Byte)
  /-- How the coming accesses fail, if they do. -/
  faults : Stream' (Option (Disk.Fault ε))

namespace Disk

variable {Path File Byte ε : Type} (d : Disk Path File Byte ε)

/-- The disk after an access that wrote nothing. -/
def used : Disk Path File Byte ε := { d with faults := d.faults.tail }

/-- No access fails by itself. -/
def Reliable : Prop := ∀ n, d.faults.get n = none

/-- No write is broken off. -/
def Whole : Prop := ∀ n fault, d.faults.get n = some fault → fault.written = none

theorem Reliable.whole {d : Disk Path File Byte ε} (h : d.Reliable) : d.Whole := by
  intro n fault hn
  rw [h n] at hn
  cases hn

/-- What holds of all coming faults goes on holding while they are used up. -/
theorem Reliable.of_tail {d d' : Disk Path File Byte ε} (h : d.Reliable)
    (hd : d'.faults = d.faults.tail) : d'.Reliable := by
  intro n
  rw [hd]
  exact h (n + 1)

theorem Whole.of_tail {d d' : Disk Path File Byte ε} (h : d.Whole)
    (hd : d'.faults = d.faults.tail) : d'.Whole := by
  intro n fault hn
  rw [hd] at hn
  exact h (n + 1) fault hn

/-! ### Reading -/

section Read

/-- The contents of a file. Where the path leads to a file that does not exist, `missing` is
raised. -/
def read (missing : ε) (path : Path) : Except ε (List Byte) × Disk Path File Byte ε :=
  match d.faults.head, d.locate path with
  -- a fault strikes first, wherever the path may lead
  | some fault, _ => (.error fault.error, d.used)
  | none, .error e => (.error e, d.used)
  | none, .ok file =>
    match d.files file with
    | some data => (.ok data, d.used)
    | none => (.error missing, d.used)

variable (missing : ε) (path : Path)

/-- What reading can have done. -/
theorem read_cases :
    (∃ file data, d.locate path = .ok file ∧ d.files file = some data ∧
      d.read missing path = (.ok data, d.used)) ∨
    ∃ e, d.read missing path = (.error e, d.used) ∧
      ((∀ file, d.locate path = .ok file → d.files file = none) ∨ ¬ d.Reliable) := by
  unfold read
  cases hfault : d.faults.head with
  | some fault => exact .inr ⟨fault.error, rfl, .inr fun h => nomatch hfault.symm.trans (h 0)⟩
  | none =>
    cases hlocate : d.locate path with
    | error e => exact .inr ⟨e, rfl, .inl fun _ h => nomatch h⟩
    | ok file =>
      cases hfile : d.files file with
      | some data => exact .inl ⟨file, data, rfl, hfile, by simp only [hfile]⟩
      | none =>
        -- the path leads to one file only, and that one does not exist
        refine .inr ⟨missing, by simp only [hfile], .inl fun other hother => ?_⟩
        obtain rfl := Except.ok.inj hother
        exact hfile

/-- Whatever it returns, reading leaves the files as they are. -/
@[simp] theorem snd_read : (d.read missing path).2 = d.used := by
  obtain ⟨file, data, -, -, h⟩ | ⟨e, h, -⟩ := d.read_cases missing path <;> rw [h]

variable {d path}

theorem read_of_head {file : File} {data : List Byte} (h : d.locate path = .ok file)
    (hfault : d.faults.head = none) (hfile : d.files file = some data) :
    d.read missing path = (.ok data, d.used) := by
  simp only [read, hfault, h, hfile]

end Read

/-! ### Writing -/

section Write

variable [DecidableEq File]

/-- The disk after an access that left these bytes in the file. -/
def put (file : File) (data : List Byte) : Disk Path File Byte ε :=
  { d.used with files := Function.update d.files file (some data) }

/-- The contents of a file are replaced; a file that does not exist is made. -/
def write (path : Path) (data : List Byte) : Except ε Unit × Disk Path File Byte ε :=
  match d.faults.head, d.locate path with
  | some fault, .error _ => (.error fault.error, d.used)
  | some fault, .ok file =>
    match fault.written with
    -- the file was emptied before the failure, and holds the first bytes
    | some n => (.error fault.error, d.put file (data.take n))
    | none => (.error fault.error, d.used)
  | none, .error e => (.error e, d.used)
  | none, .ok file => (.ok (), d.put file data)

variable (path : Path) (data : List Byte)

/-- What writing can have done: all, nothing or a part. -/
theorem write_cases :
    (∃ file, d.locate path = .ok file ∧ d.write path data = (.ok (), d.put file data)) ∨
    (∃ e, d.write path data = (.error e, d.used) ∧
      ((∀ file, d.locate path ≠ .ok file) ∨ ¬ d.Reliable)) ∨
    ∃ e file n, d.locate path = .ok file ∧
      d.write path data = (.error e, d.put file (data.take n)) ∧ ¬ d.Whole := by
  unfold write
  cases hfault : d.faults.head with
  | none =>
    cases hlocate : d.locate path with
    | error e => exact .inr (.inl ⟨e, rfl, .inl fun _ h => nomatch h⟩)
    | ok file => exact .inl ⟨file, rfl, rfl⟩
  | some fault =>
    -- a fault at the head is one of the faults to come
    have hreliable : ¬ d.Reliable := fun h => nomatch hfault.symm.trans (h 0)
    cases hlocate : d.locate path with
    | error e => exact .inr (.inl ⟨fault.error, rfl, .inr hreliable⟩)
    | ok file =>
      cases hwritten : fault.written with
      | none => exact .inr (.inl ⟨fault.error, by simp only [hwritten], .inr hreliable⟩)
      | some n =>
        -- a broken-off write is what a whole disk excludes
        refine .inr (.inr ⟨fault.error, file, n, rfl, by simp only [hwritten], fun h => ?_⟩)
        cases hwritten.symm.trans (h 0 fault hfault)

variable {d path}

theorem write_of_head {file : File} (h : d.locate path = .ok file)
    (hfault : d.faults.head = none) : d.write path data = (.ok (), d.put file data) := by
  simp only [write, hfault, h]

end Write

end Disk
