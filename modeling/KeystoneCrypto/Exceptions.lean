import Mathlib.Tactic

/-!
# Strings, bytes and exceptions of the interpreter

A Python `str` is a sequence of code points, lone surrogates included; a `bytes` value is a
sequence of bytes. An exception is its class and its text. The text is kept as the source
composes it, as a list of pieces: the literal parts of an f-string, the values it formats and,
for exceptions raised by the interpreter or by a third-party package, the name of the text that
code supplies.
-/

namespace KeystoneCrypto

/-- A Unicode code point, surrogates included. -/
abbrev CodePoint := Fin 0x110000

-- numerals of `CodePoint` refer to this instance in every module
instance instNeZeroCodePoints : NeZero 0x110000 := ⟨by decide⟩

/-- A Python `str`. -/
abbrev PyStr := List CodePoint

/-- A Python `bytes` value. -/
abbrev Bytes := List UInt8

/-- The code point of a character. -/
def CodePoint.ofChar (c : Char) : CodePoint :=
  ⟨c.toNat, by
    rcases c.valid with h | ⟨-, h⟩
    · exact lt_trans h (by decide)
    · exact h⟩

/-- A string literal of the source as a `str`. -/
def PyStr.ofString (s : String) : PyStr :=
  s.toList.map CodePoint.ofChar

/-- A bytes literal of the source. -/
def Bytes.ofString (s : String) : Bytes :=
  s.toUTF8.data.toList

theorem CodePoint.ofChar_injective : Function.Injective CodePoint.ofChar := fun _ _ h =>
  Char.toNat_inj.mp (Fin.mk.inj h)

theorem PyStr.ofString_injective : Function.Injective PyStr.ofString := fun _ _ h =>
  String.toList_inj.mp (List.map_injective_iff.mpr CodePoint.ofChar_injective h)

/-- The exception classes that the library raises itself (`exceptions.py`) or lets through. -/
inductive ExcType
  | typeError
  | valueError
  | keyError
  | indexError
  | overflowError
  | runtimeError
  | unicodeEncodeError
  | structError
  /-- `OSError` and its subclasses without a name here. -/
  | osError
  | fileNotFoundError
  /-- Raised by pydantic; a subclass of `ValueError`. -/
  | validationError
  /-- `argon2.exceptions.HashingError`. -/
  | hashingError
  | invalidMnemonicError
  | invalidPassphraseError
  | invalidDerivationPathError
  | keystoreVersionError
  | keystoreDecryptionError
  | signatureError
  deriving DecidableEq, Repr

/-- One piece of an exception's text. -/
inductive TextPiece
  /-- A literal part. -/
  | lit (s : String)
  /-- A formatted integer. -/
  | int (n : ℤ)
  /-- A formatted string. -/
  | str (s : PyStr)
  /-- A string formatted with `!r`. -/
  | repr (s : PyStr)
  /-- Text supplied by the interpreter or a package, named but not spelled out. -/
  | foreign (name : String)
  deriving DecidableEq, Repr

/-- A raised exception. -/
structure PyExc where
  /-- Its class. -/
  type : ExcType
  /-- Its text. -/
  text : List TextPiece
  deriving DecidableEq, Repr

/-- `raise` of an exception of class `t`. -/
def raise {α : Type} (t : ExcType) (text : List TextPiece) : Except PyExc α :=
  .error ⟨t, text⟩

/-- `if c: raise ...`. -/
def raiseIf (c : Prop) [Decidable c] (t : ExcType) (text : List TextPiece) : Except PyExc Unit :=
  if c then raise t text else .ok ()

section RaiseIf

variable {c : Prop} [Decidable c] {t : ExcType} {text : List TextPiece}

theorem raiseIf_pos (h : c) : raiseIf c t text = .error ⟨t, text⟩ := if_pos h

theorem raiseIf_neg (h : ¬ c) : raiseIf c t text = .ok () := if_neg h

theorem raiseIf_eq_ok_iff {u : Unit} : raiseIf c t text = .ok u ↔ ¬ c := by
  by_cases h : c <;> simp [raiseIf, raise, h]

theorem raiseIf_eq_error_iff {e : PyExc} :
    raiseIf c t text = .error e ↔ c ∧ e = ⟨t, text⟩ := by
  by_cases h : c <;> simp [raiseIf, raise, h, @eq_comm _ e]

end RaiseIf

end KeystoneCrypto
