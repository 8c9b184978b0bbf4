import KeystoneCrypto.Python

/-!
# `SecretBytes`

A nonempty mutable buffer. The constructor rejects empty input and `zeroize` keeps the length, so
nonemptiness is an invariant of the object and is carried as a field.
-/

namespace KeystoneCrypto

/-- The contents of a `SecretBytes` object. -/
@[ext]
structure SecretBytes where
  /-- The buffer. -/
  buf : Bytes
  /-- The constructor rejects empty buffers. -/
  nonempty : buf ≠ []
  deriving DecidableEq

namespace SecretBytes

/-- `SecretBytes(value)`. -/
def new (value : Bytes) : Except PyExc SecretBytes :=
  if h : value = [] then raise .valueError [.lit "SecretBytes cannot be empty"]
  else .ok ⟨value, h⟩

/-- The loop of `zeroize`: every index is overwritten with `0`. -/
def zeroizeBuf (buf : Bytes) : Bytes :=
  (List.range buf.length).foldl (fun b i => b.set i 0) buf

theorem new_of_ne_nil {value : Bytes} (h : value ≠ []) : new value = .ok ⟨value, h⟩ := dif_neg h

theorem new_eq_ok_iff {value : Bytes} {s : SecretBytes} : new value = .ok s ↔ s.buf = value := by
  unfold new
  split
  · next h =>
    refine ⟨?_, ?_⟩
    · intro h'
      cases h'
    · rintro rfl
      exact absurd h s.nonempty
  · refine ⟨?_, ?_⟩
    · intro h'
      cases h'
      rfl
    · rintro rfl
      rfl

theorem new_buf (s : SecretBytes) : new s.buf = .ok s := new_of_ne_nil s.nonempty

/-- After `i` turns of the loop the first `i` bytes are zero and the others untouched. -/
theorem foldl_set_zero (buf : Bytes) (i : ℕ) (hi : i ≤ buf.length) :
    (List.range i).foldl (fun b j => b.set j 0) buf = List.replicate i 0 ++ buf.drop i := by
  induction i with
  | zero => simp
  | succ i ih =>
    -- the next turn hits the first byte that is still untouched
    have hlt : i < buf.length := hi
    have hset : (buf.drop i).set 0 0 = 0 :: buf.drop (i + 1) := by
      rw [List.drop_eq_getElem_cons hlt, List.set_cons_zero]
    rw [List.range_succ, List.foldl_append, ih hlt.le, List.foldl_cons, List.foldl_nil,
      List.set_append_right _ _ (by simp), List.length_replicate, Nat.sub_self, hset,
      List.replicate_succ', List.append_assoc, List.singleton_append]

/-- **Zeroizing.** The buffer keeps its length and holds zeros only. -/
theorem zeroizeBuf_eq (buf : Bytes) : zeroizeBuf buf = List.replicate buf.length 0 := by
  rw [zeroizeBuf, foldl_set_zero buf buf.length le_rfl, List.drop_length, List.append_nil]

/-- `s.zeroize()`. -/
def zeroize (s : SecretBytes) : SecretBytes where
  buf := zeroizeBuf s.buf
  nonempty := by
    rw [zeroizeBuf_eq]
    simpa using s.nonempty

@[simp] theorem zeroize_buf (s : SecretBytes) :
    s.zeroize.buf = List.replicate s.buf.length 0 := zeroizeBuf_eq s.buf

end SecretBytes

end KeystoneCrypto
