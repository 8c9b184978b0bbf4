import KeystoneCrypto.Lib.Trace
import Mathlib.Data.Stream.Init

/-!
# Pieces of a stream

An interactive program may consume a stream while it runs, and show pieces of it in its answers.
`Takes` says what one call does to the stream: a piece is taken from its beginning, or none is, and
perhaps more behind it that no answer shows.

If every call does so, the pieces shown in a run have windows of the stream of their own, one behind
the other in the order of the answers (`windows_of_takes`). The invariant of the run is `Windows`,
together with the fact that the stream left is the first one from the position reached on; the step
is `Windows.takes`.
-/

namespace Draws

/-- Elements of a stream, and how many there should be. -/
structure Piece (α : Type*) where
  elems : List α
  size : ℕ

section Windows

variable {α : Type*} {stream stream' : Stream' α} {n : ℕ} {l : List (Piece α × ℕ)} {x : Piece α}

/-- The piece is what the stream has from the position `i` on. -/
def Piece.TakenAt (x : Piece α) (stream : Stream' α) (i : ℕ) : Prop :=
  x.elems = (stream.drop i).take x.size

/-- What is taken at the current position is taken at that position of the whole stream. -/
theorem Piece.TakenAt.of_drop (h : x.TakenAt (stream.drop n) 0) : x.TakenAt stream n := by
  unfold Piece.TakenAt at h ⊢
  rwa [Stream'.drop_zero] at h

/-- The piece, if there is one, was taken from the beginning of the first stream, and the second
stream is what is left. -/
def Takes (stream stream' : Stream' α) (piece : Option (Piece α)) : Prop :=
  ∃ k, stream' = stream.drop k ∧ ∀ x ∈ piece, x.TakenAt stream 0 ∧ x.size ≤ k

/-- Nothing is shown. -/
theorem takes_none {k : ℕ} (h : stream' = stream.drop k) : Takes stream stream' none :=
  ⟨k, h, fun _ hx => nomatch hx⟩

/-- Nothing is taken but the piece. -/
theorem takes_some (hx : x.TakenAt stream 0) (h : stream' = stream.drop x.size) :
    Takes stream stream' (some x) := by
  refine ⟨x.size, h, fun y hy => ?_⟩
  obtain rfl := Option.some.inj hy
  exact ⟨hx, le_rfl⟩

/-- Every piece was taken at its position, each behind the one before, and all of them before the
position `n`. -/
structure Windows (stream : Stream' α) (n : ℕ) (l : List (Piece α × ℕ)) : Prop where
  takenAt : ∀ x ∈ l, x.1.TakenAt stream x.2
  behind : l.Pairwise fun x y => x.2 + x.1.size ≤ y.2
  before : ∀ x ∈ l, x.2 + x.1.size ≤ n

theorem windows_nil (stream : Stream' α) : Windows stream 0 [] where
  takenAt _ h := absurd h List.not_mem_nil
  behind := .nil
  before _ h := absurd h List.not_mem_nil

theorem Windows.mono (h : Windows stream n l) {n' : ℕ} (hn : n ≤ n') : Windows stream n' l :=
  { h with before := fun x hx => (h.before x hx).trans hn }

/-- The next piece takes the window at the position. -/
theorem Windows.concat (h : Windows stream n l) (hx : x.TakenAt stream n) :
    Windows stream (n + x.size) (l ++ [(x, n)]) where
  takenAt y hy := by
    rcases List.mem_append.mp hy with hy | hy
    · exact h.takenAt y hy
    · rw [List.mem_singleton.mp hy]
      exact hx
  behind := by
    refine List.pairwise_append.mpr ⟨h.behind, List.pairwise_singleton _ _, fun y hy z hz => ?_⟩
    rw [List.mem_singleton.mp hz]
    exact h.before y hy
  before y hy := by
    rcases List.mem_append.mp hy with hy | hy
    · exact (h.before y hy).trans (Nat.le_add_right _ _)
    · rw [List.mem_singleton.mp hy]

/-- **One call.** The windows of the pieces so far and of the piece that is taken. -/
theorem Windows.takes (h : Windows stream n l) {piece : Option (Piece α)}
    (ht : Takes (stream.drop n) stream' piece) : ∃ l' n', l'.map Prod.fst =
      l.map Prod.fst ++ piece.toList ∧ Windows stream n' l' ∧ stream' = stream.drop n' := by
  obtain ⟨k, hk, hpiece⟩ := ht
  rw [Stream'.drop_drop] at hk
  cases piece with
  | none => exact ⟨l, n + k, (List.append_nil _).symm, h.mono (Nat.le_add_right n k), hk⟩
  | some x =>
    obtain ⟨hx, hle⟩ := hpiece x rfl
    refine ⟨l ++ [(x, n)], n + k, ?_, ?_, hk⟩
    · rw [List.map_append]
      rfl
    · -- what was taken behind the piece belongs to no window
      exact (h.concat hx.of_drop).mono (Nat.add_le_add_left hle n)

end Windows

section Run

variable {σ ι ο α : Type*} (exec : σ → ι → ο × σ) (stream : σ → Stream' α)
  (piece : ι × ο → Option (Piece α))

/-- **A run.** If every call takes the piece it shows from the stream, then the pieces of a run have
windows of their own. -/
theorem windows_of_takes
    (h : ∀ s c, Takes (stream s) (stream (exec s c).2) (piece (c, (exec s c).1)))
    (s : σ) (calls : List ι) : ∃ l n, l.map Prod.fst = (Trace.trace exec s calls).filterMap piece ∧
      Windows (stream s) n l ∧ stream (Trace.final exec s calls) = (stream s).drop n := by
  refine Trace.final_invariant exec
    (I := fun calls t => ∃ l n, l.map Prod.fst = (Trace.trace exec s calls).filterMap piece ∧
      Windows (stream s) n l ∧ stream t = (stream s).drop n)
    ⟨[], 0, rfl, windows_nil _, rfl⟩ ?_ calls
  rintro calls c t ht ⟨l, n, hl, hwindows, hstream⟩
  -- the stream of the state reached is the first one from the position on
  have htakes := h t c
  rw [hstream] at htakes
  obtain ⟨l', n', hl', hwindows', hstream'⟩ := hwindows.takes htakes
  refine ⟨l', n', ?_, hwindows', hstream'⟩
  rw [hl', hl, Trace.trace_append, List.filterMap_append, ← ht, Trace.trace_cons, Trace.trace_nil,
    List.filterMap_cons, List.filterMap_nil]
  cases piece (c, (exec t c).1) <;> rfl

end Run

end Draws
