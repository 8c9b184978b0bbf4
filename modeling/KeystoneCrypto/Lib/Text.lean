import Mathlib.Tactic
import Mathlib.Data.List.DropRight

/-!
# Fields of a text

Text over an arbitrary alphabet `α`, with a decidable class of blank letters. `Text.fields` cuts a
text at its blanks and drops the empty pieces, so leading, trailing and repeated blanks leave no
trace; `Text.join` puts one separator between consecutive fields. Joining fields and cutting
again is the identity (`fields_join`), which is what makes a field list a canonical form of a text.
-/

namespace Text

variable {α : Type*} (blank : α → Bool)

/-- The maximal runs of non-blank letters, in order. -/
def fields (s : List α) : List (List α) :=
  (s.splitOnP blank).filter fun w => !w.isEmpty

/-- The fields with one separator between neighbours. -/
def join (sep : α) (ws : List (List α)) : List α :=
  List.intercalate [sep] ws

/-- A text without its leading and trailing blanks. -/
def strip (s : List α) : List α :=
  (s.dropWhile blank).rdropWhile blank

/-- A field is a nonempty text without blanks. -/
def IsField (w : List α) : Prop :=
  w ≠ [] ∧ ∀ c ∈ w, blank c = false

@[simp] theorem join_nil (sep : α) : join sep [] = ([] : List α) := rfl

@[simp] theorem join_singleton (sep : α) (w : List α) : join sep [w] = w := by
  simp [join]

theorem join_cons_cons (sep : α) (w v : List α) (ws : List (List α)) :
    join sep (w :: v :: ws) = w ++ sep :: join sep (v :: ws) := by
  simp [join, List.intercalate_cons_cons]

/-- A letter of a joined text is the separator or a letter of a field. -/
theorem mem_join {sep c : α} {ws : List (List α)} (h : c ∈ join sep ws) :
    c = sep ∨ ∃ w ∈ ws, c ∈ w := by
  induction ws with
  | nil => cases h
  | cons w ws ih =>
    cases ws with
    | nil =>
      rw [join_singleton] at h
      exact .inr ⟨w, List.mem_cons_self, h⟩
    | cons v ws =>
      rw [join_cons_cons] at h
      rcases List.mem_append.mp h with hw | h
      · exact .inr ⟨w, List.mem_cons_self, hw⟩
      · rcases List.mem_cons.mp h with hsep | h
        · exact .inl hsep
        · exact (ih h).imp_right fun ⟨u, hu, hc⟩ => ⟨u, List.mem_cons_of_mem w hu, hc⟩

/-- A separator in front of every field is one in front of the joined text. -/
theorem flatMap_sep_eq (sep : α) (w : List α) (ws : List (List α)) :
    ((w :: ws).flatMap fun v => sep :: v) = sep :: join sep (w :: ws) := by
  induction ws generalizing w with
  | nil => rw [join_singleton, List.flatMap_singleton]
  | cons v ws ih => rw [List.flatMap_cons, ih, join_cons_cons, List.cons_append]

variable {blank}

/-- Only what is behind the last non-blank letter is dropped from the right. -/
theorem rdropWhile_append {s r : List α} (hs : ∀ c ∈ s.getLast?, blank c = false)
    (hr : ∀ c ∈ r, blank c = true) : (s ++ r).rdropWhile blank = s := by
  rw [List.rdropWhile, List.reverse_append,
    List.dropWhile_append_of_pos fun c hc => hr c (List.mem_reverse.mp hc)]
  -- the last letter of the text stops the dropping
  cases s using List.reverseRecOn with
  | nil => rfl
  | append_singleton s c =>
    have hc : blank c = false := hs c (by simp)
    rw [List.reverse_append, List.reverse_singleton, List.singleton_append,
      List.dropWhile_cons_of_neg (by simp [hc]), List.reverse_cons, List.reverse_reverse]

/-- **Stripping padding.** A text that neither starts nor ends with a blank is what is left of it
between blanks. -/
theorem strip_append {l s r : List α} (hl : ∀ c ∈ l, blank c = true)
    (hhead : ∀ c ∈ s.head?, blank c = false) (hlast : ∀ c ∈ s.getLast?, blank c = false)
    (hr : ∀ c ∈ r, blank c = true) : strip blank (l ++ (s ++ r)) = s := by
  rw [strip, List.dropWhile_append_of_pos hl]
  cases s with
  | nil =>
    have hnil : ([] ++ r).dropWhile blank = [] := List.dropWhile_eq_nil_iff.mpr hr
    rw [hnil, List.rdropWhile_nil]
  | cons c s =>
    rw [List.cons_append, List.dropWhile_cons_of_neg (by simp [hhead c rfl]), ← List.cons_append]
    exact rdropWhile_append hlast hr

theorem IsField.isEmpty_eq {w : List α} (h : IsField blank w) : w.isEmpty = false := by
  simpa using h.1

/-- **Joining and cutting.** Fields joined by a blank separator are read back. -/
theorem fields_join {sep : α} (hsep : blank sep = true) (ws : List (List α))
    (h : ∀ w ∈ ws, IsField blank w) : fields blank (join sep ws) = ws := by
  induction ws with
  | nil => simp [fields]
  | cons w ws ih =>
    have hw := h w List.mem_cons_self
    have htail := ih fun v hv => h v (List.mem_cons_of_mem w hv)
    cases ws with
    | nil =>
      -- the last field has no separator behind it
      rw [join_singleton]
      unfold fields
      rw [List.splitOnP_eq_singleton hw.2, List.filter_cons_of_pos (by simp [hw.isEmpty_eq]),
        List.filter_nil]
    | cons v ws =>
      -- the first blank of the text is the separator behind `w`
      rw [join_cons_cons]
      unfold fields at htail ⊢
      rw [List.splitOnP_append_cons_of_forall_mem hw.2 sep hsep,
        List.filter_cons_of_pos (by simp [hw.isEmpty_eq]), htail]

end Text
