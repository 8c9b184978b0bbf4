import KeystoneCrypto.Derivation

/-!
# Path texts

`DerivationPath.parse` cuts a text at its slashes and reads each piece by two operations of the
interpreter that accept more than a path component: `rstrip("'h")` takes off every marker at the
end, and `isdigit` also holds of digits that `int` cannot convert.

A piece is `Readable` when the loop collects it and `Misread` when `int` raises on it; every other
piece is refused with the error of the module (`parseComponent_cases`). The pieces that a path
consists of by its grammar are the `IsComponent` ones. `parse_strict_iff` says on which texts
`parse` keeps to the grammar and to its own error. Whatever it makes of other texts, a path that is
written in the grammar is read back component by component (`parse_write`).

One turn of the loop is settled for every piece at once (`parseComponent_cases`), and the loop by
the rules for `mapM`: it returns if every turn does, and raises what the first turn that does not
return raises. The grammar is cut at the same slashes (`grammar_iff`), so that both sides of a
result about texts are about their pieces. For written paths the work is in one component: `rstrip`
takes off its marker and nothing else (`body_write`), and its digits spell its index
(`asciiValue_toDigits`).
-/

namespace KeystoneCrypto

/-- A digit `'0'` to `'9'`. -/
def CodePoint.isAsciiDigit (c : CodePoint) : Bool := 0x30 ≤ c.val && c.val ≤ 0x39

theorem CodePoint.decimal_of_isAsciiDigit {c : CodePoint} (h : c.isAsciiDigit = true) :
    c.decimal = some (c.val - 0x30) := by
  -- the block of the ASCII digits is the first of the table
  have hfind : (decimalZeros.find? fun z => z ≤ c.val && c.val ≤ z + 9) = some 0x30 :=
    List.find?_cons_of_pos h
  rw [CodePoint.decimal, hfind, Option.map_some]

namespace DerivationPath

/-! ### One component -/

/-- The characters that mark a hardened component. -/
def isMarker (c : CodePoint) : Bool := c == apostrophe || c == CodePoint.ofChar 'h'

/-- A piece without the markers at its end. -/
def body (part : PyStr) : PyStr := part.rdropWhile isMarker

/-- The pieces that the loop of `parse` collects. -/
def Readable (part : PyStr) : Prop :=
  (body part).isdigit = true ∧ (body part).Convertible ∧ (body part).decimalValue ≤ 0x7FFFFFFF

/-- The pieces that pass the test for digits but that `int` does not convert. -/
def Misread (part : PyStr) : Prop :=
  (body part).isdigit = true ∧ ¬ (body part).Convertible

section Component

variable {part : PyStr}

theorem parseComponent_eq (part : PyStr) :
    parseComponent part = (do
      raiseIf ((body part).isdigit = false) .invalidDerivationPathError
        [.lit "non-numeric component: ", .repr part]
      let idx ← (body part).toInt
      raiseIf (idx < 0 ∨ 0x7FFFFFFF < idx) .invalidDerivationPathError
        [.lit "index out of range: ", .int idx]
      return (idx, part.getLast?.any isMarker)) := rfl

theorem parseComponent_of_readable (h : Readable part) :
    parseComponent part = .ok ((body part).decimalValue, part.getLast?.any isMarker) := by
  obtain ⟨hdigit, hconv, hle⟩ := h
  -- the test for digits passes, `int` converts, and the number is in range
  rw [parseComponent_eq, raiseIf_neg (by simp [hdigit]), PyStr.toInt_of_convertible hconv,
    Effect.ok_bind, Effect.ok_bind, raiseIf_neg (by omega), Effect.ok_bind]
  rfl

theorem parseComponent_of_misread (h : Misread part) :
    ∃ e, parseComponent part = .error e ∧ e.type = .valueError := by
  obtain ⟨e, he, htype⟩ := PyStr.toInt_of_not_convertible h.2
  refine ⟨e, ?_, htype⟩
  -- `ValueError` of `int` passes through the loop as it is
  rw [parseComponent_eq, raiseIf_neg (by simp [h.1]), he]
  rfl

theorem parseComponent_refused (h₁ : ¬ Readable part) (h₂ : ¬ Misread part) :
    ∃ e, parseComponent part = .error e ∧ e.type = .invalidDerivationPathError := by
  rw [parseComponent_eq]
  by_cases hdigit : (body part).isdigit = false
  · exact ⟨_, by rw [raiseIf_pos hdigit]; rfl, rfl⟩
  · -- the digits convert, so the number is too large
    have hconv : (body part).Convertible := by
      by_contra hconv
      exact h₂ ⟨by simpa using hdigit, hconv⟩
    have hlt : 0x7FFFFFFF < (body part).decimalValue := by
      by_contra hle
      exact h₁ ⟨by simpa using hdigit, hconv, Nat.not_lt.mp hle⟩
    refine ⟨⟨.invalidDerivationPathError,
      [.lit "index out of range: ", .int (body part).decimalValue]⟩, ?_, rfl⟩
    rw [raiseIf_neg hdigit, PyStr.toInt_of_convertible hconv, Effect.ok_bind, Effect.ok_bind,
      raiseIf_pos (Or.inr (by omega))]
    rfl

/-- **One turn of the loop.** It collects a piece, or `int` raises on it, or the piece is
refused. -/
theorem parseComponent_cases (part : PyStr) :
    (Readable part ∧
      parseComponent part = .ok ((body part).decimalValue, part.getLast?.any isMarker)) ∨
    (¬ Readable part ∧ Misread part ∧
      ∃ e, parseComponent part = .error e ∧ e.type = .valueError) ∨
    (¬ Readable part ∧ ¬ Misread part ∧
      ∃ e, parseComponent part = .error e ∧ e.type = .invalidDerivationPathError) := by
  by_cases hread : Readable part
  · exact .inl ⟨hread, parseComponent_of_readable hread⟩
  · by_cases hmis : Misread part
    · exact .inr (.inl ⟨hread, hmis, parseComponent_of_misread hmis⟩)
    · exact .inr (.inr ⟨hread, hmis, parseComponent_refused hread hmis⟩)

theorem exists_parseComponent_iff : (∃ c, parseComponent part = .ok c) ↔ Readable part := by
  -- the three ends of a turn exclude each other
  obtain ⟨hread, hok⟩ | ⟨hread, -, e, he, -⟩ | ⟨hread, -, e, he, -⟩ := parseComponent_cases part
  · exact iff_of_true ⟨_, hok⟩ hread
  all_goals
    refine iff_of_false ?_ hread
    rintro ⟨c, hc⟩
    cases hc.symm.trans he

/-- The loop leaves its own class of errors on the `Misread` pieces only. -/
theorem type_of_parseComponent {e : PyExc} (h : parseComponent part = .error e) :
    e.type = .invalidDerivationPathError ↔ ¬ Misread part := by
  obtain ⟨-, hok⟩ | ⟨-, hmis, e', he', htype⟩ | ⟨-, hmis, e', he', htype⟩ :=
    parseComponent_cases part
  · cases h.symm.trans hok
  all_goals
    cases h.symm.trans he'
    simp [htype, hmis]

end Component

/-! ### The grammar -/

/-- The number that ASCII digits spell. -/
def asciiValue (digits : PyStr) : ℕ := digits.foldl (fun n c => 10 * n + (c.val - 0x30)) 0

/-- A component: ASCII digits of a number below `2 ^ 31`, and at most one marker. -/
def IsComponent (part : PyStr) : Prop :=
  ∃ digits marker, part = digits ++ marker ∧ digits ≠ [] ∧
    (∀ c ∈ digits, c.isAsciiDigit = true) ∧ asciiValue digits ≤ 0x7FFFFFFF ∧
    (marker = [] ∨ marker = [apostrophe] ∨ marker = [CodePoint.ofChar 'h'])

/-- The texts of paths: nothing at all, `m`, or `m/` and components between slashes. -/
def Grammar (t : PyStr) : Prop :=
  t = [] ∨ t = PyStr.ofString "m" ∨
    ∃ parts : List PyStr, parts ≠ [] ∧ (∀ part ∈ parts, IsComponent part) ∧
      t = PyStr.ofString "m/" ++ Text.join slash parts

/-- ASCII digits only, and at most one marker behind them. -/
def Plain (part : PyStr) : Prop :=
  (∀ c ∈ body part, c.isAsciiDigit = true) ∧ part.length ≤ (body part).length + 1

instance instDecidablePlain : DecidablePred Plain := fun part =>
  decidable_of_iff ((body part).all CodePoint.isAsciiDigit = true ∧
    part.length ≤ (body part).length + 1) (and_congr_left' List.all_eq_true)

theorem isMarker_of_isAsciiDigit {c : CodePoint} (h : c.isAsciiDigit = true) :
    isMarker c = false := by
  unfold CodePoint.isAsciiDigit at h
  rw [Bool.and_eq_true, decide_eq_true_iff, decide_eq_true_iff] at h
  unfold isMarker
  -- apostrophe and `h` are outside the range of the digits, one below and one above
  rw [Bool.or_eq_false_iff, beq_eq_false_iff_ne, beq_eq_false_iff_ne]
  refine ⟨?_, ?_⟩
  · rintro rfl
    exact absurd h.1 (by decide)
  · rintro rfl
    exact absurd h.2 (by decide)

theorem decimalValue_of_ascii {digits : PyStr} (h : ∀ c ∈ digits, c.isAsciiDigit = true) :
    digits.decimalValue = asciiValue digits := by
  -- both values are folds from the left, so the last digit is the one to take off
  induction digits using List.reverseRecOn with
  | nil => rfl
  | append_singleton digits c ih =>
    have hc := CodePoint.decimal_of_isAsciiDigit (h c (by simp))
    have ih := ih fun d hd => h d (List.mem_append_left _ hd)
    unfold PyStr.decimalValue asciiValue at ih ⊢
    rw [List.foldl_append, List.foldl_append, ih, List.foldl_cons, List.foldl_cons, hc,
      List.foldl_nil, List.foldl_nil, Option.getD_some]

/-- The markers behind ASCII digits are what `rstrip` takes off. -/
theorem body_append {digits marker : PyStr} (hdigits : ∀ c ∈ digits, c.isAsciiDigit = true)
    (hmarker : ∀ c ∈ marker, isMarker c = true) : body (digits ++ marker) = digits :=
  Text.rdropWhile_append
    (fun c hc => isMarker_of_isAsciiDigit (hdigits c (List.mem_of_getLast? hc))) hmarker

theorem isMarker_iff {c : CodePoint} :
    isMarker c = true ↔ c = apostrophe ∨ c = CodePoint.ofChar 'h' := by
  simp [isMarker]

section Component

variable {part : PyStr}

theorem isComponent_iff :
    IsComponent part ↔
      Plain part ∧ body part ≠ [] ∧ (body part).decimalValue ≤ 0x7FFFFFFF := by
  refine ⟨?_, ?_⟩
  -- `rstrip` takes off exactly the marker
  · rintro ⟨digits, marker, rfl, hne, hdigits, hle, hmarker⟩
    have hall : ∀ c ∈ marker, isMarker c = true := by
      rcases hmarker with rfl | rfl | rfl <;> simp [isMarker]
    have hshort : marker.length ≤ 1 := by
      rcases hmarker with rfl | rfl | rfl <;> simp
    have hbody := body_append hdigits hall
    unfold Plain
    rw [hbody, decimalValue_of_ascii hdigits, List.length_append]
    exact ⟨⟨hdigits, by omega⟩, hne, hle⟩
  · rintro ⟨⟨hdigits, hshort⟩, hne, hle⟩
    -- the markers taken off, of which there is at most one
    have hsplit : body part ++ part.rtakeWhile isMarker = part := List.rdropWhile_append_rtakeWhile
    have hlen := congrArg List.length hsplit
    rw [List.length_append] at hlen
    refine ⟨body part, part.rtakeWhile isMarker, hsplit.symm, hne, hdigits,
      decimalValue_of_ascii hdigits ▸ hle, ?_⟩
    cases hmark : part.rtakeWhile isMarker with
    | nil => exact .inl rfl
    | cons c rest =>
      have hrest : rest = [] := by
        rw [hmark, List.length_cons] at hlen
        exact List.eq_nil_of_length_eq_zero (by omega)
      have hc : isMarker c = true :=
        List.mem_rtakeWhile_imp (l := part) (hmark ▸ List.mem_cons_self)
      subst hrest
      exact .inr ((isMarker_iff.mp hc).imp (congrArg ([·])) (congrArg ([·])))

theorem isdigit_of_ascii {s : PyStr} (hne : s ≠ []) (h : ∀ c ∈ s, c.isAsciiDigit = true) :
    s.isdigit = true := by
  unfold PyStr.isdigit
  rw [Bool.and_eq_true, bne_iff_ne, List.all_eq_true]
  refine ⟨hne, fun c hc => ?_⟩
  rw [CodePoint.decimal_of_isAsciiDigit (h c hc), Option.isSome_some, Bool.true_or]

/-- A component is collected, unless it has more digits than the interpreter converts. -/
theorem IsComponent.readable (h : IsComponent part) (hlen : (body part).length ≤ 4300) :
    Readable part := by
  obtain ⟨⟨hdigits, -⟩, hne, hle⟩ := DerivationPath.isComponent_iff.mp h
  refine ⟨isdigit_of_ascii hne hdigits, ⟨hlen, fun c hc => ?_⟩, hle⟩
  rw [CodePoint.decimal_of_isAsciiDigit (hdigits c hc), Option.isSome_some]

/-- A piece that the loop collects is a component when it is plain. -/
theorem Readable.isComponent_iff (h : Readable part) : IsComponent part ↔ Plain part := by
  rw [DerivationPath.isComponent_iff]
  refine ⟨And.left, fun hplain => ⟨hplain, ?_, h.2.2⟩⟩
  intro hnil
  -- `isdigit` is false of the empty string
  have hdigit := h.1
  rw [hnil] at hdigit
  exact absurd hdigit (by decide)

theorem IsComponent.slash_notMem (h : IsComponent part) : slash ∉ part := by
  obtain ⟨digits, marker, rfl, -, hdigits, -, hmarker⟩ := h
  rw [List.mem_append, not_or]
  refine ⟨fun hmem => absurd (hdigits _ hmem) (by decide), ?_⟩
  rcases hmarker with rfl | rfl | rfl <;> decide

end Component

/-- A text behind `m/` is in the grammar when its pieces are components. -/
theorem grammar_iff {t : PyStr} (h : t.take 2 = PyStr.ofString "m/") :
    Grammar t ↔ ∀ part ∈ (t.drop 2).splitOn slash, IsComponent part := by
  have ht : t = PyStr.ofString "m/" ++ t.drop 2 := by rw [← h, List.take_append_drop]
  refine ⟨?_, ?_⟩
  · rintro (rfl | rfl | ⟨parts, hne, hparts, heq⟩)
    · cases h
    · exact absurd h (by decide)
    · -- no component has a slash, so cutting gives the components back
      have hdrop : t.drop 2 = Text.join slash parts := by rw [heq]; rfl
      rw [hdrop, Text.join, List.splitOn_intercalate slash
        (fun part hpart => (hparts part hpart).slash_notMem) hne]
      exact hparts
  · intro hparts
    refine .inr (.inr ⟨_, List.splitOn_ne_nil _ _, hparts, ?_⟩)
    rw [Text.join, List.intercalate_splitOn]
    exact ht

theorem not_grammar {t : PyStr} (part : PyStr) (h : t.take 2 = PyStr.ofString "m/")
    (hpart : part ∈ (t.drop 2).splitOn slash) (hplain : ¬ Plain part) : ¬ Grammar t := by
  intro hgrammar
  exact hplain (isComponent_iff.mp ((grammar_iff h).mp hgrammar part hpart)).1

/-! ### Whole texts -/

/-- The pieces between the slashes of a text behind `m/`. -/
def pieces (s : PyStr) : List PyStr := (s.strip.drop 2).splitOn slash

/-- The texts on which `parse` keeps to its grammar and to its own error. Of a text behind `m/`,
the first piece that is not `Readable` is not `Misread`, and where all are `Readable` they are
`Plain`. -/
def Regular (s : PyStr) : Prop :=
  s.strip.take 2 = PyStr.ofString "m/" →
    (∀ front part back, pieces s = front ++ part :: back → (∀ p ∈ front, Readable p) →
      ¬ Misread part) ∧
    ((∀ part ∈ pieces s, Readable part) → ∀ part ∈ pieces s, Plain part)

section Parse

variable {s : PyStr}

theorem parse_of_root (h : s.strip = [] ∨ s.strip = PyStr.ofString "m") :
    parse s = .ok ⟨[]⟩ := by
  unfold parse
  dsimp only
  rw [if_pos h]
  rfl

/-- Behind `m/`, `parse` is the loop over the pieces. -/
theorem parse_eq_loop (h : s.strip.take 2 = PyStr.ofString "m/") :
    parse s = (pieces s).mapM parseComponent >>= fun out => .ok ⟨out⟩ := by
  -- a text that starts with `m/` is neither of the two
  have hroot : ¬ (s.strip = [] ∨ s.strip = PyStr.ofString "m") := by
    rintro (hs | hs)
    · rw [hs] at h
      cases h
    · rw [hs] at h
      exact absurd h (by decide)
  unfold parse
  dsimp only
  rw [if_neg hroot, raiseIf_neg (not_not.mpr h)]
  rfl

/-- Any other text is refused. -/
theorem parse_refused (h₁ : ¬ (s.strip = [] ∨ s.strip = PyStr.ofString "m"))
    (h₂ : s.strip.take 2 ≠ PyStr.ofString "m/") :
    parse s = .error ⟨.invalidDerivationPathError,
      [.lit "path must start with 'm/', got ", .repr s.strip]⟩ := by
  unfold parse
  dsimp only
  rw [if_neg h₁, raiseIf_pos h₂]
  rfl

section Start

variable (hstart : s.strip.take 2 = PyStr.ofString "m/")
include hstart

theorem exists_parse_iff : (∃ path, parse s = .ok path) ↔ ∀ part ∈ pieces s, Readable part := by
  rw [parse_eq_loop hstart]
  -- the loop returns if and only if all turns do, and wrapping the list up cannot fail
  simp only [← exists_parseComponent_iff, ← Effect.exists_mapM_eq_ok_iff]
  refine ⟨?_, ?_⟩
  · rintro ⟨path, h⟩
    obtain ⟨out, hout, -⟩ := Effect.bind_eq_ok_iff.mp h
    exact ⟨out, hout⟩
  · rintro ⟨out, hout⟩
    exact ⟨⟨out⟩, by rw [hout]; rfl⟩

/-- What `parse` raises is what the loop raises on the first piece it does not collect. -/
theorem parse_eq_error_iff {e : PyExc} :
    parse s = .error e ↔ ∃ front part back, pieces s = front ++ part :: back ∧
      (∀ p ∈ front, Readable p) ∧ parseComponent part = .error e := by
  rw [parse_eq_loop hstart, Effect.bind_eq_error_iff, Effect.mapM_eq_error_iff]
  simp only [exists_parseComponent_iff]
  -- wrapping the list up raises nothing
  refine ⟨?_, Or.inl⟩
  rintro (h | ⟨out, -, h⟩)
  · exact h
  · cases h

/-- Every rejection is the error of the module when no `Misread` piece comes first. -/
theorem types_iff :
    (∀ e, parse s = .error e → e.type = .invalidDerivationPathError) ↔
      ∀ front part back, pieces s = front ++ part :: back → (∀ p ∈ front, Readable p) →
        ¬ Misread part := by
  simp only [parse_eq_error_iff hstart]
  refine ⟨?_, ?_⟩
  · intro h front part back hpieces hfront hmis
    obtain ⟨e, he, -⟩ := parseComponent_of_misread hmis
    exact (type_of_parseComponent he).mp (h e ⟨front, part, back, hpieces, hfront, he⟩) hmis
  · rintro h e ⟨front, part, back, hpieces, hfront, he⟩
    exact (type_of_parseComponent he).mpr (h front part back hpieces hfront)

/-- Only the grammar is accepted when the pieces of an accepted text are plain. -/
theorem accepts_iff :
    (∀ path, parse s = .ok path → Grammar s.strip) ↔
      ((∀ part ∈ pieces s, Readable part) → ∀ part ∈ pieces s, Plain part) := by
  rw [← forall_exists_index (p := fun path => parse s = .ok path)
    (q := fun _ => Grammar s.strip), exists_parse_iff hstart, grammar_iff hstart]
  -- pieces that are collected differ from components in being plain only
  refine forall_congr' fun hread => forall₂_congr fun part hpart => ?_
  exact (hread part hpart).isComponent_iff

end Start

end Parse

/-- `parse` accepts `s` only in the grammar, and rejects it only with its own error. -/
def Strict (s : PyStr) : Prop :=
  (∀ path, parse s = .ok path → Grammar s.strip) ∧
    ∀ e, parse s = .error e → e.type = .invalidDerivationPathError

/-- Of a text outside the grammar, `parse` raises its own error. -/
def RefusesOutside (s : PyStr) : Prop :=
  ¬ Grammar s.strip → ∃ e, parse s = .error e ∧ e.type = .invalidDerivationPathError

theorem strict_iff_regular (s : PyStr) : Strict s ↔ Regular s := by
  by_cases hstart : s.strip.take 2 = PyStr.ofString "m/"
  · rw [Strict, accepts_iff hstart, types_iff hstart, and_comm]
    exact ⟨fun h _ => h, fun h => h hstart⟩
  -- without `m/` in front every text is regular, and `parse` decides at once
  · refine iff_of_true ?_ fun h => absurd h hstart
    by_cases hroot : s.strip = [] ∨ s.strip = PyStr.ofString "m"
    · refine ⟨fun _ _ => hroot.imp_right Or.inl, ?_⟩
      intro e he
      rw [parse_of_root hroot] at he
      cases he
    · refine ⟨?_, ?_⟩
      · intro path hpath
        rw [parse_refused hroot hstart] at hpath
        cases hpath
      · intro e he
        rw [parse_refused hroot hstart] at he
        cases he
        rfl

/-- **What `parse` makes of every text.** It keeps to its grammar and to its own error on exactly
the `Regular` texts. On a text of the grammar nothing outside is at stake, and on any other one the
promise comes to the same condition. -/
theorem parse_strict_iff (s : PyStr) :
    (Strict s ↔ Regular s) ∧
      ((∀ path, parse s = .ok path → Grammar s.strip) ∧ RefusesOutside s ↔
        Grammar s.strip ∨ Regular s) := by
  refine ⟨strict_iff_regular s, ?_⟩
  rw [← strict_iff_regular]
  by_cases hgrammar : Grammar s.strip
  · exact iff_of_true ⟨fun _ _ => hgrammar, fun h => absurd hgrammar h⟩ (.inl hgrammar)
  · rw [or_iff_right hgrammar]
    refine ⟨?_, ?_⟩
    · rintro ⟨haccepts, hrefuses⟩
      obtain ⟨e, he, htype⟩ := hrefuses hgrammar
      refine ⟨haccepts, fun e' he' => ?_⟩
      cases he.symm.trans he'
      exact htype
    · rintro ⟨haccepts, htypes⟩
      refine ⟨haccepts, fun _ => ?_⟩
      -- it does not return, since what it accepts is in the grammar
      cases hparse : parse s with
      | ok path => exact absurd (haccepts path hparse) hgrammar
      | error e => exact ⟨e, rfl, htypes e hparse⟩

/-- **Strays.** A second marker and a digit of another script are read as path components, and a
superscript digit ends in a `ValueError`; none of these texts is in the grammar. -/
theorem parse_strays :
    parse (PyStr.ofString "m/0''") = .ok ⟨[(0, true)]⟩ ∧
    ¬ Grammar (PyStr.ofString "m/0''").strip ∧
    parse (PyStr.ofString "m/٣") = .ok ⟨[(3, false)]⟩ ∧
    ¬ Grammar (PyStr.ofString "m/٣").strip ∧
    (∃ e, parse (PyStr.ofString "m/²") = .error e ∧ e.type = .valueError) ∧
    ¬ Grammar (PyStr.ofString "m/²").strip := by
  refine ⟨by decide, ?_, by decide, ?_, ⟨_, rfl, rfl⟩, ?_⟩
  · exact not_grammar (PyStr.ofString "0''") (by decide) (by decide) (by decide)
  · exact not_grammar (PyStr.ofString "٣") (by decide) (by decide) (by decide)
  · exact not_grammar (PyStr.ofString "²") (by decide) (by decide) (by decide)

/-! ### Written paths -/

/-- The two ways to mark a hardened component. -/
inductive Marker
  | apostrophe
  | h
  deriving DecidableEq, Repr

def Marker.char : Marker → CodePoint
  | .apostrophe => DerivationPath.apostrophe
  | .h => CodePoint.ofChar 'h'

/-- A component as it is written: an index in range, and a marker for when it is hardened. -/
structure Component where
  index : ℤ
  hardened : Bool
  marker : Marker
  nonneg : 0 ≤ index
  le_max : index ≤ 0x7FFFFFFF

namespace Component

/-- What `parse` is to read. -/
def pair (c : Component) : ℤ × Bool := (c.index, c.hardened)

/-- `str(index)`. -/
def digits (c : Component) : PyStr := PyStr.ofString (toString c.index)

def suffix (c : Component) : PyStr := if c.hardened then [c.marker.char] else []

/-- The index in decimal, and the marker of a hardened component. -/
def write (c : Component) : PyStr := c.digits ++ c.suffix

end Component

/-- The text of a path: `m`, and every component behind a slash. -/
def write (path : List Component) : PyStr :=
  PyStr.ofString "m" ++ path.flatMap fun c => slash :: c.write

theorem isAsciiDigit_ofChar {c : Char} (h : c.isDigit = true) :
    (CodePoint.ofChar c).isAsciiDigit = true := by
  simp only [Char.isDigit, Bool.and_eq_true, decide_eq_true_eq, ge_iff_le,
    UInt32.le_iff_toNat_le] at h
  unfold CodePoint.isAsciiDigit
  rw [Bool.and_eq_true]
  exact ⟨decide_eq_true h.1, decide_eq_true h.2⟩

/-- Reading the decimal digits of a number gives the number. -/
theorem asciiValue_toDigits (n : ℕ) :
    asciiValue ((Nat.toDigits 10 n).map CodePoint.ofChar) = n := by
  calc asciiValue ((Nat.toDigits 10 n).map CodePoint.ofChar)
      = Nat.ofDigitChars 10 (Nat.toDigits 10 n) 0 := by
        rw [asciiValue, List.foldl_map, Nat.ofDigitChars_eq_foldl]
        rfl
    _ = n := Nat.ofDigitChars_ten_toDigits

namespace Component

variable (c : Component)

theorem digits_eq : c.digits = (Nat.toDigits 10 c.index.toNat).map CodePoint.ofChar := by
  obtain ⟨n, hn⟩ := Int.eq_ofNat_of_zero_le c.nonneg
  rw [digits, hn, Int.toNat_natCast]
  exact congrArg (List.map CodePoint.ofChar) Nat.toList_repr

theorem isAsciiDigit_of_mem {d : CodePoint} (h : d ∈ c.digits) : d.isAsciiDigit = true := by
  rw [digits_eq] at h
  obtain ⟨ch, hch, rfl⟩ := List.mem_map.mp h
  exact isAsciiDigit_ofChar (Nat.isDigit_of_mem_toDigits (by decide) (by decide) hch)

theorem asciiValue_digits : asciiValue c.digits = c.index.toNat := by
  rw [digits_eq, asciiValue_toDigits]

theorem digits_ne_nil : c.digits ≠ [] := by
  rw [digits_eq]
  exact fun h => Nat.toDigits_ne_nil (List.map_eq_nil_iff.mp h)

theorem length_digits_le : c.digits.length ≤ 10 := by
  have hle := c.le_max
  rw [digits_eq, List.length_map]
  -- a number below `2 ^ 31` has ten digits at most, far from the limit of `int`
  exact (Nat.length_toDigits_le_iff (by decide) (by decide)).mpr (by omega)

theorem isComponent_write : IsComponent c.write := by
  have hle := c.le_max
  refine ⟨c.digits, c.suffix, rfl, c.digits_ne_nil, fun _ => c.isAsciiDigit_of_mem, ?_, ?_⟩
  · rw [asciiValue_digits]
    omega
  · cases hhard : c.hardened <;> cases hmark : c.marker <;>
      simp [suffix, hhard, hmark, Marker.char]

theorem isMarker_of_mem_suffix {d : CodePoint} (h : d ∈ c.suffix) : isMarker d = true := by
  unfold suffix at h
  split at h
  · rw [List.mem_singleton.mp h]
    cases c.marker <;> rfl
  · cases h

theorem body_write : body c.write = c.digits :=
  body_append (fun _ => c.isAsciiDigit_of_mem) fun _ => c.isMarker_of_mem_suffix

/-- The last character tells whether the component is hardened. -/
theorem getLast_write : c.write.getLast?.any isMarker = c.hardened := by
  unfold write suffix
  cases hhard : c.hardened
  · -- the last character is a digit
    have hlast := List.getLast?_eq_some_getLast c.digits_ne_nil
    have hdigit := c.isAsciiDigit_of_mem (List.getLast_mem c.digits_ne_nil)
    rw [if_neg Bool.false_ne_true, List.append_nil, hlast, Option.any_some,
      isMarker_of_isAsciiDigit hdigit]
  · rw [if_pos rfl, List.getLast?_concat, Option.any_some]
    cases c.marker <;> rfl

theorem parseComponent_write : parseComponent c.write = .ok c.pair := by
  have hlen := c.length_digits_le
  -- a written component is collected, with its index and its mark
  have hread := c.isComponent_write.readable (by rw [body_write]; omega)
  have hvalue : ((body c.write).decimalValue : ℤ) = c.index := by
    rw [body_write, decimalValue_of_ascii fun _ => c.isAsciiDigit_of_mem, asciiValue_digits,
      Int.toNat_of_nonneg c.nonneg]
  rw [parseComponent_of_readable hread, hvalue, getLast_write]
  rfl

end Component

theorem isSpace_of_isAsciiDigit {c : CodePoint} (h : c.isAsciiDigit = true) :
    c.isSpace = false := by
  unfold CodePoint.isAsciiDigit at h
  unfold CodePoint.isSpace
  simp at h ⊢
  omega

/-- A written path has no blanks. -/
theorem isSpace_of_mem_write {path : List Component} {d : CodePoint} (h : d ∈ write path) :
    d.isSpace = false := by
  rcases List.mem_append.mp h with h | h
  · cases List.mem_singleton.mp (show d ∈ [CodePoint.ofChar 'm'] from h)
    rfl
  · obtain ⟨c, -, hd⟩ := List.mem_flatMap.mp h
    rcases List.mem_cons.mp hd with rfl | hd
    · rfl
    · rcases List.mem_append.mp hd with hd | hd
      · exact isSpace_of_isAsciiDigit (c.isAsciiDigit_of_mem hd)
      · rcases isMarker_iff.mp (c.isMarker_of_mem_suffix hd) with rfl | rfl <;> rfl

theorem write_cons (c : Component) (path : List Component) :
    write (c :: path)
      = PyStr.ofString "m/" ++ Text.join slash ((c :: path).map Component.write) := by
  -- slashes in front of the components are slashes between them, after the first
  have hjoin := Text.flatMap_sep_eq slash c.write (path.map Component.write)
  rw [← List.map_cons, List.flatMap_map] at hjoin
  rw [write, hjoin]
  rfl

/-- The pieces of a written path are its written components. -/
theorem pieces_write {s : PyStr} {c : Component} {path : List Component}
    (h : s.strip = write (c :: path)) : pieces s = (c :: path).map Component.write := by
  have hdrop : (write (c :: path)).drop 2
      = Text.join slash ((c :: path).map Component.write) := by
    rw [write_cons]
    rfl
  rw [pieces, h, hdrop, Text.join]
  refine List.splitOn_intercalate slash ?_ (List.cons_ne_nil _ _)
  intro part hpart
  obtain ⟨c', -, rfl⟩ := List.mem_map.mp hpart
  exact c'.isComponent_write.slash_notMem

/-- **Reading a written path back.** Whatever the components, their markers and the blanks around
the text, `parse` returns the components in order. -/
theorem parse_write (path : List Component) (before after : PyStr)
    (hbefore : ∀ c ∈ before, c.isSpace = true) (hafter : ∀ c ∈ after, c.isSpace = true) :
    parse (before ++ (write path ++ after)) = .ok ⟨path.map Component.pair⟩ := by
  -- a written path starts and ends with no blank, so `strip` takes off what surrounds it
  have hstrip : PyStr.strip (before ++ (write path ++ after)) = write path :=
    Text.strip_append hbefore (fun _ h => isSpace_of_mem_write (List.mem_of_head? h))
      (fun _ h => isSpace_of_mem_write (List.mem_of_getLast? h)) hafter
  cases path with
  | nil => exact parse_of_root (.inr hstrip)
  | cons c path =>
    have hstart : (write (c :: path)).take 2 = PyStr.ofString "m/" := by
      rw [write_cons]
      rfl
    rw [parse_eq_loop (by rw [hstrip]; exact hstart), pieces_write hstrip, List.mapM_map,
      Effect.mapM_eq_ok_map fun c' _ => c'.parseComponent_write]
    rfl

/-- The largest index, and both markers, between a space and a line feed. -/
theorem parse_write_largest :
    parse (PyStr.ofString " m/44'/0h/2147483647\n")
      = .ok ⟨[(44, true), (0, true), (2147483647, false)]⟩ := by
  have htext : PyStr.ofString " m/44'/0h/2147483647\n" = [CodePoint.space] ++
      (write [⟨44, true, .apostrophe, by decide, by decide⟩, ⟨0, true, .h, by decide, by decide⟩,
        ⟨2147483647, false, .h, by decide, by decide⟩] ++ [CodePoint.ofChar '\n']) := by
    decide
  rw [htext]
  exact parse_write _ _ _ (List.forall_mem_singleton.mpr rfl) (List.forall_mem_singleton.mpr rfl)

end DerivationPath

end KeystoneCrypto
