import Bnf.Proofs.Nesting

/-!
# Enclosing parentheses

A text is nested if it closes only parentheses that it has opened, and closes them all.
`interior_eq_some_iff` says that a text is enclosed by a pair of parentheses exactly if a nested
text stands between them. Cutting and stripping keep a text nested, so that what is enclosed can be
taken apart into nested pieces again, and a nested text between parentheses is a token by itself.
-/

namespace Bnf.Nesting

variable {separates : Char → Bool}

/-! ## Nested texts -/

/-- A text that starts at this depth and never comes to a negative one. -/
def NeverNegative (depth : Int) (text : List Char) : Prop :=
  ∀ before, before <+: text → 0 ≤ depth + balance before

/-- A text that closes only parentheses that it has opened, and closes them all. -/
structure Nested (text : List Char) : Prop where
  prefix_nonneg : ∀ before, before <+: text → 0 ≤ balance before
  balanced : balance text = 0

/-- A text is never at a negative depth if it does not start at one and its rest never comes to
one. -/
theorem never_negative_cons {depth : Int} {c : Char} {rest : List Char} :
    NeverNegative depth (c :: rest) ↔ 0 ≤ depth ∧ NeverNegative (step depth c) rest := by
  constructor
  · intro h
    constructor
    · simpa using h [] List.nil_prefix
    · intro before hbefore
      have hle := h (c :: before) (List.cons_prefix_cons.2 ⟨rfl, hbefore⟩)
      rw [step_eq_add]
      rw [balance_cons] at hle
      omega
  · rintro ⟨hdepth, hrest⟩ before hbefore
    cases before with
    | nil => simpa using hdepth
    | cons b before =>
        obtain ⟨rfl, hprefix⟩ := List.cons_prefix_cons.1 hbefore
        have hle := hrest before hprefix
        rw [step_eq_add] at hle
        rw [balance_cons]
        omega

/-- Of two texts in a row, the second starts at the depth after the first. -/
theorem never_negative_append {depth : Int} {first second : List Char} :
    NeverNegative depth (first ++ second) ↔
      NeverNegative depth first ∧ NeverNegative (depth + balance first) second := by
  induction first generalizing depth with
  | nil =>
      have hnil : NeverNegative depth second → 0 ≤ depth := fun h => by
        simpa using h [] List.nil_prefix
      constructor
      · intro h
        refine ⟨fun before hbefore => ?_, by simpa using h⟩
        rw [List.prefix_nil.1 hbefore]
        simpa using hnil h
      · intro h
        simpa using h.2
  | cons c rest ih =>
      rw [List.cons_append, never_negative_cons, ih, never_negative_cons, balance_cons, step_eq_add,
        and_assoc, Int.add_assoc]

/-- Nesting is never to come below the depth of the start, and to come back to it. -/
theorem nested_iff {text : List Char} :
    Nested text ↔ NeverNegative 0 text ∧ balance text = 0 := by
  constructor
  · intro h
    exact ⟨fun before hbefore => by simpa using h.prefix_nonneg before hbefore, h.balanced⟩
  · rintro ⟨hnonneg, hbalance⟩
    exact ⟨fun before hbefore => by simpa using hnonneg before hbefore, hbalance⟩

theorem nested_nil : Nested [] :=
  ⟨fun before hbefore => by rw [List.prefix_nil.1 hbefore]; exact Int.le_refl 0, rfl⟩

/-- A nested text in front of another leaves the depths of the other as they are. -/
theorem Nested.append {first second : List Char} (hfirst : Nested first) (hsecond : Nested second) :
    Nested (first ++ second) := by
  rw [nested_iff] at hfirst hsecond ⊢
  rw [never_negative_append, balance_append, hfirst.2]
  exact ⟨⟨hfirst.1, hsecond.1⟩, by simpa using hsecond.2⟩

/-- Nested texts with a nested text between them are nested. -/
theorem nested_intercalate {separator : List Char} (hseparator : Nested separator)
    {pieces : List (List Char)} (h : ∀ piece ∈ pieces, Nested piece) :
    Nested (separator.intercalate pieces) := by
  induction pieces with
  | nil => exact nested_nil
  | cons piece rest ih =>
      have hpiece := h piece List.mem_cons_self
      cases rest with
      | nil => rwa [List.intercalate_singleton]
      | cons next more =>
          rw [List.intercalate_cons_cons]
          exact (hpiece.append hseparator).append (ih fun p hp => h p (List.mem_cons_of_mem _ hp))

/-- A text without parentheses is nested. -/
theorem nested_of_forall {text : List Char} (h : ∀ c ∈ text, c ≠ '(' ∧ c ≠ ')') : Nested text := by
  induction text with
  | nil => exact nested_nil
  | cons c rest ih =>
      have hrest := nested_iff.1 (ih fun d hd => h d (List.mem_cons_of_mem _ hd))
      obtain ⟨hopen, hclose⟩ := h c List.mem_cons_self
      rw [nested_iff, never_negative_cons, balance_cons, step_of_ne hopen hclose]
      exact ⟨⟨Int.le_refl 0, hrest.1⟩, by simpa using hrest.2⟩

theorem nested_blank : Nested [' '] :=
  nested_of_forall (List.forall_mem_singleton.2 (by decide))

/-- A nested text stays nested between blanks. -/
theorem Nested.between_blanks {text : List Char} (h : Nested text) :
    Nested ([' '] ++ text ++ [' ']) :=
  (nested_blank.append h).append nested_blank

/-- A nested text stays nested between parentheses. -/
theorem Nested.enclose {text : List Char} (h : Nested text) : Nested ('(' :: (text ++ [')'])) := by
  obtain ⟨hnonneg, hbalance⟩ := nested_iff.1 h
  rw [nested_iff, never_negative_cons, never_negative_append, balance_cons, balance_append,
    hbalance]
  refine ⟨⟨Int.le_refl 0, fun before hbefore => ?_, fun before hbefore => ?_⟩, rfl⟩
  · have hle := hnonneg before hbefore
    simp only [step_open]
    omega
  · rcases before with _ | ⟨c, before⟩
    · simp
    · obtain ⟨rfl, hnil⟩ := List.cons_prefix_cons.1 hbefore
      rw [List.prefix_nil.1 hnil]
      simp

/-! ## Enclosed texts -/

/-- The depth comes to zero for the first time after the last character exactly if that character
closes what stood open and all before it is closed again. -/
theorem closesAtEnd_iff {depth : Int} (hdepth : 0 ≤ depth) {text : List Char} :
    closesAtEnd (depth + 1) text = true ↔
      ∃ inside, text = inside ++ [')'] ∧ NeverNegative depth inside ∧
        depth + balance inside = 0 := by
  induction text generalizing depth with
  | nil => simp [closesAtEnd]
  | cons c rest ih =>
      have hstep : step (depth + 1) c = step depth c + 1 := by
        rw [step_eq_add, step_eq_add depth]
        omega
      rw [closesAtEnd]
      split
      · -- The depth comes to zero here, so the text has to end here.
        rename_i hzero
        obtain rfl : c = ')' := eq_close_of_step_lt (by omega : step (depth + 1) c < depth + 1)
        rw [step_close] at hzero
        constructor
        · intro hempty
          refine ⟨[], by simpa using hempty, fun before hbefore => ?_, by simp; omega⟩
          rw [List.prefix_nil.1 hbefore]
          simpa using hdepth
        · rintro ⟨inside, hrest, hnonneg, -⟩
          cases inside with
          | nil =>
              rw [(List.cons.inj hrest).2]
              rfl
          | cons b inside =>
              obtain ⟨rfl, -⟩ := List.cons.inj hrest
              have hle := hnonneg [')'] ⟨inside, rfl⟩
              simp at hle
              omega
      · -- One parenthesis stays open behind `c`, and the rest has to close it.
        rename_i hnonzero
        have hdeeper : 0 ≤ step depth c := by
          have hle := sub_one_le_step depth c
          omega
        rw [hstep, ih hdeeper]
        constructor
        · rintro ⟨inside, rfl, hnonneg, hbalance⟩
          refine ⟨c :: inside, rfl, never_negative_cons.2 ⟨hdepth, hnonneg⟩, ?_⟩
          rw [balance_cons, ← Int.add_assoc, ← step_eq_add]
          exact hbalance
        · rintro ⟨inside, htext, hnonneg, hbalance⟩
          cases inside with
          | nil =>
              obtain ⟨rfl, -⟩ := List.cons.inj htext
              rw [step_close] at hnonzero
              simp at hbalance
              omega
          | cons b inside =>
              obtain ⟨rfl, hrest⟩ := List.cons.inj htext
              rw [balance_cons, ← Int.add_assoc, ← step_eq_add] at hbalance
              exact ⟨inside, hrest, (never_negative_cons.1 hnonneg).2, hbalance⟩

/-- A text is enclosed by a pair of parentheses exactly if it is written between them and what
stands between them is nested. -/
theorem interior_eq_some_iff {text inside : List Char} :
    interior? text = some inside ↔ text = '(' :: (inside ++ [')']) ∧ Nested inside := by
  rw [nested_iff]
  cases text with
  | nil => simp [interior?]
  | cons c rest =>
      have hcloses : closesAtEnd (0 + 1) rest = true ↔ _ := closesAtEnd_iff (Int.le_refl 0)
      rw [Int.zero_add] at hcloses
      rw [interior?]
      constructor
      · intro h
        split at h
        · rename_i hc
          obtain ⟨body, rfl, hnonneg, hbalance⟩ := hcloses.1 hc.2
          rw [List.dropLast_concat] at h
          cases h
          exact ⟨by rw [hc.1], hnonneg, by simpa using hbalance⟩
        · cases h
      · rintro ⟨htext, hnonneg, hbalance⟩
        obtain ⟨rfl, rfl⟩ := List.cons.inj htext
        rw [if_pos ⟨rfl, hcloses.2 ⟨inside, rfl, hnonneg, by simpa using hbalance⟩⟩,
          List.dropLast_concat]

/-! ## Pieces of nested texts -/

/-- The pieces of a cut through a nested text are nested. -/
theorem nested_of_mem_cut (hflat : Flat separates) {text piece : List Char} (htext : Nested text)
    (h : piece ∈ cut separates 0 text) : Nested piece := by
  obtain ⟨before, after, rfl, hbefore, -, hafter⟩ := place_of_mem_cut hflat h
  rw [nested_iff, never_negative_append, never_negative_append, balance_append, balance_append,
    hbefore, Int.zero_add] at htext
  rw [nested_iff]
  refine ⟨htext.1.2.1, ?_⟩
  rcases hafter with rfl | hbalance
  · simpa using htext.2
  · exact hbalance

/-- Stripping keeps a text nested. -/
theorem Nested.strip {text : List Char} (h : Nested text) : Nested (Text.strip text) := by
  obtain ⟨front, back, htext, hfront, -⟩ := Text.strip_decomposition text
  refine nested_iff.2 ⟨?_, (balance_strip text).trans h.balanced⟩
  have hnonneg := (nested_iff.1 h).1
  rw [htext, never_negative_append, balance_of_blank hfront, never_negative_append] at hnonneg
  exact hnonneg.2.1

/-- The alternatives of a nested text are nested. -/
theorem nested_of_mem_alternatives {text piece : List Char} (htext : Nested text)
    (h : piece ∈ alternatives text) : Nested piece := by
  rw [alternatives, List.mem_map] at h
  obtain ⟨raw, hraw, rfl⟩ := h
  exact (nested_of_mem_cut flat_bar htext hraw).strip

/-- The tokens of a nested text are nested. -/
theorem nested_of_mem_tokens {text token : List Char} (htext : Nested text)
    (h : token ∈ tokens text) : Nested token :=
  nested_of_mem_cut flat_blank htext (List.mem_filter.1 h).1

/-- What a group among the tokens of an alternative holds is shorter than the whole text. -/
theorem length_lt_of_group {text alternative inside mark : List Char}
    (halternative : alternative ∈ alternatives text)
    (htoken : '(' :: (inside ++ [')']) ++ mark ∈ tokens alternative) :
    inside.length < text.length := by
  have halternative := length_le_of_mem_alternatives halternative
  have htoken := length_le_of_mem_tokens htoken
  simp only [List.cons_append, List.length_cons, List.length_append] at htoken
  omega

/-! ## Tokens by themselves -/

/-- What a token of an alternative looks like by itself. -/
structure IsToken (token : List Char) : Prop where
  ne_nil : token ≠ []
  stripped : Text.Stripped token
  unbroken_blank : Unbroken Text.isBlank 0 token
  unbroken_bar : Unbroken (· == '|') 0 token

/-- The tokens of a stripped text without a bar of depth zero. -/
theorem is_token_of_mem_tokens {text token : List Char} (hstripped : Text.Stripped text)
    (hbar : Unbroken (· == '|') 0 text) (h : token ∈ tokens text) : IsToken token where
  ne_nil := ne_nil_of_mem_tokens h
  stripped := ⟨(unbroken_of_mem_tokens h).head_not_blank,
    last_not_blank_of_mem_tokens hstripped.last_not_blank h⟩
  unbroken_blank := unbroken_of_mem_tokens h
  unbroken_bar := unbroken_bar_of_mem_tokens hbar h

/-- A nested text between parentheses has no separator of depth zero, and none comes with a mark
behind it that holds no separator. -/
theorem Nested.unbroken_enclose (hflat : Flat separates) {inside mark : List Char}
    (h : Nested inside) (hmark : ∀ c ∈ mark, separates c = false) :
    Unbroken separates 0 ('(' :: (inside ++ [')']) ++ mark) := by
  have hnot : ∀ c, c = '(' ∨ c = ')' → separates c ≠ true := by
    rintro c (rfl | rfl) hc
    · exact (hflat _ hc).1 rfl
    · exact (hflat _ hc).2 rfl
  rw [unbroken_append, unbroken_cons, unbroken_append, unbroken_cons]
  refine ⟨⟨fun hopen => hnot '(' (.inl rfl) hopen.2, ?_, fun hclose => hnot ')' (.inr rfl) hclose.2,
    unbroken_nil _⟩, ?_⟩
  · intro before c after htext _
    have hle := h.prefix_nonneg before ⟨c :: after, htext.symm⟩
    rw [step_open]
    omega
  · intro before c after htext hc
    have hfalse := hmark c (by rw [htext]; simp)
    rw [hfalse] at hc
    cases hc

/-- A nested text between parentheses is a token, also with a mark behind it that holds neither
blanks nor bars. -/
theorem Nested.is_token_enclose {inside mark : List Char} (h : Nested inside)
    (hmark : ∀ c ∈ mark, Text.isBlank c = false ∧ (c == '|') = false) :
    IsToken ('(' :: (inside ++ [')']) ++ mark) where
  ne_nil := by simp
  stripped := by
    constructor
    · intro c hc
      cases hc
      rfl
    · intro c hc
      rw [List.getLast?_append] at hc
      cases hlast : mark.getLast? with
      | none =>
          rw [hlast, Option.none_or, ← List.cons_append, List.getLast?_concat] at hc
          cases hc
          rfl
      | some d =>
          rw [hlast, Option.some_or] at hc
          cases hc
          exact (hmark c (List.mem_of_getLast? hlast)).1
  unbroken_blank := h.unbroken_enclose flat_blank fun c hc => (hmark c hc).1
  unbroken_bar := h.unbroken_enclose flat_bar fun c hc => (hmark c hc).2

end Bnf.Nesting
