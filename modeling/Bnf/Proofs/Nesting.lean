import Bnf.Nesting
import Bnf.Proofs.Strip

/-!
# Balance and cuts

What a cut at the separators of depth zero does to a text, however badly its parentheses are
balanced. Read `cut_append` first: at a balanced place a cut falls apart into the cuts of the two
sides, so that no side sees the depth of the other. `cut_induction` is the induction that follows
from it, and everything about `alternatives` and `tokens` is proved by that induction.
-/

namespace Bnf.Nesting

/-! ## Balance -/

/-- A character moves the depth by an amount that does not depend on the depth. -/
theorem step_eq_add (depth : Int) (c : Char) : step depth c = depth + step 0 c := by
  unfold step
  split
  · omega
  · split <;> omega

/-- Only parentheses move the depth. -/
theorem step_of_ne {c : Char} (hopen : c ≠ '(') (hclose : c ≠ ')') (depth : Int) :
    step depth c = depth := by
  rw [step, if_neg hopen, if_neg hclose]

@[simp]
theorem step_open (depth : Int) : step depth '(' = depth + 1 := rfl

@[simp]
theorem step_close (depth : Int) : step depth ')' = depth - 1 := rfl

/-- A character closes one parenthesis at most. -/
theorem sub_one_le_step (depth : Int) (c : Char) : depth - 1 ≤ step depth c := by
  unfold step
  split
  · omega
  · split <;> omega

/-- Only a closing parenthesis makes the depth less. -/
theorem eq_close_of_step_lt {depth : Int} {c : Char} (h : step depth c < depth) : c = ')' := by
  by_contra hne
  have hle : depth ≤ step depth c := by
    rw [step, if_neg hne]
    split <;> omega
  omega

/-- The depth after a text is the depth before it and its balance. -/
theorem foldl_step (depth : Int) (text : List Char) :
    text.foldl step depth = depth + balance text := by
  induction text generalizing depth with
  | nil => simp [balance]
  | cons c rest ih =>
      rw [balance, List.foldl_cons, List.foldl_cons, ih, ih (step 0 c), step_eq_add depth c]
      omega

@[simp]
theorem balance_nil : balance [] = 0 := rfl

@[simp]
theorem balance_cons (c : Char) (rest : List Char) :
    balance (c :: rest) = step 0 c + balance rest := by
  rw [balance, List.foldl_cons, foldl_step]

@[simp]
theorem balance_append (first second : List Char) :
    balance (first ++ second) = balance first + balance second := by
  induction first with
  | nil => simp
  | cons c rest ih =>
      rw [List.cons_append, balance_cons, balance_cons, ih]
      omega

/-- A balanced text between the pieces does not change their balance. -/
theorem balance_intercalate {separator : List Char} (h : balance separator = 0)
    (pieces : List (List Char)) :
    balance (separator.intercalate pieces) = balance pieces.flatten := by
  induction pieces with
  | nil => rfl
  | cons piece rest ih =>
      cases rest with
      | nil => simp
      | cons next more =>
          rw [List.intercalate_cons_cons, List.flatten_cons, balance_append, balance_append,
            balance_append, ih, h]
          omega

/-- The separators of a cut are no parentheses. -/
def Flat (separates : Char → Bool) : Prop :=
  ∀ c, separates c = true → c ≠ '(' ∧ c ≠ ')'

theorem flat_bar : Flat (· == '|') := by
  intro c hc
  rw [beq_iff_eq] at hc
  subst hc
  exact ⟨by decide, by decide⟩

theorem flat_blank : Flat Text.isBlank := by
  intro c hc
  constructor
  · rintro rfl
    exact absurd hc (by decide)
  · rintro rfl
    exact absurd hc (by decide)

/-- A separator does not move the depth. -/
theorem Flat.step_eq {separates : Char → Bool} (hflat : Flat separates) {c : Char}
    (hc : separates c = true) (depth : Int) : step depth c = depth :=
  step_of_ne (hflat c hc).1 (hflat c hc).2 depth

/-- Blanks do not count for the balance. -/
theorem balance_of_blank {text : List Char} (h : ∀ c ∈ text, Text.isBlank c = true) :
    balance text = 0 := by
  induction text with
  | nil => rfl
  | cons c rest ih =>
      rw [balance_cons, flat_blank.step_eq (h c List.mem_cons_self),
        ih fun d hd => h d (List.mem_cons_of_mem _ hd)]
      rfl

/-- Stripping keeps the balance. -/
theorem balance_strip (text : List Char) : balance (Text.strip text) = balance text := by
  obtain ⟨front, back, htext, hfront, hback⟩ := Text.strip_decomposition text
  rw [congrArg balance htext, balance_append, balance_append, balance_of_blank hfront,
    balance_of_blank hback]
  omega

/-! ## Texts without a separator of depth zero -/

/-- A text that starts at this depth and has no separator of depth zero. -/
def Unbroken (separates : Char → Bool) (depth : Int) (text : List Char) : Prop :=
  ∀ before c after, text = before ++ c :: after → separates c = true → depth + balance before ≠ 0

variable {separates : Char → Bool}

theorem unbroken_nil (depth : Int) : Unbroken separates depth [] := by
  intro before c after h
  simp at h

/-- The first character of an unbroken text is no separator of depth zero, and the rest is unbroken
at the depth after it. -/
theorem unbroken_cons {depth : Int} {c : Char} {rest : List Char} :
    Unbroken separates depth (c :: rest) ↔
      ¬ (depth = 0 ∧ separates c = true) ∧ Unbroken separates (step depth c) rest := by
  constructor
  · intro h
    constructor
    · rintro ⟨hdepth, hc⟩
      exact h [] c rest rfl hc (by simpa using hdepth)
    · intro before d after hrest hd
      have hne := h (c :: before) d after (by rw [hrest]; rfl) hd
      rw [step_eq_add]
      rw [balance_cons] at hne
      omega
  · rintro ⟨hfirst, hrest⟩ before d after htext hd
    cases before with
    | nil =>
        obtain ⟨rfl, -⟩ := List.cons.inj htext
        intro hdepth
        exact hfirst ⟨by simpa using hdepth, hd⟩
    | cons b before =>
        obtain ⟨rfl, htail⟩ := List.cons.inj htext
        have hne := hrest before d after htail hd
        rw [step_eq_add] at hne
        rw [balance_cons]
        omega

/-- Of two texts in a row, the second starts at the depth after the first. -/
theorem unbroken_append {depth : Int} {first second : List Char} :
    Unbroken separates depth (first ++ second) ↔
      Unbroken separates depth first ∧ Unbroken separates (depth + balance first) second := by
  induction first generalizing depth with
  | nil => simp [unbroken_nil]
  | cons c rest ih =>
      rw [List.cons_append, unbroken_cons, ih, unbroken_cons, balance_cons, step_eq_add, and_assoc,
        Int.add_assoc]

/-- Where all characters are blank, no bar is. -/
theorem unbroken_bar_of_blank {text : List Char} (h : ∀ c ∈ text, Text.isBlank c = true)
    (depth : Int) : Unbroken (· == '|') depth text := by
  intro before c after htext hc
  rw [beq_iff_eq] at hc
  subst hc
  have hbar := h '|' (by rw [htext]; simp)
  exact absurd hbar (by decide)

/-- Blanks between pieces make no bar of depth zero. -/
theorem unbroken_bar_intercalate {pieces : List (List Char)}
    (hbar : ∀ piece ∈ pieces, Unbroken (· == '|') 0 piece)
    (hbalance : ∀ piece ∈ pieces.dropLast, balance piece = 0) :
    Unbroken (· == '|') 0 ([' '].intercalate pieces) := by
  induction pieces with
  | nil => exact unbroken_nil 0
  | cons piece rest ih =>
      have hpiece := hbar piece List.mem_cons_self
      cases rest with
      | nil => rwa [List.intercalate_singleton]
      | cons next more =>
          rw [List.dropLast_cons_cons] at hbalance
          have hmore := ih (fun p hp => hbar p (List.mem_cons_of_mem _ hp))
            (fun p hp => hbalance p (List.mem_cons_of_mem _ hp))
          rw [List.intercalate_cons_cons, List.append_assoc, unbroken_append,
            hbalance piece List.mem_cons_self, List.singleton_append, unbroken_cons]
          exact ⟨hpiece, by decide, hmore⟩

/-- Stripping a text without a bar of depth zero leaves one without a bar of depth zero. -/
theorem Unbroken.strip {text : List Char} (h : Unbroken (· == '|') 0 text) :
    Unbroken (· == '|') 0 (Text.strip text) := by
  obtain ⟨front, back, htext, hfront, -⟩ := Text.strip_decomposition text
  rw [htext, unbroken_append, balance_of_blank hfront, unbroken_append] at h
  exact h.2.1

/-- A balanced text without a blank of depth zero does not end with a blank. -/
theorem Unbroken.last_not_blank {text : List Char} (h : Unbroken Text.isBlank 0 text)
    (hbalance : balance text = 0) : ∀ c, text.getLast? = some c → Text.isBlank c = false := by
  intro c hc
  obtain ⟨before, rfl⟩ := List.getLast?_eq_some_iff.1 hc
  refine Bool.eq_false_iff.2 fun hblank => h before c [] rfl hblank ?_
  rw [balance_append, balance_cons, flat_blank.step_eq hblank] at hbalance
  simpa using hbalance

/-- A text without a blank of depth zero does not begin with a blank. -/
theorem Unbroken.head_not_blank {text : List Char} (h : Unbroken Text.isBlank 0 text) :
    ∀ c, text.head? = some c → Text.isBlank c = false := by
  intro c hc
  obtain ⟨rest, rfl⟩ := List.head?_eq_some_iff.1 hc
  exact Bool.eq_false_iff.2 fun hblank => h [] c rest rfl hblank rfl

/-! ## Cuts -/

/-- A text without a separator of depth zero is one piece. -/
theorem cut_of_unbroken {depth : Int} {text : List Char} (h : Unbroken separates depth text) :
    cut separates depth text = [text] := by
  induction text generalizing depth with
  | nil => rfl
  | cons c rest ih =>
      obtain ⟨hfirst, hrest⟩ := unbroken_cons.1 h
      rw [cut, if_neg hfirst, ih hrest, List.modifyHead_cons]

/-- At a separator of depth zero, a cut falls apart into the cuts of the two sides. -/
theorem cut_append (hflat : Flat separates) {depth : Int} {before after : List Char} {c : Char}
    (hdepth : depth + balance before = 0) (hc : separates c = true) :
    cut separates depth (before ++ c :: after) =
      cut separates depth before ++ cut separates 0 after := by
  induction before generalizing depth with
  | nil =>
      have hzero : depth = 0 := by simpa using hdepth
      simp [cut, hzero, hc]
  | cons b rest ih =>
      rw [balance_cons, ← Int.add_assoc, ← step_eq_add] at hdepth
      rw [List.cons_append, cut, cut]
      split
      · -- `before` has separators of depth zero itself, and they do not move the depth.
        rename_i hb
        rw [hflat.step_eq hb.2] at hdepth
        rw [ih hdepth, List.cons_append]
      · obtain ⟨first, more, hcut⟩ :=
          List.exists_cons_of_ne_nil (cut_ne_nil separates (step depth b) rest)
        rw [ih hdepth, hcut, List.cons_append, List.modifyHead_cons, List.modifyHead_cons,
          List.cons_append]

/-- A text has no separator of depth zero, or a first one. -/
theorem unbroken_or_first (separates : Char → Bool) (depth : Int) (text : List Char) :
    Unbroken separates depth text ∨ ∃ before c after, text = before ++ c :: after ∧
      separates c = true ∧ Unbroken separates depth before ∧ depth + balance before = 0 := by
  induction text generalizing depth with
  | nil => exact .inl (unbroken_nil depth)
  | cons b rest ih =>
      by_cases hb : depth = 0 ∧ separates b = true
      · exact .inr ⟨[], b, rest, rfl, hb.2, unbroken_nil depth, by simpa using hb.1⟩
      · rcases ih (step depth b) with h | ⟨before, c, after, hrest, hc, h, hdepth⟩
        · exact .inl (unbroken_cons.2 ⟨hb, h⟩)
        · refine .inr ⟨b :: before, c, after, by rw [hrest]; rfl, hc, unbroken_cons.2 ⟨hb, h⟩, ?_⟩
          rw [balance_cons, ← Int.add_assoc, ← step_eq_add]
          exact hdepth

/-- Induction along the separators of depth zero: a property holds of every text if it holds of the
unbroken ones, and is carried to the left over a balanced unbroken piece and a separator. -/
theorem cut_induction (separates : Char → Bool) {motive : List Char → Prop}
    (unbroken : ∀ text, Unbroken separates 0 text → motive text)
    (append : ∀ before c after, Unbroken separates 0 before → balance before = 0 →
      separates c = true → motive after → motive (before ++ c :: after))
    (text : List Char) : motive text := by
  rcases unbroken_or_first separates 0 text with h | ⟨before, c, after, htext, hc, h, hbalance⟩
  · exact unbroken text h
  · have hshorter : after.length < text.length := by
      rw [htext, List.length_append, List.length_cons]
      omega
    rw [htext]
    exact append before c after h (by simpa using hbalance) hc
      (cut_induction separates unbroken append after)
termination_by text.length

/-- A piece of a cut starts at depth zero, has no separator of depth zero, and is balanced unless it
is the last one. -/
theorem place_of_mem_cut (hflat : Flat separates) {text piece : List Char}
    (h : piece ∈ cut separates 0 text) :
    ∃ before after, text = before ++ (piece ++ after) ∧ balance before = 0 ∧
      Unbroken separates 0 piece ∧ (after = [] ∨ balance piece = 0) := by
  induction text using cut_induction separates with
  | unbroken text htext =>
      rw [cut_of_unbroken htext, List.mem_singleton] at h
      subst h
      exact ⟨[], [], by simp, rfl, htext, .inl rfl⟩
  | append first c rest hfirst hbalance hc ih =>
      rw [cut_append hflat (by simpa using hbalance) hc, cut_of_unbroken hfirst,
        List.singleton_append, List.mem_cons] at h
      rcases h with rfl | h
      · exact ⟨[], c :: rest, rfl, rfl, hfirst, .inr hbalance⟩
      · obtain ⟨before, after, hrest, hbefore, hpiece, hafter⟩ := ih h
        refine ⟨first ++ c :: before, after, by simp [hrest], ?_, hpiece, hafter⟩
        rw [balance_append, balance_cons, hflat.step_eq hc, hbefore, hbalance]
        rfl

/-- Every piece of a cut but the last is balanced. -/
theorem balance_of_mem_dropLast_cut (hflat : Flat separates) {text piece : List Char}
    (h : piece ∈ (cut separates 0 text).dropLast) : balance piece = 0 := by
  induction text using cut_induction separates with
  | unbroken text htext =>
      rw [cut_of_unbroken htext] at h
      simp at h
  | append first c rest hfirst hbalance hc ih =>
      rw [cut_append hflat (by simpa using hbalance) hc, cut_of_unbroken hfirst,
        List.singleton_append, List.dropLast_cons_of_ne_nil (cut_ne_nil separates 0 rest),
        List.mem_cons] at h
      rcases h with rfl | h
      · exact hbalance
      · exact ih h

/-- A cut keeps the balance. -/
theorem balance_flatten_cut (hflat : Flat separates) (text : List Char) :
    balance (cut separates 0 text).flatten = balance text := by
  induction text using cut_induction separates with
  | unbroken text htext => rw [cut_of_unbroken htext, List.flatten_singleton]
  | append first c rest hfirst hbalance hc ih =>
      rw [cut_append hflat (by simpa using hbalance) hc, List.flatten_append, balance_append,
        cut_of_unbroken hfirst, List.flatten_singleton, ih, balance_append, balance_cons,
        hflat.step_eq hc]
      omega

/-! ## Alternatives -/

/-- There is an alternative in every text. -/
theorem alternatives_ne_nil (text : List Char) : alternatives text ≠ [] := by
  simpa [alternatives] using cut_ne_nil (· == '|') 0 text

/-- At a bar of depth zero, the alternatives of a text are those of its two sides. -/
theorem alternatives_append {before : List Char} (h : balance before = 0) (after : List Char) :
    alternatives (before ++ '|' :: after) = alternatives before ++ alternatives after := by
  rw [alternatives, cut_append flat_bar (by simpa using h) rfl, List.map_append]
  rfl

/-- A text without a bar of depth zero is one alternative. -/
theorem alternatives_of_unbroken {text : List Char} (h : Unbroken (· == '|') 0 text) :
    alternatives text = [Text.strip text] := by
  rw [alternatives, cut_of_unbroken h]
  rfl

/-- A blank before a definition does not count. -/
theorem alternatives_cons_blank {c : Char} (hc : Text.isBlank c = true) (text : List Char) :
    alternatives (c :: text) = alternatives text := by
  have hbar : ¬ ((0 : Int) = 0 ∧ (c == '|') = true) := by
    rintro ⟨-, h⟩
    rw [beq_iff_eq] at h
    subst h
    exact absurd hc (by decide)
  obtain ⟨first, more, hcut⟩ := List.exists_cons_of_ne_nil (cut_ne_nil (· == '|') 0 text)
  rw [alternatives, alternatives, cut, if_neg hbar, flat_blank.step_eq hc, hcut,
    List.modifyHead_cons, List.map_cons, List.map_cons, Text.strip_cons_blank hc]

/-- A blank after a definition does not count. -/
theorem alternatives_append_blank {c : Char} (hc : Text.isBlank c = true) (text : List Char) :
    alternatives (text ++ [c]) = alternatives text := by
  induction text using cut_induction (· == '|') with
  | unbroken text h =>
      have hblank : Unbroken (· == '|') (0 + balance text) [c] :=
        unbroken_bar_of_blank (by simpa using hc) _
      rw [alternatives_of_unbroken h, alternatives_of_unbroken (unbroken_append.2 ⟨h, hblank⟩),
        Text.strip_append_blank hc]
  | append before bar after _ hbalance hbar ih =>
      rw [beq_iff_eq] at hbar
      subst hbar
      rw [List.append_assoc, List.cons_append, alternatives_append hbalance, ih,
        alternatives_append hbalance]

/-- Blanks at the ends of a definition do not count. -/
theorem alternatives_strip (text : List Char) :
    alternatives (Text.strip text) = alternatives text := by
  obtain ⟨front, back, htext, hfront, hback⟩ := Text.strip_decomposition text
  conv_rhs => rw [htext]
  exact (Text.apply_between_blanks (fun _ text hc => alternatives_cons_blank hc text)
    (fun _ text hc => alternatives_append_blank hc text) hfront hback _).symm

/-- An alternative stands in the definition. -/
theorem infix_of_mem_alternatives {text piece : List Char} (h : piece ∈ alternatives text) :
    piece <:+: text := by
  rw [alternatives, List.mem_map] at h
  obtain ⟨raw, hraw, rfl⟩ := h
  obtain ⟨before, after, rfl, -⟩ := place_of_mem_cut flat_bar hraw
  exact (Text.strip_infix raw).trans ⟨before, after, List.append_assoc before raw after⟩

/-- Alternatives that are written between bars and blanks are read back, stripped. -/
theorem alternatives_intercalate {pieces : List (List Char)} (hne : pieces ≠ [])
    (hunbroken : ∀ piece ∈ pieces, Unbroken (· == '|') 0 piece)
    (hbalance : ∀ piece ∈ pieces.dropLast, balance piece = 0) :
    alternatives ([' ', '|', ' '].intercalate pieces) = pieces.map Text.strip := by
  induction pieces with
  | nil => exact absurd rfl hne
  | cons piece rest ih =>
      have hpiece := alternatives_of_unbroken (hunbroken piece List.mem_cons_self)
      cases rest with
      | nil => rw [List.intercalate_singleton, hpiece, List.map_singleton]
      | cons next more =>
          rw [List.dropLast_cons_cons] at hbalance
          have hzero : balance (piece ++ [' ']) = 0 := by
            rw [balance_append, hbalance piece List.mem_cons_self]
            rfl
          have hmore := ih (List.cons_ne_nil next more)
            (fun p hp => hunbroken p (List.mem_cons_of_mem _ hp))
            (fun p hp => hbalance p (List.mem_cons_of_mem _ hp))
          rw [List.intercalate_cons_cons, List.map_cons, ← hmore]
          calc alternatives (piece ++ [' ', '|', ' '] ++
                [' ', '|', ' '].intercalate (next :: more))
              = alternatives ((piece ++ [' ']) ++ '|' :: ' ' ::
                  [' ', '|', ' '].intercalate (next :: more)) := by simp
            _ = alternatives (piece ++ [' ']) ++
                  alternatives (' ' :: [' ', '|', ' '].intercalate (next :: more)) :=
                alternatives_append hzero _
            _ = [Text.strip piece] ++
                  alternatives ([' ', '|', ' '].intercalate (next :: more)) := by
                rw [alternatives_append_blank (by decide), alternatives_cons_blank (by decide),
                  hpiece]

/-- An alternative has no blank at its ends. -/
theorem stripped_of_mem_alternatives {text piece : List Char} (h : piece ∈ alternatives text) :
    Text.Stripped piece := by
  rw [alternatives, List.mem_map] at h
  obtain ⟨raw, -, rfl⟩ := h
  exact Text.strip_stripped raw

/-- An alternative has no bar of depth zero. -/
theorem unbroken_of_mem_alternatives {text piece : List Char} (h : piece ∈ alternatives text) :
    Unbroken (· == '|') 0 piece := by
  rw [alternatives, List.mem_map] at h
  obtain ⟨raw, hraw, rfl⟩ := h
  obtain ⟨-, -, -, -, hunbroken, -⟩ := place_of_mem_cut flat_bar hraw
  exact hunbroken.strip

/-- Every alternative but the last is balanced. -/
theorem balance_of_mem_dropLast_alternatives {text piece : List Char}
    (h : piece ∈ (alternatives text).dropLast) : balance piece = 0 := by
  rw [alternatives, ← List.map_dropLast, List.mem_map] at h
  obtain ⟨raw, hraw, rfl⟩ := h
  rw [balance_strip, balance_of_mem_dropLast_cut flat_bar hraw]

/-! ## Tokens -/

/-- At a blank of depth zero, the tokens of a text are those of its two sides. -/
theorem tokens_append {before : List Char} (h : balance before = 0) {c : Char}
    (hc : Text.isBlank c = true) (after : List Char) :
    tokens (before ++ c :: after) = tokens before ++ tokens after := by
  rw [tokens, cut_append flat_blank (by simpa using h) hc, List.filter_append]
  rfl

/-- A text without a blank of depth zero is one token, unless it is empty. -/
theorem tokens_of_unbroken {text : List Char} (h : Unbroken Text.isBlank 0 text)
    (hne : text ≠ []) : tokens text = [text] := by
  rw [tokens, cut_of_unbroken h]
  simp [hne]

/-- Tokens that are written between blanks are read back. -/
theorem tokens_intercalate {pieces : List (List Char)} (hne : [] ∉ pieces)
    (hunbroken : ∀ piece ∈ pieces, Unbroken Text.isBlank 0 piece)
    (hbalance : ∀ piece ∈ pieces.dropLast, balance piece = 0) :
    tokens ([' '].intercalate pieces) = pieces := by
  induction pieces with
  | nil => rfl
  | cons piece rest ih =>
      rw [List.mem_cons, not_or] at hne
      have hpiece := tokens_of_unbroken (hunbroken piece List.mem_cons_self) (Ne.symm hne.1)
      cases rest with
      | nil => rw [List.intercalate_singleton, hpiece]
      | cons next more =>
          rw [List.dropLast_cons_cons] at hbalance
          have hmore := ih hne.2 (fun p hp => hunbroken p (List.mem_cons_of_mem _ hp))
            (fun p hp => hbalance p (List.mem_cons_of_mem _ hp))
          rw [List.intercalate_cons_cons, List.append_assoc, List.singleton_append,
            tokens_append (hbalance piece List.mem_cons_self) (by decide), hpiece, hmore,
            List.singleton_append]

/-- A token is not empty. -/
theorem ne_nil_of_mem_tokens {text token : List Char} (h : token ∈ tokens text) : token ≠ [] := by
  simpa using (List.mem_filter.1 h).2

/-- A token stands in its alternative. -/
theorem infix_of_mem_tokens {text token : List Char} (h : token ∈ tokens text) :
    token <:+: text := by
  obtain ⟨before, after, rfl, -⟩ := place_of_mem_cut flat_blank (List.mem_filter.1 h).1
  exact ⟨before, after, List.append_assoc before token after⟩

/-- A token has no blank of depth zero. -/
theorem unbroken_of_mem_tokens {text token : List Char} (h : token ∈ tokens text) :
    Unbroken Text.isBlank 0 token := by
  obtain ⟨-, -, -, -, hunbroken, -⟩ := place_of_mem_cut flat_blank (List.mem_filter.1 h).1
  exact hunbroken

/-- A token of a text without a bar of depth zero has none either. -/
theorem unbroken_bar_of_mem_tokens {text token : List Char} (hbar : Unbroken (· == '|') 0 text)
    (h : token ∈ tokens text) : Unbroken (· == '|') 0 token := by
  obtain ⟨before, after, rfl, hbefore, -, -⟩ := place_of_mem_cut flat_blank (List.mem_filter.1 h).1
  rw [unbroken_append, unbroken_append, hbefore] at hbar
  exact hbar.2.1

/-- A token of a text that does not end with a blank does not end with one either. -/
theorem last_not_blank_of_mem_tokens {text token : List Char}
    (hlast : ∀ c, text.getLast? = some c → Text.isBlank c = false) (h : token ∈ tokens text) :
    ∀ c, token.getLast? = some c → Text.isBlank c = false := by
  obtain ⟨before, after, rfl, -, hunbroken, hafter⟩ :=
    place_of_mem_cut flat_blank (List.mem_filter.1 h).1
  rcases hafter with rfl | hbalance
  · intro c hc
    exact hlast c (by simp [hc])
  · exact hunbroken.last_not_blank hbalance

/-- What is dropped before the last kept element is dropped before the last element. -/
theorem mem_dropLast_of_mem_dropLast_filter {α : Type} {keep : α → Bool} {items : List α} {item : α}
    (h : item ∈ (items.filter keep).dropLast) : item ∈ items.dropLast := by
  induction items with
  | nil => simp at h
  | cons first rest ih =>
      cases rest with
      | nil =>
          by_cases hfirst : keep first = true <;> simp [hfirst] at h
      | cons next more =>
          rw [List.dropLast_cons_cons, List.mem_cons]
          by_cases hfirst : keep first = true
          · rw [List.filter_cons_of_pos hfirst] at h
            cases hkept : (next :: more).filter keep with
            | nil => simp [hkept] at h
            | cons kept others =>
                rw [hkept, List.dropLast_cons_cons, List.mem_cons, ← hkept] at h
                exact h.imp_right ih
          · rw [List.filter_cons_of_neg hfirst] at h
            exact .inr (ih h)

/-- Every token but the last is balanced. -/
theorem balance_of_mem_dropLast_tokens {text token : List Char}
    (h : token ∈ (tokens text).dropLast) : balance token = 0 :=
  balance_of_mem_dropLast_cut flat_blank (mem_dropLast_of_mem_dropLast_filter h)

/-- The tokens of a text have its balance. -/
theorem balance_flatten_tokens (text : List Char) :
    balance (tokens text).flatten = balance text := by
  rw [tokens, List.flatten_filter_not_isEmpty, balance_flatten_cut flat_blank]

end Bnf.Nesting
