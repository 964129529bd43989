import Bnf.Proofs.Composition
import Mathlib.Data.List.Infix

/-!
# Cuts lose and invent nothing

Whatever the parentheses of a text are, its alternatives are the stripped segments of a way to write
it as segments with bars between them, and its tokens in a row are the text without its blanks of
depth zero. So no character is lost but these, none is added, and none changes its place. Tokens are
cut from each other by blanks of any kind and number: however they are set out, they are the tokens
of what is written (`tokens_set_out`). Only behind a last token that is not balanced a blank belongs
to the token. `cuts_lose_nothing` is all of this, with parentheses counted and not added up.
-/

namespace Bnf.Nesting

/-! ## Outer blanks -/

/-- The characters of a text, each with what stands before it. -/
def withBefore (text : List Char) : List (List Char × Char) :=
  text.inits.zip text

/-- Whether a character is a blank before which equally many parentheses are opened and closed. -/
def isOuterBlank (before : List Char) (c : Char) : Bool :=
  Text.isBlank c && before.count '(' == before.count ')'

/-- The text without its outer blanks. -/
def withoutOuterBlanks (text : List Char) : List Char :=
  ((withBefore text).filter fun (before, c) => !isOuterBlank before c).map Prod.snd

/-- A text is unbroken if before no separator equally many parentheses are opened and closed. -/
theorem unbroken_iff_count {separates : Char → Bool} {text : List Char} :
    Unbroken separates 0 text ↔ ∀ before c after, text = before ++ c :: after →
      separates c = true → before.count '(' ≠ before.count ')' := by
  simp only [Unbroken, Int.zero_add, Ne, balance_eq_zero_iff]

theorem with_before_cons (c : Char) (rest : List Char) :
    withBefore (c :: rest) =
      ([], c) :: (withBefore rest).map fun (before, d) => (c :: before, d) := by
  rw [withBefore, List.inits_cons, List.zip_cons_cons, List.zip_map_left]
  rfl

/-- Before a character of the second of two texts stands the first one. -/
theorem with_before_append (first second : List Char) :
    withBefore (first ++ second) =
      withBefore first ++ (withBefore second).map fun (before, c) => (first ++ before, c) := by
  induction first with
  | nil => simp [withBefore]
  | cons b rest ih =>
      rw [List.cons_append, with_before_cons, ih, with_before_cons, List.map_append, List.map_map,
        List.cons_append]
      rfl

/-- What stands before a character of a text. -/
theorem exists_of_mem_with_before {text before : List Char} {c : Char}
    (h : (before, c) ∈ withBefore text) : ∃ after, text = before ++ c :: after := by
  induction text generalizing before with
  | nil => simp [withBefore] at h
  | cons b rest ih =>
      rw [with_before_cons, List.mem_cons, List.mem_map] at h
      rcases h with h | ⟨⟨shorter, d⟩, hmem, h⟩
      · cases h
        exact ⟨rest, rfl⟩
      · cases h
        obtain ⟨after, rfl⟩ := ih hmem
        exact ⟨after, rfl⟩

/-- A text has the characters of the text. -/
theorem map_snd_with_before (text : List Char) : (withBefore text).map Prod.snd = text :=
  List.map_snd_zip (by simp)

/-- A character is an outer blank exactly if it is one without a balanced text in front. -/
theorem outer_blank_append {first : List Char} (h : balance first = 0) (before : List Char)
    (c : Char) : isOuterBlank (first ++ before) c = isOuterBlank before c := by
  have hcount := balance_eq_zero_iff.1 h
  rw [Bool.eq_iff_iff]
  simp only [isOuterBlank, List.count_append, Bool.and_eq_true, beq_iff_eq]
  exact and_congr_right fun _ => by omega

/-- Behind a balanced text, the outer blanks are those of what follows. -/
theorem without_outer_blanks_append {first : List Char} (h : balance first = 0)
    (second : List Char) :
    withoutOuterBlanks (first ++ second) =
      withoutOuterBlanks first ++ withoutOuterBlanks second := by
  rw [withoutOuterBlanks, with_before_append, List.filter_append, List.map_append,
    List.filter_map, List.map_map]
  simp only [Function.comp_def, outer_blank_append h]
  rfl

/-- An outer blank is left out. -/
theorem without_outer_blanks_cons {c : Char} (hc : Text.isBlank c = true) (rest : List Char) :
    withoutOuterBlanks (c :: rest) = withoutOuterBlanks rest := by
  have hbalance : balance [c] = 0 := by
    rw [balance_cons, flat_blank.step_eq hc]
    rfl
  have hnil : withoutOuterBlanks [c] = [] := by
    simp [withoutOuterBlanks, withBefore, isOuterBlank, hc]
  rw [← List.singleton_append, without_outer_blanks_append hbalance, hnil, List.nil_append]

/-- A text without a blank of depth zero has no outer blank. -/
theorem without_outer_blanks_of_unbroken {text : List Char} (h : Unbroken Text.isBlank 0 text) :
    withoutOuterBlanks text = text := by
  have hkept : ∀ place ∈ withBefore text, (!isOuterBlank place.1 place.2) = true := by
    rintro ⟨before, c⟩ hplace
    obtain ⟨after, htext⟩ := exists_of_mem_with_before hplace
    rw [Bool.not_eq_true', Bool.eq_false_iff]
    intro houter
    rw [isOuterBlank, Bool.and_eq_true, beq_iff_eq, ← balance_eq_zero_iff] at houter
    exact h before c after htext houter.1 (by rw [houter.2]; rfl)
  rw [withoutOuterBlanks, List.filter_eq_self.2 hkept, map_snd_with_before]

/-- The tokens in a row are the text without its outer blanks. -/
theorem flatten_tokens (text : List Char) : (tokens text).flatten = withoutOuterBlanks text := by
  induction text using cut_induction Text.isBlank with
  | unbroken text h =>
      rw [without_outer_blanks_of_unbroken h]
      by_cases hne : text = []
      · rw [hne]
        rfl
      · rw [tokens_of_unbroken h hne, List.flatten_singleton]
  | append before c after hbefore hbalance hc ih =>
      rw [tokens_append hbalance hc, List.flatten_append, ih, without_outer_blanks_append hbalance,
        without_outer_blanks_cons hc, without_outer_blanks_of_unbroken hbefore]
      by_cases hne : before = []
      · rw [hne]
        rfl
      · rw [tokens_of_unbroken hbefore hne, List.flatten_singleton]

/-! ## Segments -/

/-- The pieces of a cut at bars make up the text, with bars between them. -/
theorem intercalate_cut_bar (text : List Char) :
    ['|'].intercalate (cut (· == '|') 0 text) = text := by
  induction text using cut_induction (· == '|') with
  | unbroken text h => rw [cut_of_unbroken h, List.intercalate_singleton]
  | append before c after hbefore hbalance hc ih =>
      obtain ⟨first, more, hcut⟩ :=
        List.exists_cons_of_ne_nil (cut_ne_nil (· == '|') 0 after)
      rw [cut_append flat_bar (by simpa using hbalance) hc, cut_of_unbroken hbefore,
        List.singleton_append, hcut, List.intercalate_cons_cons, ← hcut, ih, beq_iff_eq.1 hc]
      simp

/-! ## Tokens that are set out -/

/-- Pieces, each with a gap behind it. -/
def setOut (pieces gaps : List (List Char)) : List Char :=
  (List.zipWith (· ++ ·) pieces gaps).flatten

/-- Blanks in front of a text are no part of its tokens. -/
theorem tokens_blanks_append {front : List Char} (h : ∀ c ∈ front, Text.isBlank c = true)
    (text : List Char) : tokens (front ++ text) = tokens text := by
  induction front with
  | nil => rfl
  | cons c rest ih =>
      rw [List.cons_append, ← List.nil_append (c :: (rest ++ text)),
        tokens_append rfl (h c List.mem_cons_self),
        ih fun d hd => h d (List.mem_cons_of_mem c hd)]
      rfl

/-- A token is cut off by the gap behind it, if it is balanced or nothing follows at all. -/
theorem tokens_piece_append {piece gap : List Char} (hne : piece ≠ [])
    (hunbroken : Unbroken Text.isBlank 0 piece) (hgap : ∀ c ∈ gap, Text.isBlank c = true)
    (hbalance : gap ≠ [] → balance piece = 0) {text : List Char} (htext : gap = [] → text = []) :
    tokens (piece ++ gap ++ text) = piece :: tokens text := by
  cases gap with
  | nil =>
      rw [htext rfl, List.append_nil, List.append_nil, tokens_of_unbroken hunbroken hne]
      rfl
  | cons c more =>
      rw [List.append_assoc, List.cons_append,
        tokens_append (hbalance (List.cons_ne_nil c more)) (hgap c List.mem_cons_self),
        tokens_of_unbroken hunbroken hne,
        tokens_blanks_append fun d hd => hgap d (List.mem_cons_of_mem c hd)]
      rfl

/-- Tokens that are set out with gaps of blanks are read back, however large the gaps are. Only
behind a last token that is not balanced there must be none. -/
theorem tokens_set_out {pieces gaps : List (List Char)} (hne : [] ∉ pieces)
    (hunbroken : ∀ piece ∈ pieces, Unbroken Text.isBlank 0 piece)
    (hbalance : ∀ piece ∈ pieces.dropLast, balance piece = 0)
    (hlength : gaps.length = pieces.length)
    (hblank : ∀ gap ∈ gaps, ∀ c ∈ gap, Text.isBlank c = true)
    (hgaps : ∀ gap ∈ gaps.dropLast, gap ≠ [])
    (hlast : ∀ last, pieces.getLast? = some last → balance last ≠ 0 → gaps.getLast? = some []) :
    tokens (setOut pieces gaps) = pieces := by
  induction pieces generalizing gaps with
  | nil => rfl
  | cons piece rest ih =>
      obtain ⟨gap, more, rfl⟩ := List.exists_cons_of_length_eq_add_one hlength
      have hlength : more.length = rest.length := by simpa using hlength
      obtain ⟨hpiece, hrest⟩ := List.forall_mem_cons.1 hunbroken
      obtain ⟨hfirst, hmore⟩ := List.forall_mem_cons.1 hblank
      rw [List.mem_cons, not_or] at hne
      rw [show setOut (piece :: rest) (gap :: more) = piece ++ gap ++ setOut rest more from rfl]
      cases rest with
      | nil =>
          obtain rfl := List.length_eq_zero_iff.1 hlength
          refine tokens_piece_append (Ne.symm hne.1) hpiece hfirst ?_ fun _ => rfl
          -- A gap behind an unbalanced last piece would have to be empty.
          intro hgap
          by_contra hnonzero
          exact hgap (Option.some.inj (hlast piece rfl hnonzero))
      | cons next others =>
          obtain ⟨following, later, rfl⟩ := List.exists_cons_of_length_eq_add_one hlength
          rw [List.dropLast_cons_cons] at hbalance hgaps
          obtain ⟨hzero, hbalance⟩ := List.forall_mem_cons.1 hbalance
          obtain ⟨hgap, hgaps⟩ := List.forall_mem_cons.1 hgaps
          rw [tokens_piece_append (Ne.symm hne.1) hpiece hfirst (fun _ => hzero)
            fun hempty => absurd hempty hgap,
            ih hne.2 hrest hbalance hlength hmore hgaps fun last hmem => ?_]
          have hgetLast := hlast last (by rw [List.getLast?_cons_cons]; exact hmem)
          rwa [List.getLast?_cons_cons] at hgetLast

/-- A definition is written as segments with bars between them, all balanced but the last and none
with a bar of depth zero, and its alternatives are these segments, stripped. An alternative in turn
has tokens that are not empty, all balanced but the last and none with a blank of depth zero, and in
a row they are the alternative without its outer blanks. If these tokens are set out anew, with
blanks in front and gaps of blanks between them, then they are the tokens of the new text too,
unless a gap stands behind a last token that is not balanced. -/
theorem cuts_lose_nothing :
    (∀ text, ∃ segments : List (List Char), segments ≠ [] ∧ text = ['|'].intercalate segments ∧
      (∀ segment ∈ segments.dropLast, segment.count '(' = segment.count ')') ∧
      (∀ segment ∈ segments, ∀ before after, segment = before ++ '|' :: after →
        before.count '(' ≠ before.count ')') ∧
      alternatives text = segments.map Text.strip) ∧
    ∀ text,
      (∀ token ∈ tokens text, token ≠ []) ∧
      (tokens text).flatten = withoutOuterBlanks text ∧
      (∀ token ∈ tokens text, ∀ before c after, token = before ++ c :: after →
        Text.isBlank c = true → before.count '(' ≠ before.count ')') ∧
      (∀ token ∈ (tokens text).dropLast, token.count '(' = token.count ')') ∧
      ∀ (front : List Char) (gaps : List (List Char)), (∀ c ∈ front, Text.isBlank c = true) →
        gaps.length = (tokens text).length → (∀ gap ∈ gaps, ∀ c ∈ gap, Text.isBlank c = true) →
        (∀ gap ∈ gaps.dropLast, gap ≠ []) →
        (∀ last, (tokens text).getLast? = some last → last.count '(' ≠ last.count ')' →
          gaps.getLast? = some []) →
        tokens (front ++ setOut (tokens text) gaps) = tokens text := by
  constructor
  · intro text
    refine ⟨cut (· == '|') 0 text, cut_ne_nil _ 0 text, (intercalate_cut_bar text).symm,
      fun segment hsegment => ?_, fun segment hsegment before after hsplit => ?_, rfl⟩
    · exact balance_eq_zero_iff.1 (balance_of_mem_dropLast_cut flat_bar hsegment)
    · obtain ⟨-, -, -, -, hunbroken, -⟩ := place_of_mem_cut flat_bar hsegment
      exact unbroken_iff_count.1 hunbroken before '|' after hsplit rfl
  · intro text
    refine ⟨fun token htoken => ne_nil_of_mem_tokens htoken, flatten_tokens text,
      fun token htoken => unbroken_iff_count.1 (unbroken_of_mem_tokens htoken),
      fun token htoken => balance_eq_zero_iff.1 (balance_of_mem_dropLast_tokens htoken), ?_⟩
    intro front gaps hfront hlength hblank hgaps hlast
    rw [tokens_blanks_append hfront]
    exact tokens_set_out (fun hnil => ne_nil_of_mem_tokens hnil rfl)
      (fun token htoken => unbroken_of_mem_tokens htoken)
      (fun token htoken => balance_of_mem_dropLast_tokens htoken) hlength hblank hgaps
      fun last hmem hnonzero => hlast last hmem (mt balance_eq_zero_iff.2 hnonzero)

/-- A definition whose depth comes below zero before its first bar, and tokens whose last one is not
balanced, set out anew with wider gaps and none behind them. -/
theorem cuts_lose_nothing_unbalanced :
    (∃ segments : List (List Char), ")|( | \"a\" |(x".toList = ['|'].intercalate segments ∧
      [")|(".toList, "\"a\"".toList, "(x".toList] = segments.map Text.strip) ∧
    tokens " )a b( <c>  (d e".toList = [")a b(".toList, "<c>".toList, "(d e".toList] ∧
    withoutOuterBlanks " )a b( <c>  (d e".toList = ")a b(<c>(d e".toList ∧
    (∀ gap ∈ [[' ', '\t'], ['\u3000'], []], ∀ c ∈ gap, Text.isBlank c = true) ∧
    "(d e".toList.count '(' ≠ "(d e".toList.count ')' ∧
    tokens (['\n'] ++ setOut [")a b(".toList, "<c>".toList, "(d e".toList]
      [[' ', '\t'], ['\u3000'], []]) = [")a b(".toList, "<c>".toList, "(d e".toList] := by
  obtain ⟨hsegments, htokens⟩ := cuts_lose_nothing
  have hcut : tokens " )a b( <c>  (d e".toList =
      [")a b(".toList, "<c>".toList, "(d e".toList] := by decide
  have halternatives : alternatives ")|( | \"a\" |(x".toList =
      [")|(".toList, "\"a\"".toList, "(x".toList] := by decide
  have hgaps : ∀ gap ∈ [[' ', '\t'], ['\u3000'], []], ∀ c ∈ gap, Text.isBlank c = true := by
    simp only [List.forall_mem_cons, List.not_mem_nil, false_imp_iff, implies_true, and_true]
    decide
  obtain ⟨segments, -, htext, -, -, hstrip⟩ := hsegments ")|( | \"a\" |(x".toList
  obtain ⟨-, hflatten, -, -, hset⟩ := htokens " )a b( <c>  (d e".toList
  rw [hcut] at hflatten hset
  refine ⟨⟨segments, htext, halternatives.symm.trans hstrip⟩, hcut, hflatten.symm, hgaps,
    by decide, ?_⟩
  exact hset ['\n'] _ (List.forall_mem_singleton.2 (by decide)) rfl hgaps (by decide)
    fun _ _ _ => rfl

end Bnf.Nesting
