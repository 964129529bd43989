import Bnf.Proofs.HomeCommands
import Bnf.Trial
import Mathlib

/-!
# Trials case by case

A trial keeps its grammar from case to case, and the grammar learns from every verdict. None of this
shows in the report: what is written of a case, and whether it is met, is what a grammar that knows
nothing yet says of it (`attempt`), whatever cases came before. So a trial is made of independent
attempts (`judge_attempted`). The first that fails ends it without a summary, and if none fails the
summary counts the cases and those that are met: `attempts_reported`. A trial of home commands does
not fail, as long as its lines write cases (`Case.read_eq_ok_iff`) for rules that are defined and
what is marked up can be shown: `home_commands_reported`.
-/

namespace Bnf.Trial

/-! ## Cases as they are written -/

/-- The fields of a case, in the order in which they are written. -/
def Case.fields (case : Case) : List (List Char) :=
  [case.rule.toList, case.sentence.toList, case.expected.toList]

/-- A line writes a case exactly if it consists of the fields with tabs between them, and there are
no tabs in the fields. -/
theorem Case.read_eq_ok_iff {line : List Char} {case : Case} :
    Case.read line = .ok case ↔
      line = ['\t'].intercalate case.fields ∧ ∀ field ∈ case.fields, '\t' ∉ field := by
  constructor
  · intro h
    rw [Case.read] at h
    split at h
    · rename_i rule sentence expected hsplit
      cases h
      have hfields : Case.fields ⟨String.ofList rule, String.ofList sentence,
          String.ofList expected⟩ = [rule, sentence, expected] := by simp [Case.fields]
      rw [hfields, ← hsplit]
      refine ⟨(Text.split_intercalate '\t' line).symm, fun field hfield hmem => ?_⟩
      have htab := Text.not_separates_of_mem_split hfield hmem
      rw [beq_self_eq_true] at htab
      cases htab
    · cases h
  · rintro ⟨rfl, hfields⟩
    obtain ⟨hrule, hsentence, hexpected⟩ : '\t' ∉ case.rule.toList ∧
        '\t' ∉ case.sentence.toList ∧ '\t' ∉ case.expected.toList := by
      simpa [Case.fields] using hfields
    have hline : ['\t'].intercalate case.fields =
        case.rule.toList ++ '\t' :: (case.sentence.toList ++ '\t' :: case.expected.toList) := by
      simp [Case.fields, List.intercalate]
    rw [Case.read, hline, Text.split_append hrule, Text.split_append hsentence,
      Text.split_of_not_mem hexpected]
    simp

variable [UnicodeData] {Unshown : Type}

/-- What is written of the case of a line, if nothing has been judged before, and whether the
expected verdict is met or why the trial ends there. -/
def attempt (render : Renderer Unshown) (fresh : Grammar) (line : List Char) :
    Transcript × Except (Fault ⊕ Unshown) Bool :=
  match Case.read line with
  | .error fault => ([], .error (.inl fault))
  | .ok case =>
    let verdict := (fresh.validate case.sentence case.rule).1
    let traced := Transcript.ofEvents verdict.events
    match verdict.result with
    | .error fault => (traced, .error (.inl fault))
    | .ok valid =>
      match write render (case.report valid) with
      | (written, some unshown) => (traced ++ written, .error (.inr unshown))
      | (written, none) => (traced ++ written, .ok (case.isMet valid))

/-- Whether the case of a line is judged and reported, with the expected verdict. -/
def meets (render : Renderer Unshown) (fresh : Grammar) (line : List Char) : Bool :=
  match (attempt render fresh line).2 with
  | .ok isMet => isMet
  | .error _ => false

variable {render : Renderer Unshown} {grammar fresh : Grammar} {line : List Char}
  {before : List (List Char)}

/-! ## One case -/

/-- The first case is attempted, and unless it fails the others follow it with what it adds to the
tally. -/
theorem judge_cons (tally : Tally) (rest : List (List Char))
    (h : Grammar.Resembles grammar fresh) :
    ∃ after, Grammar.Resembles after fresh ∧ judge render grammar tally (line :: rest) =
      match attempt render fresh line with
      | (written, .error ending) => (written, some ending)
      | (written, .ok isMet) =>
        let (later, ending) := judge render after (tally.count isMet) rest
        (written ++ later, ending) := by
  rw [judge, attempt]
  cases Case.read line with
  | error fault => exact ⟨grammar, h, rfl⟩
  | ok case =>
      refine ⟨_, h.judging case.sentence case.rule, ?_⟩
      dsimp only
      rw [h.verdict]
      cases (fresh.validate case.sentence case.rule).1.result with
      | error fault => rfl
      | ok valid =>
          dsimp only
          rcases write render (case.report valid) with ⟨written, _ | unshown⟩ <;> rfl

/-! ## Whole trials -/

/-- Cases that do not fail are reported one after the other, and then the trial goes on with the
others. -/
theorem judge_attempted (tally : Tally) (rest : List (List Char))
    (h : Grammar.Resembles grammar fresh)
    (hbefore : ∀ earlier ∈ before, ∃ isMet, (attempt render fresh earlier).2 = .ok isMet) :
    ∃ after, Grammar.Resembles after fresh ∧ judge render grammar tally (before ++ rest) =
      let (later, ending) := judge render after
        ⟨tally.met + before.countP (meets render fresh), tally.total + before.length⟩ rest
      (before.flatMap (fun earlier => (attempt render fresh earlier).1) ++ later, ending) := by
  induction before generalizing grammar tally with
  | nil => exact ⟨grammar, h, rfl⟩
  | cons first more ih =>
      obtain ⟨⟨isMet, hfirst⟩, hmore⟩ := List.forall_mem_cons.1 hbefore
      obtain ⟨middle, hmiddle, hjudge⟩ := judge_cons tally (more ++ rest) h
      obtain ⟨after, hafter, hlater⟩ := ih (tally.count isMet) hmiddle hmore
      have hmeets : meets render fresh first = isMet := by rw [meets, hfirst]
      have htally : Tally.mk ((tally.count isMet).met + more.countP (meets render fresh))
          ((tally.count isMet).total + more.length) =
            ⟨tally.met + (first :: more).countP (meets render fresh),
              tally.total + (first :: more).length⟩ := by
        rw [List.countP_cons, hmeets, List.length_cons, Tally.count]
        cases isMet <;> simp <;> omega
      refine ⟨after, hafter, ?_⟩
      rw [List.cons_append, hjudge, ← htally]
      rcases hattempt : attempt render fresh first with ⟨written, ending⟩
      obtain rfl : ending = .ok isMet := by rw [← hfirst, hattempt]
      simp [hlater, hattempt]

/-- If no case fails, the trial ends with the summary of all. -/
theorem judge_all (h : Grammar.Resembles grammar fresh) {lines : List (List Char)}
    (hlines : ∀ line ∈ lines, ∃ isMet, (attempt render fresh line).2 = .ok isMet) :
    judge render grammar ⟨0, 0⟩ lines =
      let (summary, unshown) := write render
        [Tally.summary ⟨lines.countP (meets render fresh), lines.length⟩]
      (lines.flatMap (fun line => (attempt render fresh line).1) ++ summary,
        unshown.map .inr) := by
  obtain ⟨after, -, hjudge⟩ := judge_attempted ⟨0, 0⟩ [] h hlines
  rw [List.append_nil] at hjudge
  rw [hjudge, judge]
  simp

/-- A trial of a grammar with any history, case by case. The first case that fails ends the trial:
nothing is written after it, and there is no summary. If none fails, the summary counts the cases
and those that are met. -/
theorem attempts_reported (sources : List (String × String))
    (operations : List Grammar.Operation) (lines : List (List Char)) :
    let grammar := Grammar.run operations (Grammar.ofSources sources)
    let attempts := attempt render { grammar with acyclic := [] }
    let reported (cases : List (List Char)) := cases.flatMap fun line => (attempts line).1
    (∀ before line later ending, lines = before ++ line :: later →
      (∀ earlier ∈ before, ∃ isMet, (attempts earlier).2 = .ok isMet) →
      (attempts line).2 = .error ending →
        judge render grammar ⟨0, 0⟩ lines = (reported (before ++ [line]), some ending)) ∧
    ((∀ line ∈ lines, ∃ isMet, (attempts line).2 = .ok isMet) →
      judge render grammar ⟨0, 0⟩ lines =
        let (summary, unshown) := write render
          [Tally.summary ⟨lines.countP (meets render { grammar with acyclic := [] }),
            lines.length⟩]
        (reported lines ++ summary, unshown.map .inr)) := by
  intro grammar attempts reported
  have hknows : grammar.Knows grammar.acyclic := Grammar.knows_invariant.run sources operations
  have h : Grammar.Resembles grammar { grammar with acyclic := [] } :=
    ⟨rfl, hknows, Grammar.knows_nil⟩
  constructor
  · rintro before line later ending rfl hbefore hline
    obtain ⟨middle, hmiddle, hjudge⟩ :=
      judge_attempted ⟨0, 0⟩ (line :: later) h hbefore
    obtain ⟨_, -, hlast⟩ := judge_cons _ later hmiddle
    rcases hattempt : attempts line with ⟨written, result⟩
    obtain rfl : result = .error ending := by rw [← hline, hattempt]
    rw [hjudge, hlast]
    simp [reported, attempts, hattempt]
  · exact judge_all h

/-! ## Home commands -/

omit [UnicodeData] in
/-- A renderer that shows everything writes all lines. -/
theorem write_of_shows (hrender : ∀ text, ∃ shown, render text = .ok shown) (lines : List Line) :
    (write render lines).2 = none := by
  induction lines with
  | nil => rfl
  | cons line rest ih =>
      obtain ⟨shown, hshown⟩ : ∃ shown, line.shown render = .ok shown := by
        cases line with
        | plain text => exact ⟨text, rfl⟩
        | marked text => exact hrender text
      rw [write, hshown]
      exact ih

/-- Then a trial in which no case fails comes to its end. -/
theorem judge_all_of_shows (hrender : ∀ text, ∃ shown, render text = .ok shown)
    (h : Grammar.Resembles grammar fresh) {lines : List (List Char)}
    (hlines : ∀ line ∈ lines, ∃ isMet, (attempt render fresh line).2 = .ok isMet) :
    judge render grammar ⟨0, 0⟩ lines =
      (lines.flatMap (fun line => (attempt render fresh line).1) ++
        (write render [Tally.summary ⟨lines.countP (meets render fresh), lines.length⟩]).1,
        none) := by
  rw [judge_all h hlines]
  simp [write_of_shows hrender]

/-- A case that is judged does not fail if its report can be shown. -/
theorem attempt_of_valid (hrender : ∀ text, ∃ shown, render text = .ok shown) {case : Case}
    {valid : Bool} (hread : Case.read line = .ok case)
    (hvalid : (fresh.validate case.sentence case.rule).1.result = .ok valid) :
    (attempt render fresh line).2 = .ok (case.isMet valid) := by
  have hwritten := write_of_shows hrender (case.report valid)
  rw [attempt, hread]
  dsimp only
  rw [hvalid]
  dsimp only
  rcases hreport : write render (case.report valid) with ⟨written, unshown⟩
  obtain rfl : unshown = none := by rw [← hwritten, hreport]
  rfl

/-- A case of home commands is judged and reported if its rule is defined. It is met if it expects
`valid` of a sentence of the language, or `invalid` of another. -/
theorem attempt_home_command (hrender : ∀ text, ∃ shown, render text = .ok shown) {case : Case}
    (hread : Case.read line = .ok case) (hrule : HomeCommands.grammar.defines case.rule = true) :
    ∃ isMet, (attempt render HomeCommands.grammar line).2 = .ok isMet ∧
      (isMet = true ↔ ∃ valid : Bool, case.expected = verdictName valid ∧
        (valid = true ↔ Symbol.Derives HomeCommands.grammar.definition? (.reference case.rule)
          (Grammar.words case.sentence))) := by
  have hconsistent := HomeCommands.invariant_holds Grammar.consistent_invariant
  have hknows := HomeCommands.invariant_holds Grammar.knows_invariant
  have horder := HomeCommands.mem_order_of_defines hrule
  obtain ⟨valid, hvalid, hderives⟩ := (HomeCommands.usable horder).judges hconsistent hknows
    (HomeCommands.recognised case.rule horder) case.sentence
  refine ⟨case.isMet valid, attempt_of_valid hrender hread hvalid, ?_⟩
  rw [Case.isMet, beq_iff_eq, ← hderives]
  constructor
  · exact fun hexpected => ⟨valid, hexpected.symm, Iff.rfl⟩
  · rintro ⟨other, hexpected, hother⟩
    rw [hexpected, Bool.eq_iff_iff.2 hother]

/-- A trial of home commands whose lines all write cases for rules that are defined comes to its
summary. -/
theorem home_commands_reported (hrender : ∀ text, ∃ shown, render text = .ok shown)
    (cases : String)
    (hcases : ∀ line ∈ caseLines cases, ∃ case, Case.read line = .ok case ∧
      HomeCommands.grammar.defines case.rule = true) :
    run render cases =
      (Transcript.ofEvents HomeCommands.loaded.events ++
        ((caseLines cases).flatMap
            (fun line => (attempt render HomeCommands.grammar line).1) ++
          (write render [Tally.summary
            ⟨(caseLines cases).countP (meets render HomeCommands.grammar),
              (caseLines cases).length⟩]).1), none) := by
  have hknows := HomeCommands.invariant_holds Grammar.knows_invariant
  have hattempts : ∀ line ∈ caseLines cases,
      ∃ isMet, (attempt render HomeCommands.grammar line).2 = .ok isMet := by
    intro line hline
    obtain ⟨case, hread, hrule⟩ := hcases line hline
    obtain ⟨isMet, hmet, -⟩ := attempt_home_command hrender hread hrule
    exact ⟨isMet, hmet⟩
  rw [run, judge_all_of_shows hrender ⟨rfl, hknows, hknows⟩ hattempts]

end Bnf.Trial
