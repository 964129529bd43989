import Bnf.Live
import Bnf.Proofs.RuleLine
import Bnf.UnicodeData.Version14
import Mathlib

/-!
# What is printed does not matter

A program that shows its trace at once does what the recording operation does: it ends in the same
result, leaves the same grammar, takes every indentation back, and prints the recorded events as
far as the level of the session allows it. `Live.Performs` says this of one program, and is kept
when programs follow each other, so that it passes from the single token over symbols, productions
and definitions to rules, and along the lines of a grammar.

A recorded trace does not depend on the level. So two runs that differ in their levels end alike,
and the lines of the lower level are among those of the higher one.
-/

namespace Bnf

/-! ## Lines of a trace -/

namespace Trace

/-- The line of an event, if it is printed under the settings. -/
def Settings.line? (settings : Settings) (event : Event) : Option Line :=
  if event.note.level ≤ settings.level then
    some ⟨event.note.level, settings.renderEvent event⟩
  else none

/-- The lines of a trace that are printed under the settings. -/
def Settings.shown (settings : Settings) (events : List Event) : List Line :=
  events.filterMap settings.line?

variable {settings : Settings}

/-- The lines of two traces in a row. -/
@[simp]
theorem shown_append (first second : List Event) :
    settings.shown (first ++ second) = settings.shown first ++ settings.shown second :=
  List.filterMap_append

/-- A trace without events has no lines. -/
@[simp]
theorem shown_nil : settings.shown [] = [] := rfl

/-- Events one rule further inside are shown as under an indentation by one more blank. -/
theorem shown_deeper (events : List Event) :
    settings.shown (events.map Event.deeper) =
      Settings.shown { settings with indent := settings.indent + 1 } events := by
  have hline (event : Event) : settings.line? event.deeper =
      Settings.line? { settings with indent := settings.indent + 1 } event := by
    have hdepth : settings.indent + (event.depth + 1 : Nat) =
        settings.indent + 1 + event.depth := by omega
    simp only [Settings.line?, Settings.renderEvent, Settings.renderLine, Event.deeper, hdepth]
  simp only [Settings.shown, List.filterMap_map, Function.comp_def, hline]

/-- The lines of a lower level are those of a higher one up to that level. -/
theorem shown_filter {low high : Settings} (hlevel : low.level ≤ high.level)
    (hindent : low.indent = high.indent) (events : List Event) :
    low.shown events = (high.shown events).filter fun line => line.level ≤ low.level := by
  have hline (event : Event) : low.line? event =
      (high.line? event).filter fun line => line.level ≤ low.level := by
    by_cases hlow : event.note.level ≤ low.level
    · have hhigh : event.note.level ≤ high.level := Int.le_trans hlow hlevel
      have hrender : low.renderEvent event = high.renderEvent event := by
        simp [Settings.renderEvent, Settings.renderLine, hlow, hhigh, hindent]
      simp [Settings.line?, hlow, hhigh, hrender, Option.filter]
    · by_cases hhigh : event.note.level ≤ high.level <;>
        simp [Settings.line?, hlow, hhigh, Option.filter]
  rw [Settings.shown, Settings.shown, List.filter_filterMap]
  exact List.filterMap_congr fun event _ => hline event

end Trace

namespace Live

variable {α β : Type}

/-! ## Programs on a session -/

@[simp]
theorem on_pure (value : α) (session : Session) :
    (pure value : Live α).on session = (.ok value, session) := rfl

@[simp]
theorem on_throw (fault : Fault) (session : Session) :
    (throw fault : Live α).on session = (.error fault, session) := rfl

/-- After a value, the rest goes on with the session that is left. After a fault nothing does. -/
theorem on_bind (first : Live α) (next : α → Live β) (session : Session) :
    (first >>= next).on session =
      match first.on session with
      | (.ok value, left) => (next value).on left
      | (.error fault, left) => (.error fault, left) := by
  unfold on ExceptT.run StateT.run
  simp only [Bind.bind, ExceptT.bind, ExceptT.mk, StateT.bind, ExceptT.bindCont]
  rcases first session with ⟨_ | value, left⟩ <;> rfl

@[simp]
theorem on_get_bind (next : Session → Live α) (session : Session) :
    (get >>= next : Live α).on session = (next session).on session := rfl

@[simp]
theorem on_modify_bind (change : Session → Session) (next : Unit → Live α) (session : Session) :
    (modify change >>= next : Live α).on session = (next ()).on (change session) := rfl

/-- What is to be done at the end is done after a value and after a fault. -/
theorem on_finally (program : Live α) (last : Live Unit) (session : Session) :
    (tryFinally program last).on session =
      match program.on session with
      | (result, left) =>
        match last.on left with
        | (.ok _, left) => (result, left)
        | (.error fault, left) => (.error fault, left) := by
  unfold on ExceptT.run StateT.run
  simp only [tryFinally, tryFinally', Functor.map, ExceptT.map, ExceptT.mk, Bind.bind, StateT.bind]
  rcases program session with ⟨_ | value, left⟩
  · dsimp only
    rcases last left with ⟨_ | value, left⟩ <;> rfl
  · dsimp only
    rcases last left with ⟨_ | value, left⟩ <;> rfl

/-- A fault that is caught is dealt with in the session that it leaves. -/
theorem on_catch (program : Live α) (handle : Fault → Live α) (session : Session) :
    (tryCatch program handle).on session =
      match program.on session with
      | (.ok value, left) => (.ok value, left)
      | (.error fault, left) => (handle fault).on left := by
  unfold on ExceptT.run StateT.run
  simp only [tryCatch, tryCatchThe, MonadExceptOf.tryCatch, ExceptT.tryCatch, ExceptT.mk,
    Bind.bind, StateT.bind]
  rcases program session with ⟨_ | value, left⟩ <;> rfl

/-- A note is printed at the indentation of the session. -/
theorem on_note (note : Trace.Note) (session : Session) :
    (Live.note note).on session = (.ok (),
      { session with printed := session.printed ++ session.settings.shown [⟨0, note⟩] }) := by
  unfold Live.note
  rw [on_get_bind]
  by_cases hlevel : note.level ≤ session.settings.level
  · have hline : session.settings.shown [⟨0, note⟩] =
        [⟨note.level, String.ofList (List.replicate session.settings.indent.toNat ' ') ++
          note.text ++ "\n"⟩] := by
      simp [Trace.Settings.shown, Trace.Settings.line?, Trace.Settings.renderEvent,
        Trace.Settings.renderLine, hlevel]
    simp only [hlevel, if_true, hline]
    rfl
  · simp [hlevel, Trace.Settings.shown, Trace.Settings.line?]

/-- The indentation is taken back after a value and after a fault. -/
theorem on_inside (program : Live α) (session : Session) :
    (inside program).on session =
      let indented := { session with
        settings := { session.settings with indent := session.settings.indent + 1 } }
      let (result, left) := program.on indented
      (result, { left with
        settings := { left.settings with indent := left.settings.indent - 1 } }) := by
  unfold inside
  rw [on_bind]
  show (tryFinally program (indent (-1))).on _ = _
  rw [on_finally]
  rfl

/-! ## Programs and recording computations -/

/-- Whatever is shown, a program on a grammar ends as a recording computation does. It leaves the
settings as they were, prints the recorded events as they are shown, and leaves another grammar. -/
def Performs (program : Live α) (before : Grammar) (run : Traced α) (after : Grammar) : Prop :=
  ∀ settings printed, program.on ⟨settings, printed, before⟩ =
    (run.result, ⟨settings, printed ++ settings.shown run.events, after⟩)

namespace Performs

variable {before after grammar : Grammar}

theorem pure (value : α) :
    Performs (Pure.pure value) grammar (Pure.pure value) grammar := by
  intro settings printed
  simp

theorem fail (fault : Fault) :
    Performs (throw fault : Live α) grammar (Traced.fail fault) grammar := by
  intro settings printed
  simp

theorem note (note : Trace.Note) :
    Performs (Live.note note) grammar (Traced.record note) grammar :=
  fun settings printed => on_note note ⟨settings, printed, grammar⟩

/-- A program follows another one as their computations do, if the first keeps the grammar. -/
theorem bind {first : Live α} {next : α → Live β} {run : Traced α} {further : α → Traced β}
    (hfirst : Performs first before run before)
    (hnext : ∀ value, Performs (next value) before (further value) after)
    (hfault : ∀ fault, run.result = .error fault → after = before) :
    Performs (first >>= next) before (run >>= further) after := by
  intro settings printed
  rw [on_bind, hfirst settings printed]
  cases hrun : run.result with
  | ok value =>
      dsimp only
      rw [hnext value, Traced.result_bind, Traced.events_bind_of_ok hrun, hrun]
      simp [Except.bind]
  | error fault =>
      dsimp only
      rw [Traced.result_bind, Traced.events_bind_of_error hrun, hrun, hfault fault hrun]
      rfl

end Performs

/-- A program on a grammar does as a recording computation, and keeps the grammar. -/
abbrev Follows (grammar : Grammar) (program : Live α) (run : Traced α) : Prop :=
  Performs program grammar run grammar

namespace Follows

variable {grammar : Grammar}

theorem bind {first : Live α} {next : α → Live β} {run : Traced α} {further : α → Traced β}
    (hfirst : Follows grammar first run)
    (hnext : ∀ value, Follows grammar (next value) (further value)) :
    Follows grammar (first >>= next) (run >>= further) :=
  Performs.bind hfirst hnext fun _ _ => rfl

theorem map (function : α → β) {program : Live α} {run : Traced α}
    (h : Follows grammar program run) :
    Follows grammar (function <$> program) (function <$> run) := by
  rw [← bind_pure_comp, ← bind_pure_comp]
  exact h.bind fun value => Performs.pure (function value)

/-- One blank further in, what is printed are the events one rule further inside. -/
theorem inside {program : Live α} {run : Traced α} (h : Follows grammar program run) :
    Follows grammar (Live.inside program) (Traced.nested run) := by
  intro settings printed
  rw [on_inside]
  dsimp only
  rw [h, Traced.events_nested, Trace.shown_deeper, Int.add_sub_cancel]
  rfl

/-! ### Matching -/

variable {tokens : List String}

theorem oneToken (symbol : Symbol) (accepts : String → Bool) (start : Int) :
    Follows grammar (Live.oneToken tokens symbol accepts start)
      (Matching.oneToken tokens symbol accepts start) := by
  unfold Live.oneToken Matching.oneToken
  split
  · cases Matching.tokenAt? tokens start with
    | none => exact Performs.fail _
    | some token =>
        dsimp only
        split
        · exact bind (Performs.note _) fun _ => Performs.pure _
        · exact bind (Performs.note _) fun _ => Performs.pure _
  · exact bind (Performs.note _) fun _ => Performs.pure _

theorem unmatchable (symbol : Symbol) :
    Follows grammar (do Live.note (.unmatchable symbol); return none : Live (Option Int))
      (do Traced.record (.unmatchable symbol); return none) :=
  bind (Performs.note _) fun _ => Performs.pure none

theorem advance {step : Int → Live (Option Int)} {lap : Int → Traced (Option Int)}
    (h : ∀ position, Follows grammar (step position) (lap position)) (size : Nat) (start : Int) :
    Follows grammar (Live.advance step size start) (Matching.advance lap size start) := by
  rw [Live.advance, Matching.advance]
  split
  · refine bind (h start) fun next => ?_
    cases next with
    | none => exact Performs.pure start
    | some position =>
        by_cases hnext : start < position
        · simp only [hnext, dite_true]
          exact advance h size position
        · simp only [hnext, dite_false]
          exact Performs.pure start
  · exact Performs.pure start
termination_by (size - start).toNat

variable [UnicodeData] {play : String → Int → Live (Option Int)}
  {call : String → Int → Traced (Option Int)}

/-- A symbol is matched as the recording matcher does, with its modifier and without. -/
def OnSymbol (grammar : Grammar) (tokens : List String) (play : String → Int → Live (Option Int))
    (call : String → Int → Traced (Option Int)) (symbol : Symbol) : Prop :=
  ∀ start, Follows grammar (matchSymbol tokens play symbol start)
      (symbol.matchAt tokens call start) ∧
    Follows grammar (matchModified tokens play symbol start)
      (symbol.matchModified tokens call start)

theorem production {production : Production}
    (hsymbols : ∀ symbol ∈ production, OnSymbol grammar tokens play call symbol) (start : Int) :
    Follows grammar (matchProduction tokens play production start)
      (Production.matchAt tokens call production start) := by
  induction production generalizing start with
  | nil => exact Performs.pure (some start)
  | cons symbol rest ih =>
      rw [matchProduction_cons, Production.matchAt_cons]
      refine bind (hsymbols symbol List.mem_cons_self start).2 fun next => ?_
      cases next with
      | none => exact Performs.pure none
      | some position => exact ih (fun s hs => hsymbols s (List.mem_cons_of_mem symbol hs)) position

theorem definition {definition : Definition}
    (hsymbols : ∀ production ∈ definition, ∀ symbol ∈ production,
      OnSymbol grammar tokens play call symbol) (start : Int) :
    Follows grammar (matchDefinition tokens play definition start)
      (Definition.matchAt tokens call definition start) := by
  induction definition with
  | nil => exact Performs.pure none
  | cons first rest ih =>
      rw [matchDefinition, Definition.matchAt]
      refine bind (production (hsymbols first List.mem_cons_self) start) fun finish => ?_
      cases finish with
      | none => exact ih fun later hlater => hsymbols later (List.mem_cons_of_mem first hlater)
      | some position => exact Performs.pure (some position)

/-- Every symbol is matched as the recording matcher does if rules are. -/
theorem symbol (hcall : ∀ name position, Follows grammar (play name position) (call name position))
    (symbol : Symbol) : OnSymbol grammar tokens play call symbol := by
  -- By itself a modified symbol matches nothing; what its body matches counts with the modifier.
  induction symbol using Symbol.induction with
  | terminal literal => exact fun start => ⟨oneToken _ _ start, oneToken _ _ start⟩
  | charClass pattern => exact fun start => ⟨oneToken _ _ start, oneToken _ _ start⟩
  | unknown code => exact fun _ => ⟨unmatchable _, unmatchable _⟩
  | reference name => exact fun start => ⟨hcall name start, hcall name start⟩
  | group alternatives ih => exact fun start => ⟨definition ih start, definition ih start⟩
  | optional body ih =>
      refine fun start => ⟨unmatchable _, ?_⟩
      exact map (fun next : Option Int => some (next.getD start)) (ih start).1
  | repeated body ih =>
      exact fun start => ⟨unmatchable _, map some (advance (fun lap => (ih lap).1) _ start)⟩

/-- Rules inside of each other are matched as the recording matcher does, however many there may
be. -/
theorem nested (bound : Nat) (name : String) (start : Int) :
    Follows grammar (matchNested tokens bound name start)
      (Matching.call grammar.definition? tokens bound name start) := by
  induction bound generalizing name start with
  | zero =>
      intro settings printed
      rw [matchNested, on_get_bind, Matching.call]
      dsimp only
      cases grammar.definition? name with
      | none => exact Performs.fail (.undefinedRule name) settings printed
      | some definition => exact Performs.fail .nestingExceeded settings printed
  | succ bound ih =>
      intro settings printed
      rw [matchNested, on_get_bind, Matching.call]
      dsimp only
      cases grammar.definition? name with
      | none => exact Performs.fail (.undefinedRule name) settings printed
      | some rules =>
          refine bind (Performs.note _) (fun _ => ?_) settings printed
          refine bind (inside (definition (fun _ _ part _ => symbol ih part) start))
            fun finish => ?_
          exact bind (Performs.note _) fun _ => Performs.pure finish

theorem rule (name : String) (start : Int) :
    Follows grammar (matchRule tokens name start) (grammar.call tokens name start) := by
  intro settings printed
  rw [matchRule, on_get_bind]
  exact nested _ name start settings printed

end Follows

/-! ## Sentences and lines -/

variable [UnicodeData]

/-- A sentence is judged as the recording operation judges it. -/
theorem Performs.validate (sentence rule : String) (grammar : Grammar) :
    Performs (Live.validate sentence rule) grammar (grammar.validate sentence rule).1
      (grammar.validate sentence rule).2 := by
  intro settings printed
  unfold Live.validate Grammar.validate
  rw [on_get_bind]
  by_cases hdefined : grammar.defines rule
  · simp only [hdefined, if_true]
    rw [on_get_bind]
    dsimp only
    rcases grammar.cycleFrom rule with ⟨_ | cycle, after⟩
    · dsimp only
      rw [on_modify_bind]
      exact Follows.bind (Follows.rule rule 0) (fun finish => Performs.pure _) settings printed
    · dsimp only
      rw [on_modify_bind]
      exact Performs.fail (.recursiveRule cycle) settings printed
  · simp only [hdefined]
    exact Performs.fail (.undefinedRule rule) settings printed

/-- A definition is inserted into the grammar of the session as into any grammar, also if it cannot
be read. -/
theorem on_insert (name source : String) (session : Session) :
    (Live.insert name source).on session = ((session.grammar.insert name source).1,
      { session with grammar := (session.grammar.insert name source).2 }) := by
  unfold Live.insert Grammar.insert
  rw [on_modify_bind]
  cases Definition.read source.toList <;> rfl

/-- A line is noted before anything else is done with it. -/
theorem events_read_line (grammar : Grammar) (line : String) :
    (grammar.readLine line).1.events = [⟨0, .line line⟩] := by
  unfold Grammar.readLine
  dsimp only
  split <;> rfl

theorem on_read_line (line : String) (session : Session) :
    (Live.readLine line).on session = ((session.grammar.readLine line).1.result, { session with
      printed := session.printed ++ session.settings.shown [⟨0, .line line⟩]
      grammar := (session.grammar.readLine line).2 }) := by
  unfold Live.readLine Grammar.readLine
  rw [on_bind, on_note]
  cases RuleLine.read? line.toList with
  | none => rfl
  | some written =>
      dsimp only
      rw [on_bind, on_insert]
      dsimp only
      rcases session.grammar.insert (String.ofList written.1) (String.ofList written.2) with
        ⟨_ | _, changed⟩ <;> rfl

/-- A line is read as the recording operation reads it. -/
theorem Performs.readLine (line : String) (grammar : Grammar) :
    Performs (Live.readLine line) grammar (grammar.readLine line).1 (grammar.readLine line).2 := by
  intro settings printed
  rw [on_read_line, events_read_line]

/-- One more line is loaded as the recording operation loads it. -/
theorem on_load_line (settings : Trace.Settings) (printed : List Trace.Line) {loaded : Loaded}
    {count : Nat} (h : loaded.result = .ok count) (line : List Char) :
    (Live.loadLine count line).on
        ⟨settings, printed ++ settings.shown loaded.events, loaded.grammar⟩ =
      ((Grammar.loadLine loaded line).result, ⟨settings,
        printed ++ settings.shown (Grammar.loadLine loaded line).events,
        (Grammar.loadLine loaded line).grammar⟩) := by
  unfold Live.loadLine Grammar.loadLine
  rw [h]
  dsimp only
  split
  · rw [on_pure, h]
  · rw [on_catch, on_bind, on_read_line, events_read_line]
    dsimp only
    cases (loaded.grammar.readLine (String.ofList (Text.strip line))).1.result with
    | ok name => simp
    | error fault =>
        dsimp only
        split
        · rw [on_bind, on_note]
          simp [Trace.Settings.shown, ← List.filterMap_append]
        · simp

/-- Lines are loaded as the recording operation loads them. -/
theorem Performs.load (lines : List (List Char)) (grammar : Grammar) :
    Performs (Live.load lines) grammar ⟨(grammar.load lines).events, (grammar.load lines).result⟩
      (grammar.load lines).grammar := by
  -- The fold starts anywhere, after what has been loaded and printed up to then.
  have hlines (settings : Trace.Settings) (printed : List Trace.Line) (loaded : Loaded)
      (count : Nat) (hloaded : loaded.result = .ok count) :
      (lines.foldlM Live.loadLine count).on
          ⟨settings, printed ++ settings.shown loaded.events, loaded.grammar⟩ =
        ((lines.foldl Grammar.loadLine loaded).result, ⟨settings,
          printed ++ settings.shown (lines.foldl Grammar.loadLine loaded).events,
          (lines.foldl Grammar.loadLine loaded).grammar⟩) := by
    induction lines generalizing loaded count with
    | nil => rw [List.foldlM_nil, List.foldl_nil, on_pure, hloaded]
    | cons line rest ih =>
        rw [List.foldlM_cons, List.foldl_cons, on_bind, on_load_line settings printed hloaded]
        cases hline : (Grammar.loadLine loaded line).result with
        | ok next => exact ih _ next hline
        | error fault =>
            dsimp only
            rw [Grammar.foldl_loadLine_of_error hline, hline]
  intro settings printed
  have hload := hlines settings printed ⟨grammar, .ok 0, []⟩ 0 rfl
  rwa [Trace.shown_nil, List.append_nil] at hload

/-! ## Levels -/

/-- On every session a program ends as an operation does on its grammar and leaves the grammar that
the operation leaves. It prints the recorded events as far as the settings show them, and keeps the
settings. -/
def Shows (program : Live α) (operation : Grammar → Traced α × Grammar) : Prop :=
  ∀ session : Session, program.on session = ((operation session.grammar).1.result,
    { session with
      printed := session.printed ++ session.settings.shown (operation session.grammar).1.events,
      grammar := (operation session.grammar).2 })

/-- A program ends alike in two sessions and leaves the same grammar, takes all indentation back,
and of the lines that it prints in the second session prints those in the first one that the level
of the first one allows, in their order. -/
structure Agrees (program : Live α) (low high : Session) : Prop where
  result : (program.on low).1 = (program.on high).1
  grammar : (program.on low).2.grammar = (program.on high).2.grammar
  settings_low : (program.on low).2.settings = low.settings
  settings_high : (program.on high).2.settings = high.settings
  printed : ∃ lines, (program.on high).2.printed = high.printed ++ lines ∧
    (program.on low).2.printed =
      low.printed ++ lines.filter fun line => line.level ≤ low.settings.level

omit [UnicodeData] in
/-- What performs on every grammar shows its trace. -/
theorem Shows.of_performs {program : Live α} {operation : Grammar → Traced α × Grammar}
    (h : ∀ grammar, Performs program grammar (operation grammar).1 (operation grammar).2) :
    Shows program operation :=
  fun session => h session.grammar session.settings session.printed

omit [UnicodeData] in
/-- The recorded trace does not depend on the level, so what shows its trace agrees with itself on
another level. -/
theorem Shows.agrees {program : Live α} {operation : Grammar → Traced α × Grammar}
    (h : Shows program operation) {low high : Session}
    (hlevel : low.settings.level ≤ high.settings.level)
    (hindent : low.settings.indent = high.settings.indent)
    (hgrammar : low.grammar = high.grammar) : Agrees program low high where
  result := by rw [h low, h high, hgrammar]
  grammar := by rw [h low, h high, hgrammar]
  settings_low := by rw [h low]
  settings_high := by rw [h high]
  printed := by
    refine ⟨high.settings.shown (operation high.grammar).1.events, by rw [h high], ?_⟩
    rw [h low, hgrammar, Trace.shown_filter hlevel hindent]

/-- Rules, productions, definitions and symbols are matched, sentences are judged and lines are
read and loaded in the same way on every level. Each of these programs ends as the operation that
records its trace, in a value or in a fault, and leaves the same grammar and the indentation as it
was. Under the lower of two levels it prints exactly those lines that it prints under the higher one
and whose level the lower one allows. -/
theorem levels_nested {low high : Session} (hlevel : low.settings.level ≤ high.settings.level)
    (hindent : low.settings.indent = high.settings.indent)
    (hgrammar : low.grammar = high.grammar) :
    (∀ tokens name start,
      Shows (matchRule tokens name start)
        (fun grammar => (grammar.call tokens name start, grammar)) ∧
      Agrees (matchRule tokens name start) low high) ∧
    (∀ tokens production start,
      Shows (matchProduction tokens (matchRule tokens) production start)
        (fun grammar => (Production.matchAt tokens (grammar.call tokens) production start,
          grammar)) ∧
      Agrees (matchProduction tokens (matchRule tokens) production start) low high) ∧
    (∀ tokens definition start,
      Shows (matchDefinition tokens (matchRule tokens) definition start)
        (fun grammar => (Definition.matchAt tokens (grammar.call tokens) definition start,
          grammar)) ∧
      Agrees (matchDefinition tokens (matchRule tokens) definition start) low high) ∧
    (∀ tokens symbol start,
      Shows (matchSymbol tokens (matchRule tokens) symbol start)
        (fun grammar => (Symbol.matchAt tokens (grammar.call tokens) symbol start, grammar)) ∧
      Agrees (matchSymbol tokens (matchRule tokens) symbol start) low high) ∧
    (∀ sentence rule,
      Shows (validate sentence rule) (fun grammar => grammar.validate sentence rule) ∧
      Agrees (validate sentence rule) low high) ∧
    (∀ line,
      Shows (readLine line) (fun grammar => grammar.readLine line) ∧
      Agrees (readLine line) low high) ∧
    (∀ lines,
      Shows (load lines) (fun grammar =>
        (⟨(grammar.load lines).events, (grammar.load lines).result⟩,
          (grammar.load lines).grammar)) ∧
      Agrees (load lines) low high) := by
  -- What the levels have in common follows from what is shown on each of them.
  have hboth {α : Type} {program : Live α} {operation : Grammar → Traced α × Grammar}
      (h : ∀ grammar, Performs program grammar (operation grammar).1 (operation grammar).2) :
      Shows program operation ∧ Agrees program low high :=
    ⟨.of_performs h, (Shows.of_performs h).agrees hlevel hindent hgrammar⟩
  have hsymbol (tokens : List String) (symbol : Symbol) (grammar : Grammar) :
      Follows.OnSymbol grammar tokens (matchRule tokens) (grammar.call tokens) symbol :=
    Follows.symbol Follows.rule symbol
  refine ⟨?_, ?_, ?_, ?_, ?_, ?_, ?_⟩
  · intro tokens name start
    exact hboth fun grammar => Follows.rule name start
  · intro tokens production start
    exact hboth fun grammar =>
      Follows.production (fun symbol _ => hsymbol tokens symbol grammar) start
  · intro tokens definition start
    exact hboth fun grammar =>
      Follows.definition (fun _ _ symbol _ => hsymbol tokens symbol grammar) start
  · intro tokens symbol start
    exact hboth fun grammar => (hsymbol tokens symbol grammar start).1
  · intro sentence rule
    exact hboth fun grammar => Performs.validate sentence rule grammar
  · intro line
    exact hboth fun grammar => Performs.readLine line grammar
  · intro lines
    exact hboth fun grammar => Performs.load lines grammar

end Live

end Bnf

namespace Bnf.Live

/-- A sentence is judged on the level of rules and on that of tokens. The first one prints where the
rules begin and end, the second one the tokens in between as well. -/
theorem levels_nested_greeting :
    let session (level : Int) : Session :=
      ⟨⟨level, 0⟩, [], Grammar.ofSources [("greeting", "\"hello\" <name>"), ("name", "\"you\"")]⟩
    let validation := validate "hello you" "greeting"
    (validation.on (session 2)).1 = .ok true ∧
    (validation.on (session 2)).2.printed.map (·.level) = [2, 2, 2, 2] ∧
    (validation.on (session 3)).2.printed.map (·.level) = [2, 3, 2, 3, 2, 2] ∧
    Agrees validation (session 2) (session 3) := by
  intro session validation
  have hlevel : (session 2).settings.level ≤ (session 3).settings.level := by
    show (2 : Int) ≤ 3
    omega
  obtain ⟨hshows, hagrees⟩ :=
    (levels_nested hlevel rfl rfl).2.2.2.2.1 "hello you" "greeting"
  have hrun : ((session 2).grammar.validate "hello you" "greeting").1 =
      ⟨[⟨0, .entered "greeting" 0⟩, ⟨1, .matched "hello" (.terminal "hello")⟩,
        ⟨1, .entered "name" 1⟩, ⟨2, .matched "you" (.terminal "you")⟩,
        ⟨1, .left "name" (some 2)⟩, ⟨0, .left "greeting" (some 2)⟩], .ok true⟩ := by
    cbv
  refine ⟨?_, ?_, ?_, hagrees⟩
  · rw [hshows, hrun]
  · rw [hshows, hrun]
    rfl
  · rw [hshows, show (session 3).grammar = (session 2).grammar from rfl, hrun]
    rfl

end Bnf.Live
