import Bnf.Proofs.Calls

/-!
# The rules that are being matched

A trace notes when the matcher enters a rule and when it leaves one, so it tells at each point which
rules are being matched, one inside of the other: `Trace.openRules`. `Traced.Guarded` says that this
stack has some property throughout a computation, that a computation that ends in a value leaves
the stack as it was, and that the allowed nesting was not exceeded. Matching keeps this
(`Traced.guarded_kept`), and a rule has it if what is matched inside of it has
(`Traced.Guarded.inside`).
-/

namespace Bnf

namespace Trace

/-- The rules that are being matched after an event, the innermost first, given those before it. -/
def Event.update (active : List String) (event : Event) : List String :=
  match event.note with
  | .entered rule _ => rule :: active
  | .left _ _ => active.tail
  | _ => active

/-- The rules that are being matched after some events, the innermost first, given those before
them. -/
def openRules (active : List String) (events : List Event) : List String :=
  events.foldl Event.update active

@[simp]
theorem open_rules_nil (active : List String) : openRules active [] = active := rfl

@[simp]
theorem open_rules_append (active : List String) (first second : List Event) :
    openRules active (first ++ second) = openRules (openRules active first) second :=
  List.foldl_append

/-- How deep events are indented does not matter for the rules that are being matched. -/
@[simp]
theorem open_rules_deeper (active : List String) (events : List Event) :
    openRules active (events.map Event.deeper) = openRules active events := by
  induction events generalizing active with
  | nil => rfl
  | cons event rest ih => exact ih (Event.update active event)

end Trace

namespace Traced

variable {α β : Type} {allowed : List String → Prop} {active middle final : List String}

/-- While a computation runs, the rules that are being matched are as allowed. They are known before
it and after it has ended in a value, and it does not end because rules were nested too deep. -/
structure Guarded (allowed : List String → Prop) (active final : List String) (run : Traced α) :
    Prop where
  within : ∀ before, before <+: run.events → allowed (Trace.openRules active before)
  leaves : ∀ value, run.result = .ok value → Trace.openRules active run.events = final
  ends : run.result ≠ .error .nestingExceeded

theorem guarded_pure (h : allowed active) (value : α) :
    Guarded allowed active active (Pure.pure value : Traced α) := by
  refine ⟨fun before hbefore => ?_, fun _ _ => rfl, (by simp)⟩
  rw [List.prefix_nil.1 hbefore]
  exact h

theorem guarded_fail (h : allowed active) {fault : Fault} (hfault : fault ≠ .nestingExceeded) :
    Guarded allowed active final (fail fault : Traced α) := by
  refine ⟨fun before hbefore => ?_, fun _ hend => (by cases hend), fun hend => ?_⟩
  · rw [List.prefix_nil.1 hbefore]
    exact h
  · exact hfault (Except.error.inj hend)

/-- A note is guarded if the rules that are being matched are as allowed before and after it. -/
theorem guarded_record {note : Trace.Note} (hnote : Trace.Event.update active ⟨0, note⟩ = final)
    (h : allowed active) (hfinal : allowed final) :
    Guarded allowed active final (record note) := by
  refine ⟨fun before hbefore => ?_, fun _ _ => hnote, (by simp)⟩
  rcases List.prefix_cons_iff.1 hbefore with rfl | ⟨rest, rfl, hrest⟩
  · exact h
  · rw [List.prefix_nil.1 hrest]
    subst hnote
    exact hfinal

/-- Being guarded is a matter of what is noted, and not of the depth at which it is noted. -/
theorem Guarded.nested {run : Traced α} (h : Guarded allowed active final run) :
    Guarded allowed active final (nested run) := by
  refine ⟨fun before hbefore => ?_, fun value hvalue => ?_, h.ends⟩
  · -- A part of the deeper trace is a part of the trace, made deeper.
    have hsame : before = (run.events.take before.length).map Trace.Event.deeper := by
      rw [List.map_take]
      exact List.prefix_iff_eq_take.1 hbefore
    rw [hsame, Trace.open_rules_deeper]
    exact h.within _ (List.take_prefix _ _)
  · rw [events_nested, Trace.open_rules_deeper]
    exact h.leaves value hvalue

/-- Two computations in a row are guarded if the second takes over the rules that the first one
leaves. -/
theorem Guarded.bind {first : Traced α} {next : α → Traced β}
    (hfirst : Guarded allowed active middle first)
    (hnext : ∀ value, first.result = .ok value → Guarded allowed middle final (next value)) :
    Guarded allowed active final (first >>= next) := by
  cases hresult : first.result with
  | error fault =>
      have hevents := events_bind_of_error hresult next
      have hend : (first >>= next).result = .error fault := by
        rw [result_bind, hresult]
        rfl
      refine ⟨?_, fun value hvalue => ?_, ?_⟩
      · rw [hevents]
        exact hfirst.within
      · rw [hend] at hvalue
        cases hvalue
      · rw [hend]
        exact fun hfault => hfirst.ends (hresult.trans (by rw [Except.error.inj hfault]))
  | ok value =>
      have hevents := events_bind_of_ok hresult next
      have hend : (first >>= next).result = (next value).result := by
        rw [result_bind, hresult]
        rfl
      have hleaves := hfirst.leaves value hresult
      have hsecond := hnext value hresult
      refine ⟨fun before hbefore => ?_, fun last hlast => ?_, ?_⟩
      · -- A part of the trace ends in the first computation, or comes into the second.
        rw [hevents] at hbefore
        obtain ⟨after, hsplit⟩ := hbefore
        rcases List.append_eq_append_iff.1 hsplit with ⟨rest, hall, -⟩ | ⟨rest, rfl, hrest⟩
        · exact hfirst.within before ⟨rest, hall.symm⟩
        · rw [Trace.open_rules_append, hleaves]
          exact hsecond.within rest ⟨after, hrest.symm⟩
      · rw [hevents, Trace.open_rules_append, hleaves]
        rw [hend] at hlast
        exact hsecond.leaves last hlast
      · rw [hend]
        exact hsecond.ends

/-- Being guarded is kept along a chain of computations that leave the rules open. -/
theorem guarded_chained (h : allowed active) :
    Matching.Chained (Guarded allowed active active) where
  pure value := guarded_pure h value
  bind hfirst hnext := hfirst.bind hnext

/-- Matching keeps being guarded. -/
theorem guarded_kept (tokens : List String) (h : allowed active) :
    Matching.Kept tokens (Guarded allowed active active) where
  toChained := guarded_chained h
  token := Matching.one_token_chained (guarded_chained h) (guarded_fail h (by simp))
    (fun _ _ => guarded_record rfl h h) (fun _ _ => guarded_record rfl h h) tokens
  unmatchable _ := guarded_record rfl h h

/-- Matching a rule is guarded if what is matched inside of it is, with the rule on the stack. -/
theorem Guarded.inside {name : String} {inner : Traced (Option Int)} (h : allowed active)
    (hname : allowed (name :: active))
    (hinner : Guarded allowed (name :: active) (name :: active) inner) (start : Int) :
    Guarded allowed active active (do
      record (.entered name start)
      let finish ← Traced.nested inner
      record (.left name finish)
      return finish) := by
  have hentered : Guarded allowed active (name :: active) (record (.entered name start)) :=
    guarded_record rfl h hname
  have hleft (finish : Option Int) :
      Guarded allowed (name :: active) active (record (.left name finish)) :=
    guarded_record rfl hname h
  exact hentered.bind fun _ _ => hinner.nested.bind fun finish _ =>
    (hleft finish).bind fun _ _ => guarded_pure h finish

end Traced

end Bnf
