import Bnf.Matching

/-!
# Runs of the matcher

What a run of the matcher that ends in a value says about the runs it is made of: a demanded token
stands at the start, a repetition is a chain of advancing laps (`advance_induction`), a production
is matched symbol by symbol, and the first production that matches decides for a definition.
-/

namespace Bnf

namespace Matching

variable {tokens : List String}

/-- A symbol that demands a token matches the one at the start if it accepts it, and matches nothing
at the end of the tokens. There is no token before the first one. -/
theorem result_one_token (symbol : Symbol) (accepts : String → Bool) (start : Int) :
    (oneToken tokens symbol accepts start).result =
      if start < tokens.length then
        match tokenAt? tokens start with
        | none => .error .beforeFirstToken
        | some token => .ok (if accepts token then some (start + 1) else none)
      else .ok none := by
  unfold oneToken
  by_cases hstart : start < tokens.length
  · rw [if_pos hstart, if_pos hstart]
    cases tokenAt? tokens start with
    | none => rfl
    | some token =>
        cases haccepts : accepts token <;> simp only [haccepts] <;> rfl
  · rw [if_neg hstart, if_neg hstart]
    rfl

/-- What a demanded token has to be for a match. -/
theorem one_token_eq_some {symbol : Symbol} {accepts : String → Bool} {start finish : Int}
    (h : (oneToken tokens symbol accepts start).result = .ok (some finish)) :
    start < tokens.length ∧ finish = start + 1 ∧
      ∃ token, tokenAt? tokens start = some token ∧ accepts token = true := by
  rw [result_one_token] at h
  split at h
  · rename_i hstart
    split at h
    · cases h
    · rename_i token htoken
      split at h
      · rename_i haccepts
        cases h
        exact ⟨hstart, rfl, token, htoken, haccepts⟩
      · cases h
  · cases h

variable {step : Int → Traced (Option Int)} {size : Nat}

/-- A repetition that ends stays where it is, or goes on from where its first lap ends. -/
theorem advance_cases {start finish : Int} (h : (advance step size start).result = .ok finish) :
    finish = start ∨ ∃ next, start < size ∧ start < next ∧
      (step start).result = .ok (some next) ∧ (advance step size next).result = .ok finish := by
  rw [advance] at h
  split at h
  · rename_i hstart
    obtain ⟨lap, hlap, h⟩ := Traced.result_bind_eq_ok.1 h
    cases lap with
    | none => exact .inl (Except.ok.inj h).symm
    | some next =>
        by_cases hnext : start < next
        · simp only [hnext, dite_true] at h
          exact .inr ⟨next, hstart, hnext, hlap, h⟩
        · simp only [hnext, dite_false] at h
          exact .inl (Except.ok.inj h).symm
  · exact .inl (Except.ok.inj h).symm

/-- Induction along the laps of a repetition that ends, from the last one back. -/
theorem advance_induction {motive : Int → Int → Prop} (stop : ∀ position, motive position position)
    (lap : ∀ start next finish : Int, start < size → start < next →
      (step start).result = .ok (some next) → motive next finish → motive start finish)
    {start finish : Int} (h : (advance step size start).result = .ok finish) :
    motive start finish := by
  rcases advance_cases h with rfl | ⟨next, hstart, hnext, hlap, hrest⟩
  · exact stop finish
  · exact lap start next finish hstart hnext hlap (advance_induction stop lap hrest)
termination_by (size - start).toNat

end Matching

variable {tokens : List String} {call : String → Int → Traced (Option Int)}

variable [UnicodeData]

/-- A symbol with neither modifier is matched as it is without. -/
theorem Symbol.match_modified_of_plain {symbol : Symbol}
    (hoptional : ∀ body, symbol ≠ .optional body) (hrepeated : ∀ body, symbol ≠ .repeated body) :
    Symbol.matchModified tokens call symbol = Symbol.matchAt tokens call symbol := by
  cases symbol with
  | optional body => exact absurd rfl (hoptional body)
  | repeated body => exact absurd rfl (hrepeated body)
  | _ => rfl

/-- A repeated symbol of a production always matches, and ends where its repetition does. -/
theorem Symbol.match_repeated_eq_ok {body : Symbol} {start : Int} {finish : Option Int}
    (h : (Symbol.matchModified tokens call (.repeated body) start).result = .ok finish) :
    ∃ position, finish = some position ∧
      (Matching.advance (Symbol.matchAt tokens call body) tokens.length start).result =
        .ok position := by
  rw [Symbol.matchModified, Traced.map_eq] at h
  cases hrun : (Matching.advance (Symbol.matchAt tokens call body) tokens.length start).result with
  | error fault =>
      rw [hrun] at h
      cases h
  | ok position =>
      rw [hrun] at h
      cases h
      exact ⟨position, rfl, rfl⟩

/-- An optional symbol of a production always matches, and stays where it is if its body does not
match. -/
theorem Symbol.match_optional_eq_ok {body : Symbol} {start : Int} {finish : Option Int}
    (h : (Symbol.matchModified tokens call (.optional body) start).result = .ok finish) :
    ∃ next, (Symbol.matchAt tokens call body start).result = .ok next ∧
      finish = some (next.getD start) := by
  rw [Symbol.matchModified, Traced.map_eq] at h
  cases hrun : (Symbol.matchAt tokens call body start).result with
  | error fault =>
      rw [hrun] at h
      cases h
  | ok next =>
      rw [hrun] at h
      cases h
      exact ⟨next, rfl, rfl⟩

/-- A production that matches goes on where its first symbol ends. -/
theorem Production.match_cons_eq_some {symbol : Symbol} {rest : Production} {start finish : Int}
    (h : (Production.matchAt tokens call (symbol :: rest) start).result = .ok (some finish)) :
    ∃ middle, (Symbol.matchModified tokens call symbol start).result = .ok (some middle) ∧
      (Production.matchAt tokens call rest middle).result = .ok (some finish) := by
  rw [Production.matchAt_cons] at h
  obtain ⟨next, hnext, h⟩ := Traced.result_bind_eq_ok.1 h
  cases next with
  | none => cases h
  | some middle => exact ⟨middle, hnext, h⟩

/-- A definition that matches does so by one of its productions. -/
theorem Definition.match_eq_some {definition : Definition} {start finish : Int}
    (h : (Definition.matchAt tokens call definition start).result = .ok (some finish)) :
    ∃ production ∈ definition,
      (Production.matchAt tokens call production start).result = .ok (some finish) := by
  induction definition with
  | nil => cases h
  | cons production rest ih =>
      rw [Definition.matchAt] at h
      obtain ⟨first, hfirst, h⟩ := Traced.result_bind_eq_ok.1 h
      cases first with
      | none =>
          obtain ⟨later, hlater, hmatch⟩ := ih h
          exact ⟨later, List.mem_cons_of_mem _ hlater, hmatch⟩
      | some position =>
          cases h
          exact ⟨production, List.mem_cons_self, hfirst⟩

namespace Matching

/-- A called rule ends as its definition does. -/
theorem result_call_succ {rules : String → Option Definition} {bound : Nat} {name : String}
    {definition : Definition} {start : Int} (hrule : rules name = some definition) :
    (Matching.call rules tokens (bound + 1) name start).result =
      (Definition.matchAt tokens (Matching.call rules tokens bound) definition start).result := by
  rw [Matching.call, hrule]
  simp only [Traced.result_bind, Traced.result_record, Traced.result_nested]
  cases (Definition.matchAt tokens (Matching.call rules tokens bound) definition start).result <;>
    rfl

/-- A call of a rule that is not defined faults, whatever the nesting. -/
theorem call_of_undefined {rules : String → Option Definition} {name : String}
    (hrule : rules name = none) (bound : Nat) (start : Int) :
    Matching.call rules tokens bound name start = Traced.fail (.undefinedRule name) := by
  cases bound <;> rw [Matching.call, hrule]

/-- A rule that matches is defined, and its definition matches. -/
theorem call_eq_some {rules : String → Option Definition} {bound : Nat} {name : String}
    {start finish : Int} (h : (Matching.call rules tokens bound name start).result =
      .ok (some finish)) :
    ∃ definition less, rules name = some definition ∧ bound = less + 1 ∧
      (Definition.matchAt tokens (Matching.call rules tokens less) definition start).result =
        .ok (some finish) := by
  cases bound with
  | zero =>
      rw [Matching.call] at h
      split at h <;> cases h
  | succ less =>
      rw [Matching.call] at h
      split at h
      · cases h
      · rename_i definition hrule
        obtain ⟨-, -, h⟩ := Traced.result_bind_eq_ok.1 h
        obtain ⟨outcome, hrun, h⟩ := Traced.result_bind_eq_ok.1 h
        obtain ⟨-, -, h⟩ := Traced.result_bind_eq_ok.1 h
        cases h
        exact ⟨definition, less, hrule, rfl, hrun⟩

end Matching

end Bnf
