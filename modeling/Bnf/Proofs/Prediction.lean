import Bnf.Proofs.Recognition
import Bnf.UnicodeData.Version14
import Mathlib

/-!
# One word ahead

Nothing is lost to the order of choices if each of them is determined by the next token:
`Symbol.Predictable`, `Production.Predictable` and `Definition.Predictable` say this, given the
tokens that may follow. It is read off the languages of the parts alone. Productions that begin with
different tokens give way to each other (`Definition.Predictable.gives_way`), so that what is
predictable is recognised (`Definition.Predictable.recognised`). So valid sentences are just those
that the rule derives, which is `predictable_complete`.
-/

namespace Bnf

variable [UnicodeData]

mutual
/-- The next token determines each choice in a symbol, given what may follow the symbol. -/
inductive Symbol.Predictable (rules : String → Option Definition) : Symbol → Set String → Prop where
  | terminal (literal follow) : Symbol.Predictable rules (.terminal literal) follow
  | charClass (pattern follow) : Symbol.Predictable rules (.charClass pattern) follow
  | unknown (code follow) : Symbol.Predictable rules (.unknown code) follow
  | reference {name definition follow} (hrule : rules name = some definition)
      (h : Definition.Predictable rules definition follow) :
      Symbol.Predictable rules (.reference name) follow
  | group {alternatives follow} (h : Definition.Predictable rules alternatives follow) :
      Symbol.Predictable rules (.group alternatives) follow
  | optional {body follow} (h : Symbol.Predictable rules body follow)
      (hfollow : Disjoint (firsts (Symbol.Derives rules body)) follow) :
      Symbol.Predictable rules (.optional body) follow
  | repeated {body follow}
      (h : Symbol.Predictable rules body (follow ∪ firsts (Symbol.Derives rules body)))
      (hfollow : Disjoint (firsts (Symbol.Derives rules body)) follow) :
      Symbol.Predictable rules (.repeated body) follow

/-- The next token determines each choice in a production: each symbol is followed by what the rest
of the production begins with. -/
inductive Production.Predictable (rules : String → Option Definition) :
    List Symbol → Set String → Prop where
  | nil (follow) : Production.Predictable rules [] follow
  | cons {symbol symbols follow}
      (hfirst : Symbol.Predictable rules symbol (Production.followed rules symbols follow))
      (hrest : Production.Predictable rules symbols follow) :
      Production.Predictable rules (symbol :: symbols) follow

/-- The next token determines the production of a definition: no two productions begin alike, and
only the last may derive nothing. If it does, no other begins with what may follow. -/
inductive Definition.Predictable (rules : String → Option Definition) :
    List (List Symbol) → Set String → Prop where
  | intro {definition follow}
      (hproductions : ∀ production ∈ definition, Production.Predictable rules production follow)
      (hdistinct : definition.Pairwise fun production other =>
        Disjoint (firsts (Production.Derives rules production))
          (firsts (Production.Derives rules other)))
      (hnonempty : ∀ production ∈ definition.dropLast, ¬ Production.Derives rules production [])
      (hfollow : ∀ last ∈ definition.getLast?, Production.Derives rules last [] →
        ∀ production ∈ definition.dropLast,
          Disjoint (firsts (Production.Derives rules production)) follow) :
      Definition.Predictable rules definition follow
end

section Recognition

variable {rules : String → Option Definition}

/-- If the next token determines the production, each production gives way to those after it. -/
theorem Definition.Predictable.gives_way {definition : Definition} {follow : Set String}
    (h : Definition.Predictable rules definition follow) :
    definition.Pairwise fun production other =>
      GivesWay follow (Production.Derives rules production) (Production.Derives rules other) := by
  obtain ⟨-, hdistinct, hnonempty, hfollow⟩ := h
  rcases List.eq_nil_or_concat' definition with rfl | ⟨before, last, rfl⟩
  · exact .nil
  · rw [List.dropLast_concat] at hnonempty hfollow
    obtain ⟨hbefore, -, hlast⟩ := List.pairwise_append.1 hdistinct
    refine List.pairwise_append.2 ⟨?_, List.pairwise_singleton _ last, ?_⟩
    · exact hbefore.imp_of_mem fun hearlier hlater hdisjoint =>
        .of_firsts hdisjoint (hnonempty _ hearlier) fun hnil => absurd hnil (hnonempty _ hlater)
    · intro earlier hearlier later hlater
      refine .of_firsts (hlast earlier hearlier later hlater) (hnonempty earlier hearlier)
        fun hnil => ?_
      cases List.mem_singleton.1 hlater
      exact hfollow last (by simp) hnil earlier hearlier

mutual
/-- What is predictable is recognised. -/
theorem Symbol.Predictable.recognised {symbol : Symbol} {follow : Set String} :
    Symbol.Predictable rules symbol follow → symbol.Recognised rules follow
  | .terminal literal _ => Symbol.recognised_terminal literal
  | .charClass pattern _ => Symbol.recognised_charClass pattern
  | .unknown code _ => Symbol.recognised_unknown code
  | .reference hrule h => Symbol.recognised_reference hrule h.recognised
  | .group h => Symbol.recognised_group h.recognised
  | .optional h hfollow => Symbol.recognised_optional h.recognised hfollow
  | .repeated h hfollow => Symbol.recognised_repeated h.recognised hfollow

theorem Production.Predictable.recognised {production : Production} {follow : Set String} :
    Production.Predictable rules production follow → Production.Recognised rules follow production
  | .nil _ => Production.recognised_nil
  | .cons hfirst hrest => Production.recognised_cons hfirst.recognised hrest.recognised

theorem Definition.Predictable.recognised {definition : Definition} {follow : Set String} :
    Definition.Predictable rules definition follow → Definition.Recognised rules follow definition
  | .intro hproductions hdistinct hnonempty hfollow =>
      Definition.recognised (fun production hmem => (hproductions production hmem).recognised)
        (Definition.Predictable.intro hproductions hdistinct hnonempty hfollow).gives_way
end

end Recognition

namespace Grammar

/-- After every history, and for every name from which neither a recursive nor an undefined name can
be reached: if the next token determines each choice in its definition, and nothing follows the
definition, then a sentence is valid for the name exactly if the definition derives its words. -/
theorem predictable_complete (sources : List (String × String)) (operations : List Operation)
    (name : String) :
    let grammar := run operations (ofSources sources)
    grammar.Usable name → ∀ definition, grammar.definition? name = some definition →
      Definition.Predictable grammar.definition? definition ∅ →
      ∀ sentence, (grammar.validate sentence name).1.result = .ok true ↔
        Definition.Derives grammar.definition? definition (words sentence) := by
  intro grammar husable definition hdefinition hpredictable sentence
  have hconsistent : grammar.Consistent := consistent_invariant.run sources operations
  have hknows : grammar.Knows grammar.acyclic := knows_invariant.run sources operations
  have hrecognised : (Symbol.reference name).Recognised grammar.definition? ∅ :=
    Symbol.recognised_reference hdefinition hpredictable.recognised
  obtain ⟨valid, hvalid, hiff⟩ := husable.judges hconsistent hknows hrecognised sentence
  rw [hvalid, Except.ok.injEq, hiff, Symbol.derives_reference_iff hdefinition]

end Grammar

end Bnf

namespace Bnf.Grammar

/-- Any number of words, and behind them a mark or none. -/
def marked : Grammar :=
  ofSources [("start", "<word>* ( \"b\" | \"c\" )?"), ("word", "\"a\"")]

/-- A repeated name and an optional group after it, each choice determined by the next token. -/
theorem predictable_complete_words :
    let definition : Definition :=
      [[.repeated (.reference "word"), .optional (.group [[.terminal "b"], [.terminal "c"]])]]
    (marked.Usable "start" ∧ marked.definition? "start" = some definition ∧
      Definition.Predictable marked.definition? definition ∅ ∧
      Definition.Derives marked.definition? definition (words "a a c")) ∧
    (marked.validate "a a c" "start").1.result = .ok true := by
  intro definition
  have hnone : (marked.cycleFrom "start").1 = none := by cbv
  have hknows : marked.Knows marked.acyclic := knows_invariant.ofSources _
  have husable : marked.Usable "start" :=
    ⟨free_of_cycleFrom hknows hnone, complete_of_closed ["start", "word"] (by cbv) (by simp)⟩
  have hdefinition : marked.definition? "start" = some definition := by cbv
  have hrule : marked.definition? "word" = some [[.terminal "a"]] := by cbv
  have hliteral (literal : String) (follow : Set String) :
      Production.Predictable marked.definition? [.terminal literal] follow :=
    .cons (.terminal literal _) (.nil follow)
  have hword (follow : Set String) :
      Symbol.Predictable marked.definition? (.reference "word") follow := by
    refine .reference hrule (.intro ?_ ?_ ?_ ?_) <;> simp [hliteral]
  have hgroup : Symbol.Predictable marked.definition?
      (.group [[.terminal "b"], [.terminal "c"]]) ∅ := by
    refine .group (.intro ?_ ?_ ?_ ?_) <;> simp [hliteral, firsts]
  have hbefore : Disjoint (firsts (Symbol.Derives marked.definition? (.reference "word")))
      (Production.followed marked.definition?
        [.optional (.group [[.terminal "b"], [.terminal "c"]])] ∅) := by
    simp [firsts, Production.followed, Symbol.derives_reference_iff hrule]
  have hproduction : Production.Predictable marked.definition?
      [.repeated (.reference "word"), .optional (.group [[.terminal "b"], [.terminal "c"]])] ∅ :=
    .cons (.repeated (hword _) hbefore)
      (.cons (.optional hgroup (Set.disjoint_empty _)) (.nil ∅))
  have hpredictable : Definition.Predictable marked.definition? definition ∅ := by
    refine .intro ?_ ?_ ?_ ?_ <;> simp [definition, hproduction]
  have ha : Symbol.Derives marked.definition? (.reference "word") ["a"] := by
    simp [Symbol.derives_reference_iff hrule]
  have hderives : Definition.Derives marked.definition? definition (words "a a c") := by
    have hsplit : words "a a c" = (["a"] ++ (["a"] ++ [])) ++ ["c"] := by cbv
    rw [hsplit, Definition.derives_iff]
    refine ⟨_, List.mem_cons_self, .cons (.more ha (.more ha (.none _))) ?_⟩
    simp
  exact ⟨⟨husable, hdefinition, hpredictable, hderives⟩,
    (predictable_complete _ [] "start" husable definition hdefinition hpredictable _).2 hderives⟩

end Bnf.Grammar
