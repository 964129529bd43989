import Bnf.Proofs.Language
import Bnf.Proofs.OrderedChoice
import Mathlib

/-!
# Recognition

The matcher never takes a choice back, so in general it refuses sentences that belong to a rule.
Something is recognised before some tokens (`Recognises`) if each of its words is matched wherever
it stands with one of these tokens behind it, or with none. This is carried from the parts of a
definition to the whole on two conditions. What is optional or repeated must not begin with what may
follow it. And a production must give way to those after it (`GivesWay`): if it has a word that
agrees with a later one as far as both go, the later word must be its own as well, so that nothing
is lost when it is taken. Hence `Grammar.Usable.judges`: a name that is recognised before nothing
judges every sentence by the language of its rule.
-/

namespace Bnf

/-- The tokens with which words of a language begin. -/
def firsts (language : List String → Prop) : Set String :=
  {token | ∃ rest, language (token :: rest)}

/-- What may follow if symbols come first: what they begin with, as far as those before may derive
nothing, and what may follow them if they all may. -/
def Production.followed [UnicodeData] (rules : String → Option Definition) (symbols : Production)
    (follow : Set String) : Set String :=
  symbols.foldr (fun symbol later =>
    firsts (symbol.Derives rules) ∪ {token | symbol.Derives rules [] ∧ token ∈ later}) follow

/-! ## Words among tokens -/

/-- A word stands at a position within the tokens, and the token after it, if there is one, may
follow. -/
structure Stands (tokens : List String) (follow : Set String) (start : Nat) (word : List String) :
    Prop where
  start_le : start ≤ tokens.length
  isPrefix : word <+: tokens.drop start
  next_mem : ∀ token, tokens[start + word.length]? = some token → token ∈ follow

namespace Stands

variable {tokens : List String} {follow : Set String} {start : Nat}

/-- A word that stands somewhere ends within the tokens. -/
theorem finish_le {word : List String} (h : Stands tokens follow start word) :
    start + word.length ≤ tokens.length := by
  have hlength := h.isPrefix.length_le
  rw [List.length_drop] at hlength
  have hstart := h.start_le
  omega

/-- The first token of a word stands where the word does. -/
theorem head {token : String} {word : List String}
    (h : Stands tokens follow start (token :: word)) : tokens[start]? = some token := by
  obtain ⟨rest, hrest⟩ := h.isPrefix
  rw [← List.head?_drop, ← hrest]
  rfl

/-- The second of two words stands after the first. -/
theorem right {first second : List String} (h : Stands tokens follow start (first ++ second)) :
    Stands tokens follow (start + first.length) second where
  start_le := by
    have hfinish := h.finish_le
    rw [List.length_append] at hfinish
    omega
  isPrefix := by
    obtain ⟨rest, hrest⟩ := h.isPrefix
    refine ⟨rest, ?_⟩
    rw [← List.drop_drop, ← hrest, List.append_assoc, List.drop_left]
  next_mem token htoken := by
    rw [Nat.add_assoc, ← List.length_append] at htoken
    exact h.next_mem token htoken

/-- The first of two words stands before what may follow it. -/
theorem left {first second : List String} {between : Set String}
    (h : Stands tokens follow start (first ++ second))
    (hnext : Stands tokens between (start + first.length) []) :
    Stands tokens between start first where
  start_le := h.start_le
  isPrefix := (List.prefix_append first second).trans h.isPrefix
  next_mem := hnext.next_mem

/-- What stands before some tokens stands before more of them. -/
theorem mono {more : Set String} {word : List String} (h : Stands tokens follow start word)
    (hmore : follow ⊆ more) : Stands tokens more start word :=
  ⟨h.start_le, h.isPrefix, fun token htoken => hmore (h.next_mem token htoken)⟩

/-- Before a word stands what it begins with. -/
theorem before {token : String} {word : List String} {begins : Set String}
    (h : Stands tokens follow start (token :: word)) (hbegins : token ∈ begins) :
    Stands tokens begins start [] where
  start_le := h.start_le
  isPrefix := List.nil_prefix
  next_mem next hnext := by
    rwa [← Option.some.inj (h.head.symm.trans hnext)]

/-- Before words that are not empty stands what one of them begins with, or what follows them if
there are none. -/
theorem before_laps {language : List String → Prop} {laps : List (List String)}
    (h : Stands tokens follow start laps.flatten)
    (hlaps : ∀ lap ∈ laps, lap ≠ [] ∧ language lap) :
    Stands tokens (follow ∪ firsts language) start [] := by
  cases laps with
  | nil => exact h.mono Set.subset_union_left
  | cons lap laps =>
      obtain ⟨hnonempty, hlap⟩ := hlaps lap List.mem_cons_self
      obtain ⟨first, rest, rfl⟩ := List.exists_cons_of_ne_nil hnonempty
      exact h.before (.inr ⟨rest, hlap⟩)

/-- All tokens together stand at the first position, and nothing follows them. -/
theorem all : Stands tokens ∅ 0 tokens where
  start_le := Nat.zero_le _
  isPrefix := List.prefix_rfl
  next_mem token htoken := by
    rw [Nat.zero_add, List.getElem?_eq_none (Nat.le_refl _)] at htoken
    cases htoken

/-- The empty word stands everywhere. -/
theorem nil (hstart : start ≤ tokens.length) : Stands tokens .univ start [] :=
  ⟨hstart, List.nil_prefix, fun _ _ => trivial⟩

/-- A token stands where it is. -/
theorem singleton {token : String} (h : tokens[start]? = some token) :
    Stands tokens .univ start [token] := by
  obtain ⟨hlength, hget⟩ := List.getElem?_eq_some_iff.1 h
  refine ⟨Nat.le_of_lt hlength, ?_, fun _ _ => trivial⟩
  rw [List.drop_eq_getElem_cons hlength, hget]
  exact List.prefix_append [token] _

/-- Two words one of which stands after the other stand together. -/
theorem append {between : Set String} {first second : List String}
    (hfirst : Stands tokens between start first)
    (hsecond : Stands tokens follow (start + first.length) second) :
    Stands tokens follow start (first ++ second) where
  start_le := hfirst.start_le
  isPrefix := by
    obtain ⟨rest, heq⟩ := hfirst.isPrefix
    obtain ⟨after, hafter⟩ := hsecond.isPrefix
    rw [← List.drop_drop, ← heq, List.drop_left] at hafter
    exact ⟨after, by rw [← heq, ← hafter, List.append_assoc]⟩
  next_mem token htoken := by
    rw [List.length_append, ← Nat.add_assoc] at htoken
    exact hsecond.next_mem token htoken

/-- Of two words that stand at the same position, the first does not go beyond the second, or it
goes on with what may follow that. -/
theorem agree {between : Set String} {word other : List String}
    (h : Stands tokens between start word) (hother : Stands tokens follow start other) :
    word <+: other ∨ ∃ token ∈ follow, other ++ [token] <+: word := by
  rcases List.prefix_or_prefix_of_prefix h.isPrefix hother.isPrefix with hshort | ⟨more, rfl⟩
  · exact .inl hshort
  · cases more with
    | nil => exact .inl (by rw [List.append_nil])
    | cons token more =>
        refine .inr ⟨token, hother.next_mem token h.right.head, ?_⟩
        exact ⟨more, by rw [List.append_assoc, List.singleton_append]⟩

end Stands

variable [UnicodeData]

/-- What stands where a word of a production does is what the production begins with. -/
theorem Production.Derives.stands_followed {rules : String → Option Definition}
    {tokens : List String} {production : Production} {word : List String}
    (h : Production.Derives rules production word) {follow : Set String} {start : Nat}
    (hstands : Stands tokens follow start word) :
    Stands tokens (Production.followed rules production follow) start [] := by
  induction production generalizing start word with
  | nil =>
      cases h
      exact hstands
  | cons symbol symbols ih =>
      obtain ⟨first, rest, rfl, hfirst, hrest⟩ := Production.derives_cons_iff.1 h
      cases first with
      | nil => exact (ih hrest hstands).mono fun token htoken => .inr ⟨hfirst, htoken⟩
      | cons token first => exact hstands.before (.inl ⟨first, hfirst⟩)

/-! ## Giving way -/

/-- An earlier language gives way to a later one before some tokens: if a word of it agrees with a
later word, and with what may follow that, as far as both go, then the later word is its own. -/
def GivesWay (follow : Set String) (earlier later : List String → Prop) : Prop :=
  ∀ word other, earlier word → later other →
    (word <+: other ∨ ∃ token ∈ follow, other ++ [token] <+: word) → earlier other

omit [UnicodeData] in
/-- Words that agree as far as both go begin with the same token. -/
theorem head_eq_of_agree {follow : Set String} {first second : String} {word other : List String}
    (h : first :: word <+: second :: other ∨
      ∃ token ∈ follow, second :: other ++ [token] <+: first :: word) : first = second := by
  rcases h with hshort | ⟨token, -, hlong⟩
  · exact (List.cons_prefix_cons.1 hshort).1
  · exact (List.cons_prefix_cons.1 hlong).1.symm

/-- Each word of a language begins with one of these tokens. -/
def BeginsWith (language : List String → Prop) (tokens : List String) : Prop :=
  ∀ word, language word → ∃ token ∈ tokens, ∃ rest, word = token :: rest

namespace BeginsWith

variable {rules : String → Option Definition} {language : List String → Prop}
  {tokens : List String}

omit [UnicodeData] in
theorem not_nil (h : BeginsWith language tokens) : ¬ language [] := by
  intro hnil
  obtain ⟨token, -, rest, heq⟩ := h [] hnil
  cases heq

omit [UnicodeData] in
theorem mem (h : BeginsWith language tokens) {token : String} {rest : List String}
    (hword : language (token :: rest)) : token ∈ tokens := by
  obtain ⟨first, hfirst, more, heq⟩ := h _ hword
  cases heq
  exact hfirst

omit [UnicodeData] in
/-- What begins with some tokens begins with some of more tokens. -/
theorem mono {more : List String} (h : BeginsWith language tokens) (hmore : tokens ⊆ more) :
    BeginsWith language more := by
  intro word hword
  obtain ⟨token, htoken, hrest⟩ := h word hword
  exact ⟨token, hmore htoken, hrest⟩

theorem terminal (literal : String) :
    BeginsWith ((Symbol.terminal literal).Derives rules) [literal] := by
  intro word hword
  exact ⟨literal, List.mem_singleton_self literal, [], Symbol.derives_terminal_iff.1 hword⟩

/-- A production begins with what its first symbol begins with. -/
theorem cons {symbol : Symbol} (h : BeginsWith (symbol.Derives rules) tokens)
    (symbols : Production) :
    BeginsWith (Production.Derives rules (symbol :: symbols)) tokens := by
  intro word hword
  obtain ⟨first, rest, rfl, hfirst, -⟩ := Production.derives_cons_iff.1 hword
  obtain ⟨token, htoken, more, rfl⟩ := h first hfirst
  exact ⟨token, htoken, more ++ rest, List.cons_append⟩

/-- A reference begins with what the productions of its rule begin with. -/
theorem reference {name : String} {definition : Definition}
    (hrule : rules name = some definition)
    (h : ∀ production ∈ definition, BeginsWith (Production.Derives rules production) tokens) :
    BeginsWith ((Symbol.reference name).Derives rules) tokens := by
  intro word hword
  obtain ⟨production, hmem, hderives⟩ :=
    Definition.derives_iff.1 ((Symbol.derives_reference_iff hrule).1 hword)
  exact h production hmem word hderives

/-- A group begins with what its alternatives begin with. -/
theorem group {alternatives : Definition}
    (h : ∀ production ∈ alternatives, BeginsWith (Production.Derives rules production) tokens) :
    BeginsWith ((Symbol.group alternatives).Derives rules) tokens := by
  intro word hword
  obtain ⟨production, hmem, hderives⟩ :=
    Definition.derives_iff.1 (Symbol.derives_group_iff.1 hword)
  exact h production hmem word hderives

omit [UnicodeData] in
/-- A language begins with nothing that may follow if none of these tokens may. -/
theorem disjoint_firsts {follow : Set String} (h : BeginsWith language tokens)
    (hfollow : ∀ token ∈ tokens, token ∉ follow) : Disjoint (firsts language) follow := by
  refine Set.disjoint_left.2 ?_
  rintro token ⟨rest, hrest⟩
  exact hfollow token (h.mem hrest)

end BeginsWith

namespace GivesWay

variable {follow : Set String} {earlier later : List String → Prop}

omit [UnicodeData] in
/-- A language without the empty word gives way to one that begins with other tokens, if it does not
begin with what may follow the empty word of that one either. -/
theorem of_firsts (hdisjoint : Disjoint (firsts earlier) (firsts later)) (hnonempty : ¬ earlier [])
    (hfollow : later [] → Disjoint (firsts earlier) follow) : GivesWay follow earlier later := by
  intro word other hword hother hagree
  cases word with
  | nil => exact absurd hword hnonempty
  | cons first word =>
      have hfirst : first ∈ firsts earlier := ⟨word, hword⟩
      cases other with
      | nil =>
          rcases hagree with hshort | ⟨token, htoken, hlong⟩
          · cases List.prefix_nil.1 hshort
          · obtain ⟨rfl, -⟩ := List.cons_prefix_cons.1 hlong
            exact absurd htoken (Set.disjoint_left.1 (hfollow hother) hfirst)
      | cons second other =>
          obtain rfl : first = second := head_eq_of_agree hagree
          have hsecond : first ∈ firsts later := ⟨other, hother⟩
          exact absurd hsecond (Set.disjoint_left.1 hdisjoint hfirst)

omit [UnicodeData] in
/-- Languages that begin with different tokens give way to each other. -/
theorem of_begins_with {tokens others : List String} (hearlier : BeginsWith earlier tokens)
    (hlater : BeginsWith later others) (hdisjoint : tokens.Disjoint others) :
    GivesWay follow earlier later := by
  refine of_firsts (Set.disjoint_left.2 ?_) hearlier.not_nil fun hnil => absurd hnil hlater.not_nil
  rintro token ⟨rest, hrest⟩ ⟨more, hmore⟩
  exact hdisjoint (hearlier.mem hrest) (hlater.mem hmore)

omit [UnicodeData] in
/-- Languages whose words all have the same length give way to each other. -/
theorem of_length (size : Nat) (hearlier : ∀ word, earlier word → word.length = size)
    (hlater : ∀ word, later word → word.length = size) : GivesWay follow earlier later := by
  intro word other hword hother hagree
  have hlength : word.length = other.length :=
    (hearlier word hword).trans (hlater other hother).symm
  rcases hagree with hshort | ⟨token, -, hlong⟩
  · rwa [← hshort.eq_of_length hlength]
  · have hle := hlong.length_le
    rw [List.length_append, List.length_singleton] at hle
    omega

end GivesWay

/-! ## Recognition -/

/-- From every position within the tokens, something fails or yields a word of its own that stands
there. -/
def YieldsWords (tokens : List String) (language : List String → Prop)
    (yields : Nat → Option Nat → Prop) : Prop :=
  ∀ start ≤ tokens.length, yields start none ∨
    ∃ word, Stands tokens .univ start word ∧ language word ∧
      yields start (some (start + word.length))

omit [UnicodeData] in
/-- Before tokens with which none of its words begins, it fails or stays where it is, by an empty
word. -/
theorem YieldsWords.none_or_stay {tokens : List String} {language : List String → Prop}
    {yields : Nat → Option Nat → Prop} (h : YieldsWords tokens language yields)
    {next : Set String} {start : Nat} (hnext : Stands tokens next start [])
    (hdisjoint : Disjoint (firsts language) next) :
    yields start none ∨ language [] ∧ yields start (some start) := by
  rcases h start hnext.start_le with hnone | ⟨word, hstands, hword, hyields⟩
  · exact .inl hnone
  · cases word with
    | nil => exact .inr ⟨hword, hyields⟩
    | cons token word =>
        have hfirst : token ∈ firsts language := ⟨word, hword⟩
        exact absurd (hnext.next_mem token hstands.head) (Set.disjoint_left.1 hdisjoint hfirst)

/-- Something yields nothing but words of its own, and it yields each of them where it stands before
what may follow. -/
structure Recognises (tokens : List String) (follow : Set String) (language : List String → Prop)
    (yields : Nat → Option Nat → Prop) : Prop where
  yields_words : YieldsWords tokens language yields
  yields_standing : ∀ start word, Stands tokens follow start word → language word →
    yields start (some (start + word.length))

namespace Recognises

variable {tokens : List String} {follow : Set String} {language : List String → Prop}
  {yields : Nat → Option Nat → Prop}

omit [UnicodeData] in
/-- What is recognised before some tokens is recognised before fewer of them. -/
theorem mono {fewer : Set String} (h : Recognises tokens follow language yields)
    (hfewer : fewer ⊆ follow) : Recognises tokens fewer language yields where
  yields_words := h.yields_words
  yields_standing start word hstands hword :=
    h.yields_standing start word (hstands.mono hfewer) hword

omit [UnicodeData] in
/-- What has the same words and yields at least the same is recognised as well. -/
theorem congr {same : List String → Prop} {more : Nat → Option Nat → Prop}
    (h : Recognises tokens follow language yields) (hsame : ∀ word, same word ↔ language word)
    (hmore : ∀ start outcome, yields start outcome → more start outcome) :
    Recognises tokens follow same more where
  yields_words start hstart := by
    rcases h.yields_words start hstart with hnone | ⟨word, hstands, hword, hyields⟩
    · exact .inl (hmore start none hnone)
    · exact .inr ⟨word, hstands, (hsame word).2 hword, hmore start _ hyields⟩
  yields_standing start word hstands hword :=
    hmore start _ (h.yields_standing start word hstands ((hsame word).1 hword))

omit [UnicodeData] in
/-- One token that has to be accepted is recognised, whatever follows. -/
theorem one_token (accepts : String → Prop)
    (hlanguage : ∀ word, language word ↔ ∃ token, accepts token ∧ word = [token])
    (hmatch : ∀ start token, tokens[start]? = some token → accepts token →
      yields start (some (start + 1)))
    (hfail : ∀ start, (∀ token, tokens[start]? = some token → ¬ accepts token) →
      yields start none) : Recognises tokens follow language yields where
  yields_words start hstart := by
    by_cases haccepted : ∃ token, tokens[start]? = some token ∧ accepts token
    · obtain ⟨token, htoken, haccepts⟩ := haccepted
      exact .inr ⟨[token], .singleton htoken, (hlanguage _).2 ⟨token, haccepts, rfl⟩,
        hmatch start token htoken haccepts⟩
    · exact .inl (hfail start fun token htoken haccepts => haccepted ⟨token, htoken, haccepts⟩)
  yields_standing start word hstands hword := by
    obtain ⟨token, haccepts, rfl⟩ := (hlanguage word).1 hword
    exact hmatch start token hstands.head haccepts

end Recognises

/-- Among all tokens, a symbol is recognised before those that may follow. -/
def Symbol.Recognised (rules : String → Option Definition) (follow : Set String)
    (symbol : Symbol) : Prop :=
  ∀ tokens, Recognises tokens follow (symbol.Derives rules) (symbol.Yields rules tokens)

/-- Among all tokens, a production is recognised before those that may follow. -/
def Production.Recognised (rules : String → Option Definition) (follow : Set String)
    (production : Production) : Prop :=
  ∀ tokens, Recognises tokens follow (Production.Derives rules production)
    (Production.Yields rules tokens production)

/-- Among all tokens, a definition is recognised before those that may follow. -/
def Definition.Recognised (rules : String → Option Definition) (follow : Set String)
    (definition : Definition) : Prop :=
  ∀ tokens, Recognises tokens follow (Definition.Derives rules definition)
    (Definition.Yields rules tokens definition)

section Recognition

variable {rules : String → Option Definition} {follow : Set String}

theorem Symbol.Recognised.mono {symbol : Symbol} {fewer : Set String}
    (h : symbol.Recognised rules follow) (hfewer : fewer ⊆ follow) :
    symbol.Recognised rules fewer :=
  fun tokens => (h tokens).mono hfewer

theorem Symbol.recognised_terminal (literal : String) :
    (Symbol.terminal literal).Recognised rules follow := by
  refine fun tokens => .one_token (· = literal) (fun word => ?_) ?_ ?_
  · simp
  · rintro start _ htoken rfl
    exact .terminal htoken
  · exact fun start hno => .noTerminal fun htoken => hno literal htoken rfl

theorem Symbol.recognised_charClass (pattern : String) :
    (Symbol.charClass pattern).Recognised rules follow :=
  fun _ => .one_token (Matching.patternAccepts pattern · = true)
    (fun _ => Symbol.derives_charClass_iff) (fun _ _ => .charClass) fun _ => .noCharClass

/-- An unknown symbol has no words. -/
theorem Symbol.recognised_unknown (code : String) :
    (Symbol.unknown code).Recognised rules follow := by
  refine fun tokens => ⟨fun start _ => .inl (.unknown code start), fun start word _ hword => ?_⟩
  cases hword

theorem Symbol.recognised_reference {name : String} {definition : Definition}
    (hrule : rules name = some definition) (h : Definition.Recognised rules follow definition) :
    (Symbol.reference name).Recognised rules follow :=
  fun tokens => (h tokens).congr (fun _ => Symbol.derives_reference_iff hrule)
    fun _ _ => .reference hrule

theorem Symbol.recognised_group {alternatives : Definition}
    (h : Definition.Recognised rules follow alternatives) :
    (Symbol.group alternatives).Recognised rules follow :=
  fun tokens => (h tokens).congr (fun _ => Symbol.derives_group_iff) fun _ _ => .group

/-- An optional symbol is recognised if its body is and does not begin with what may follow. -/
theorem Symbol.recognised_optional {body : Symbol} (h : body.Recognised rules follow)
    (hfollow : Disjoint (firsts (body.Derives rules)) follow) :
    (Symbol.optional body).Recognised rules follow := by
  refine fun tokens => ⟨fun start hstart => .inr ?_, fun start word hstands hword => ?_⟩
  · rcases (h tokens).yields_words start hstart with hnone | ⟨word, hstands, hword, hyields⟩
    · exact ⟨[], .nil hstart, .omitted body, .omitted hnone⟩
    · exact ⟨word, hstands, .present hword, .present hyields⟩
  · rcases Symbol.derives_optional_iff.1 hword with rfl | hword
    · -- What follows is nothing with which the body begins: it fails, or stands still.
      rcases (h tokens).yields_words.none_or_stay hstands hfollow with hnone | ⟨-, hstay⟩
      · exact .omitted hnone
      · exact .present hstay
    · exact .present ((h tokens).yields_standing start word hstands hword)

/-- The laps of a repeated symbol yield words of it. -/
theorem YieldsWords.repeated {tokens : List String} {body : Symbol}
    (h : YieldsWords tokens (body.Derives rules) (body.Yields rules tokens)) :
    YieldsWords tokens (Symbol.Derives rules (.repeated body))
      (Symbol.Yields rules tokens (.repeated body)) := by
  intro start hstart
  rcases h start hstart with hnone | ⟨first, hfirst, hderives, hyields⟩
  · exact .inr ⟨[], .nil hstart, .none body, .ended hnone⟩
  · by_cases hempty : first = []
    · subst hempty
      exact .inr ⟨[], .nil hstart, .none body, .still hyields⟩
    · -- The lap consumes something, so that fewer tokens are left for the others.
      have hlap := List.length_pos_of_ne_nil hempty
      have hfinish := hfirst.finish_le
      rcases YieldsWords.repeated h _ hfinish with hnone | ⟨rest, hrest, hmore, hlater⟩
      · cases hnone
      · refine .inr ⟨first ++ rest, hfirst.append hrest, .more hderives hmore, ?_⟩
        rw [List.length_append, ← Nat.add_assoc]
        exact .lap hyields (Nat.lt_add_of_pos_right hlap) hlater
termination_by start => tokens.length - start

/-- A repeated symbol is recognised if its body is, also before itself, and does not begin with what
may follow. -/
theorem Symbol.recognised_repeated {body : Symbol}
    (h : body.Recognised rules (follow ∪ firsts (body.Derives rules)))
    (hfollow : Disjoint (firsts (body.Derives rules)) follow) :
    (Symbol.repeated body).Recognised rules follow := by
  refine fun tokens => ⟨(h tokens).yields_words.repeated, fun start word hstands hword => ?_⟩
  obtain ⟨laps, rfl, hlaps⟩ := hword.exists_laps
  clear hword
  induction laps generalizing start with
  | nil =>
      -- After the last lap the body fails or stands still, which ends the repetition.
      rcases (h tokens).yields_words.none_or_stay hstands hfollow with hnone | ⟨-, hstay⟩
      · exact .ended hnone
      · exact .still hstay
  | cons lap laps ih =>
      obtain ⟨⟨hlap, hderives⟩, hlaps⟩ := List.forall_mem_cons.1 hlaps
      have hyields := (h tokens).yields_standing start lap
        (hstands.left (hstands.right.before_laps hlaps)) hderives
      rw [List.flatten_cons, List.length_append, ← Nat.add_assoc]
      exact .lap hyields (Nat.lt_add_of_pos_right (List.length_pos_of_ne_nil hlap))
        (ih _ hlaps hstands.right)

theorem Production.recognised_nil : Production.Recognised rules follow [] := by
  refine fun tokens => ⟨fun start hstart => .inr ⟨[], .nil hstart, .nil, .nil start⟩,
    fun start word _ hword => ?_⟩
  cases hword
  exact .nil start

/-- A production is recognised if its first symbol is, before what the others begin with, and the
others are. -/
theorem Production.recognised_cons {symbol : Symbol} {symbols : Production}
    (hfirst : symbol.Recognised rules (Production.followed rules symbols follow))
    (hrest : Production.Recognised rules follow symbols) :
    Production.Recognised rules follow (symbol :: symbols) := by
  refine fun tokens => ⟨fun start hstart => ?_, fun start word hstands hword => ?_⟩
  · rcases (hfirst tokens).yields_words start hstart with hnone | ⟨first, hstands, hword, hyields⟩
    · exact .inl (.fails hnone)
    · rcases (hrest tokens).yields_words _ hstands.finish_le with
        hnone | ⟨second, hsecond, hmore, hlater⟩
      · exact .inl (.cons hyields hnone)
      · refine .inr ⟨first ++ second, hstands.append hsecond, .cons hword hmore, ?_⟩
        rw [List.length_append, ← Nat.add_assoc]
        exact .cons hyields hlater
  · obtain ⟨first, rest, rfl, hderives, hmore⟩ := Production.derives_cons_iff.1 hword
    have hyields := (hfirst tokens).yields_standing start first
      (hstands.left (hmore.stands_followed hstands.right)) hderives
    rw [List.length_append, ← Nat.add_assoc]
    exact .cons hyields ((hrest tokens).yields_standing _ rest hstands.right hmore)

/-- A production is recognised if its symbols are, whatever may follow them. -/
theorem Production.recognised_of_univ {production : Production}
    (h : ∀ symbol ∈ production, symbol.Recognised rules .univ) :
    Production.Recognised rules follow production := by
  induction production with
  | nil => exact Production.recognised_nil
  | cons symbol symbols ih =>
      obtain ⟨hfirst, hrest⟩ := List.forall_mem_cons.1 h
      exact Production.recognised_cons (hfirst.mono (Set.subset_univ _)) (ih hrest)

/-- A definition is recognised if its productions are and each gives way to those after it. -/
theorem Definition.recognised {definition : Definition}
    (hproductions : ∀ production ∈ definition, Production.Recognised rules follow production)
    (hgives : definition.Pairwise fun production other =>
      GivesWay follow (Production.Derives rules production) (Production.Derives rules other)) :
    Definition.Recognised rules follow definition := by
  intro tokens
  induction definition with
  | nil =>
      refine ⟨fun start _ => .inl (.nil start), fun start word _ hword => ?_⟩
      obtain ⟨production, hmem, -⟩ := Definition.derives_iff.1 hword
      cases hmem
  | cons production rest ih =>
      obtain ⟨hfirst, hrest⟩ := List.forall_mem_cons.1 hproductions
      obtain ⟨hgives, hlater⟩ := List.pairwise_cons.1 hgives
      have hlater := ih hrest hlater
      refine ⟨fun start hstart => ?_, fun start word hstands hword => ?_⟩
      · rcases (hfirst tokens).yields_words start hstart with
          hnone | ⟨word, hstands, hword, hyields⟩
        · rcases hlater.yields_words start hstart with hfails | ⟨word, hstands, hword, hyields⟩
          · exact .inl (.later hnone hfails)
          · obtain ⟨later, hmem, hderives⟩ := Definition.derives_iff.1 hword
            exact .inr ⟨word, hstands, .intro (List.mem_cons_of_mem _ hmem) hderives,
              .later hnone hyields⟩
        · exact .inr ⟨word, hstands, .intro List.mem_cons_self hword, .first hyields⟩
      · by_cases hown : Production.Derives rules production word
        · exact .first ((hfirst tokens).yields_standing start word hstands hown)
        · obtain ⟨later, hmem, hderives⟩ := Definition.derives_iff.1 hword
          have hother := (List.mem_cons.1 hmem).resolve_left fun heq => hown (heq ▸ hderives)
          -- The first production gives way, so it cannot have matched another word here.
          have hfails : Production.Yields rules tokens production start none := by
            refine ((hfirst tokens).yields_words start hstands.start_le).resolve_right ?_
            rintro ⟨taken, htaken, hderived, -⟩
            exact hown (hgives later hother taken word hderived hderives (htaken.agree hstands))
          exact .later hfails (hlater.yields_standing start word hstands (.intro hother hderives))

/-- A definition with a single production is recognised if this is. -/
theorem Definition.recognised_singleton {production : Production}
    (h : Production.Recognised rules follow production) :
    Definition.Recognised rules follow [production] :=
  Definition.recognised (List.forall_mem_singleton.2 h) (List.pairwise_singleton _ production)

end Recognition

namespace Grammar

variable {grammar : Grammar} {tokens : List String}

/-- Rules are called soundly by a grammar. -/
theorem calls_sound : Matching.CallsSound grammar.definition? tokens (grammar.call tokens) :=
  fun name start finish => Matching.calls_sound grammar.definition? tokens _ name start finish

/-- A usable name that is recognised before nothing judges every sentence, and it judges those valid
whose words its rule derives. -/
theorem Usable.judges (hconsistent : grammar.Consistent) (hknows : grammar.Knows grammar.acyclic)
    {name : String} (h : grammar.Usable name)
    (hrecognised : (Symbol.reference name).Recognised grammar.definition? ∅) (sentence : String) :
    ∃ valid, (grammar.validate sentence name).1.result = .ok valid ∧
      (valid = true ↔
        Symbol.Derives grammar.definition? (.reference name) (words sentence)) := by
  have hsettled : (Symbol.reference name).Settled grammar.definition? (words sentence)
      (grammar.call (words sentence)) := call_settles hconsistent h
  obtain ⟨outcome, hsettles⟩ := hsettled 0 (Nat.zero_le _)
  have hresult : (grammar.call (words sentence) name 0).result = .ok (outcome.map Nat.cast) :=
    hsettles.ends
  refine ⟨_, by rw [result_validate hknows (h.complete name .refl) h.free, hresult]; rfl, ?_⟩
  rw [beq_iff_eq]
  constructor
  · intro hwhole
    have hcovers := calls_sound name 0 _ (Int.le_refl 0) (Int.natCast_nonneg _)
      (hresult.trans (congrArg _ hwhole))
    rw [← Matching.slice_all (words sentence)]
    exact hcovers.described
  · -- What is settled is the one outcome that the name yields.
    intro hderives
    have hyields := (hrecognised (words sentence)).yields_standing 0 _ .all hderives
    rw [Nat.zero_add] at hyields
    rw [← hsettles.eq hyields]
    rfl

end Grammar

end Bnf
