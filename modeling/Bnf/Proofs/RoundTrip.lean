import Bnf.Definition.Printer
import Bnf.Proofs.Parentheses
import Bnf.Proofs.Reading
import Bnf.UnicodeData.Version14

/-!
# Reading back what is written

The canonical text of a definition that was read from any text at all reads as that definition
again. A token keeps its text unless it is a group: `Symbol.code_tree_cases` says that a group is
written anew, between blanks, and that nothing else is. The inside of a group is nested, and so is
its canonical text, so that the written group is one token again. Hence `Definition.tree_code`, by
induction on the length of the text.
-/

namespace Bnf

section

variable [UnicodeData]

/-! ## Groups -/

/-- A token that ends with a star repeats, one that ends with a question mark is optional, and any
other token has no modifier. -/
theorem Symbol.tree_eq (token : List Char) :
    Symbol.tree token = match token.getLast? with
      | some '*' => .repeated (Symbol.treeBase token.dropLast)
      | some '?' => .optional (Symbol.treeBase token.dropLast)
      | _ => Symbol.treeBase token := rfl

theorem Symbol.tree_star (token : List Char) :
    Symbol.tree (token ++ ['*']) = .repeated (Symbol.treeBase token) := by
  rw [Symbol.tree_eq, List.getLast?_concat, List.dropLast_concat]
  rfl

theorem Symbol.tree_question (token : List Char) :
    Symbol.tree (token ++ ['?']) = .optional (Symbol.treeBase token) := by
  rw [Symbol.tree_eq, List.getLast?_concat, List.dropLast_concat]
  rfl

/-- What parentheses enclose is read as a group. -/
theorem Symbol.tree_base_group {inside : List Char} (h : Nesting.Nested inside) :
    Symbol.treeBase ('(' :: (inside ++ [')'])) = .group (Definition.tree inside) := by
  have hinterior := Nesting.interior_eq_some_iff.2 ⟨rfl, h⟩
  have hquote : Text.delimited? '"' '"' ('(' :: (inside ++ [')'])) = none := by
    simp [Text.delimited?]
  have hangle : Text.delimited? '<' '>' ('(' :: (inside ++ [')'])) = none := by
    simp [Text.delimited?]
  exact Symbol.treeOfBase_group hquote hangle hinterior _

/-- What a token without a modifier may be read as. -/
inductive Symbol.BaseTree : List Char → Symbol → Prop where
  | terminal {literal : List Char} (h : '"' ∉ literal) :
      Symbol.BaseTree (Text.delimit '"' '"' literal) (.terminal (String.ofList literal))
  | reference {name : List Char} (h : '>' ∉ name) :
      Symbol.BaseTree (Text.delimit '<' '>' name) (.reference (String.ofList name))
  | group {inside : List Char} (h : Nesting.Nested inside) :
      Symbol.BaseTree ('(' :: (inside ++ [')'])) (.group (Definition.tree inside))
  | charClass {token : List Char} (h : (CharSet.read? token).isSome) :
      Symbol.BaseTree token (.charClass (String.ofList token))
  | unknown (token : List Char) : Symbol.BaseTree token (.unknown (String.ofList token))

/-- A token without a modifier is read in one of these ways. -/
theorem Symbol.base_tree_cases (token : List Char) :
    Symbol.BaseTree token (Symbol.treeBase token) := by
  rw [Symbol.treeBase, Symbol.treeOfBase]
  split
  · rename_i literal hliteral
    obtain ⟨rfl, hmem⟩ := Text.delimited?_eq_some_iff.1 hliteral
    exact .terminal hmem
  · split
    · rename_i name hname
      obtain ⟨rfl, hmem⟩ := Text.delimited?_eq_some_iff.1 hname
      exact .reference hmem
    · split
      · rename_i inside hinside
        obtain ⟨rfl, hnested⟩ := Nesting.interior_eq_some_iff.1 hinside
        exact .group hnested
      · split
        · rename_i hset
          exact .charClass hset
        · exact .unknown token

/-- A token without modifier is a group, or its symbol is written as the token itself. -/
theorem Symbol.code_tree_base_cases (token : List Char) :
    (Symbol.treeBase token).code = token ∨
      ∃ inside, token = '(' :: (inside ++ [')']) ∧ Nesting.Nested inside := by
  have hreading := Symbol.base_tree_cases token
  generalize Symbol.treeBase token = symbol at hreading
  cases hreading with
  | group hinside => exact .inr ⟨_, rfl, hinside⟩
  | terminal _ | reference _ | charClass _ | unknown => exact .inl (by simp [Symbol.code])

/-- What a token may end with besides its symbol: nothing, a star or a question mark. -/
inductive Modifier : List Char → (Symbol → Symbol) → Prop where
  | none : Modifier [] id
  | star : Modifier ['*'] .repeated
  | question : Modifier ['?'] .optional

/-- A modifier after a group modifies the group. -/
theorem Modifier.tree_group {mark : List Char} {modify : Symbol → Symbol}
    (hmark : Modifier mark modify) {inside : List Char} (h : Nesting.Nested inside) :
    Symbol.tree ('(' :: (inside ++ [')']) ++ mark) = modify (.group (Definition.tree inside)) := by
  cases hmark with
  | none =>
      have hlast : ('(' :: (inside ++ [')'])).getLast? = some ')' := by
        rw [← List.cons_append, List.getLast?_concat]
      rw [List.append_nil, Symbol.tree_eq, hlast, ← Symbol.tree_base_group h]
      rfl
  | star => rw [Symbol.tree_star, Symbol.tree_base_group h]
  | question => rw [Symbol.tree_question, Symbol.tree_base_group h]

omit [UnicodeData] in
/-- A modified group is written as the group and its modifier. -/
theorem Modifier.code_group {mark : List Char} {modify : Symbol → Symbol}
    (hmark : Modifier mark modify) (alternatives : Definition) :
    (modify (.group alternatives)).code =
      '(' :: ([' '] ++ Definition.code alternatives ++ [' '] ++ [')']) ++ mark := by
  cases hmark <;> simp [Symbol.code, Definition.code]

omit [UnicodeData] in
/-- A modifier has no parentheses. -/
theorem Modifier.nested {mark : List Char} {modify : Symbol → Symbol}
    (hmark : Modifier mark modify) : Nesting.Nested mark := by
  cases hmark <;> exact Nesting.nested_of_forall (by simp)

omit [UnicodeData] in
/-- A modifier has neither blanks nor bars. -/
theorem Modifier.not_separator {mark : List Char} {modify : Symbol → Symbol}
    (hmark : Modifier mark modify) :
    ∀ c ∈ mark, Text.isBlank c = false ∧ (c == '|') = false := by
  cases hmark with
  | none => exact List.forall_mem_nil _
  | star => exact List.forall_mem_singleton.2 (by decide)
  | question => exact List.forall_mem_singleton.2 (by decide)

/-- The symbol of a token is written as the token itself, unless the token is a group with or
without a modifier. -/
theorem Symbol.code_tree_cases (token : List Char) :
    (Symbol.tree token).code = token ∨
      ∃ inside mark modify, Modifier mark modify ∧ Nesting.Nested inside ∧
        token = '(' :: (inside ++ [')']) ++ mark := by
  rw [Symbol.tree_eq]
  split
  · rename_i hlast
    obtain ⟨base, rfl⟩ := List.getLast?_eq_some_iff.1 hlast
    rw [List.dropLast_concat]
    rcases Symbol.code_tree_base_cases base with hcode | ⟨inside, rfl, hinside⟩
    · exact .inl (by rw [Symbol.code, hcode])
    · exact .inr ⟨inside, _, _, .star, hinside, rfl⟩
  · rename_i hlast
    obtain ⟨base, rfl⟩ := List.getLast?_eq_some_iff.1 hlast
    rw [List.dropLast_concat]
    rcases Symbol.code_tree_base_cases base with hcode | ⟨inside, rfl, hinside⟩
    · exact .inl (by rw [Symbol.code, hcode])
    · exact .inr ⟨inside, _, _, .question, hinside, rfl⟩
  · rcases Symbol.code_tree_base_cases token with hcode | ⟨inside, rfl, hinside⟩
    · exact .inl hcode
    · exact .inr ⟨inside, _, _, .none, hinside, by rw [List.append_nil]⟩

/-! ## Where reading faults -/

/-- A token without modifier that names a code point which is too large holds an escape with eight
digits, if the insides of groups do. -/
theorem Symbol.infix_of_overflows_base {token : List Char}
    (hgroup : ∀ inside, inside.length < token.length →
      Definition.overflows (Definition.tree inside) = true → ['\\', 'U'] <:+: inside)
    (h : (Symbol.treeBase token).overflows = true) : ['\\', 'U'] <:+: token := by
  have hreading := Symbol.base_tree_cases token
  generalize Symbol.treeBase token = symbol at hreading h
  cases hreading with
  | terminal _ | reference _ | charClass _ => cases h
  | group hinside =>
      have hinterior := Nesting.interior_eq_some_iff.2 ⟨rfl, hinside⟩
      exact (hgroup _ (Nesting.length_lt_of_interior? hinterior) h).trans ⟨['('], [')'], rfl⟩
  | unknown token =>
      rw [Symbol.overflows, String.toList_ofList] at h
      exact CharSet.infix_of_overflows h

/-- A token that names a code point which is too large holds an escape with eight digits, if the
insides of groups do. -/
theorem Symbol.infix_of_overflows {token : List Char}
    (hgroup : ∀ inside, inside.length < token.length →
      Definition.overflows (Definition.tree inside) = true → ['\\', 'U'] <:+: inside)
    (h : (Symbol.tree token).overflows = true) : ['\\', 'U'] <:+: token := by
  have hshorter : (Symbol.treeBase token.dropLast).overflows = true → ['\\', 'U'] <:+: token :=
    fun hbase => (Symbol.infix_of_overflows_base (fun inside hlength =>
      hgroup inside (Nat.lt_of_lt_of_le hlength (by simp))) hbase).trans
        (List.dropLast_prefix token).isInfix
  rw [Symbol.tree_eq] at h
  split at h
  · exact hshorter h
  · exact hshorter h
  · exact Symbol.infix_of_overflows_base hgroup h

/-- A text that names a code point which is too large holds an escape with eight digits. -/
theorem Definition.infix_of_overflows {text : List Char}
    (h : Definition.overflows (Definition.tree text) = true) : ['\\', 'U'] <:+: text := by
  rw [Definition.overflows_eq_any, List.any_eq_true] at h
  obtain ⟨production, hproduction, h⟩ := h
  rw [Definition.tree_eq_map] at hproduction
  obtain ⟨alternative, halternative, rfl⟩ := List.mem_map.1 hproduction
  rw [Production.overflows_eq_any, List.any_eq_true] at h
  obtain ⟨symbol, hsymbol, h⟩ := h
  obtain ⟨token, htoken, rfl⟩ := List.mem_map.1 hsymbol
  have hinfix := (Nesting.infix_of_mem_tokens htoken).trans
    (Nesting.infix_of_mem_alternatives halternative)
  refine (Symbol.infix_of_overflows (fun inside hlength hinside => ?_) h).trans hinfix
  have hshorter : inside.length < text.length := Nat.lt_of_lt_of_le hlength hinfix.length_le
  exact Definition.infix_of_overflows hinside
termination_by text.length

/-- The only fault of reading is a code point which is too large, and the text names it by an escape
with eight digits. -/
theorem Definition.read_error {text : List Char} {fault : Fault}
    (h : Definition.read text = .error fault) :
    fault = .codePointOverflow ∧ ['\\', 'U'] <:+: text := by
  rw [Definition.read_eq_checked, checked_eq_error_iff] at h
  exact ⟨h.2, Definition.infix_of_overflows h.1⟩

/-! ## Canonical texts -/

/-- The symbols of a production are those of its tokens. -/
theorem Production.codes_tree (text : List Char) :
    Production.codes (Production.tree text) =
      (Nesting.tokens text).map fun token => (Symbol.tree token).code := by
  rw [Production.codes_eq_map, Production.tree, List.map_map]
  rfl

/-- The productions of a definition are those of its alternatives. -/
theorem Definition.codes_tree (text : List Char) :
    Definition.codes (Definition.tree text) =
      (Nesting.alternatives text).map fun alternative =>
        Production.code (Production.tree alternative) := by
  rw [Definition.codes_eq_map, Definition.tree_eq_map, List.map_map]
  rfl

/-- The canonical text of a nested text is nested. -/
theorem Definition.nested_code_tree {text : List Char} (h : Nesting.Nested text) :
    Nesting.Nested (Definition.code (Definition.tree text)) := by
  rw [Definition.code, Definition.codes_tree]
  refine Nesting.nested_intercalate (Nesting.nested_of_forall (by simp)) fun piece hpiece => ?_
  obtain ⟨alternative, halternative, rfl⟩ := List.mem_map.1 hpiece
  rw [Production.code, Production.codes_tree]
  refine Nesting.nested_intercalate Nesting.nested_blank fun code hcode => ?_
  obtain ⟨token, htoken, rfl⟩ := List.mem_map.1 hcode
  have hnested : Nesting.Nested token :=
    Nesting.nested_of_mem_tokens (Nesting.nested_of_mem_alternatives h halternative) htoken
  rcases Symbol.code_tree_cases token with hsame | ⟨inside, mark, modify, hmark, hinside, rfl⟩
  · rwa [hsame]
  · have hshorter := Nesting.length_lt_of_group halternative htoken
    have hcode : Nesting.Nested (Definition.code (Definition.tree inside)) :=
      Definition.nested_code_tree hinside
    rw [hmark.tree_group hinside, hmark.code_group]
    exact hcode.between_blanks.enclose.append hmark.nested
termination_by text.length

/-- The canonical text of a symbol has the balance of its token. -/
theorem Symbol.balance_code_tree (token : List Char) :
    Nesting.balance (Symbol.tree token).code = Nesting.balance token := by
  rcases Symbol.code_tree_cases token with hsame | ⟨inside, mark, modify, hmark, hinside, rfl⟩
  · rw [hsame]
  · have hcode := Definition.nested_code_tree hinside
    rw [hmark.tree_group hinside, hmark.code_group]
    simp [hinside.balanced, hcode.balanced, hmark.nested.balanced, Nesting.step]

/-- The canonical text of a symbol is a token if its token was one. -/
theorem Symbol.is_token_code_tree {token : List Char} (h : Nesting.IsToken token) :
    Nesting.IsToken (Symbol.tree token).code := by
  rcases Symbol.code_tree_cases token with hsame | ⟨inside, mark, modify, hmark, hinside, rfl⟩
  · rwa [hsame]
  · have hcode := Definition.nested_code_tree hinside
    rw [hmark.tree_group hinside, hmark.code_group]
    exact hcode.between_blanks.is_token_enclose hmark.not_separator

/-- The canonical text of a production has the balance of the alternative it was read from. -/
theorem Production.balance_code_tree (text : List Char) :
    Nesting.balance (Production.code (Production.tree text)) = Nesting.balance text := by
  rw [Production.code, Production.codes_tree, Nesting.balance_intercalate rfl,
    ← Nesting.balance_flatten_tokens text]
  generalize Nesting.tokens text = tokens
  induction tokens with
  | nil => rfl
  | cons token rest ih =>
      rw [List.map_cons, List.flatten_cons, List.flatten_cons, Nesting.balance_append,
        Nesting.balance_append, Symbol.balance_code_tree, ih]

/-! ## Reading back -/

/-- Canonical texts that are tokens, all balanced but the last, make a text whose tokens they
are. -/
theorem Production.tree_intercalate {codes : List (List Char)}
    (htoken : ∀ code ∈ codes, Nesting.IsToken code)
    (hbalance : ∀ code ∈ codes.dropLast, Nesting.balance code = 0) :
    Production.tree ([' '].intercalate codes) = codes.map Symbol.tree := by
  rw [Production.tree, Nesting.tokens_intercalate (fun hnil => (htoken [] hnil).ne_nil rfl)
    (fun code hcode => (htoken code hcode).unbroken_blank) hbalance]

/-- Canonical texts of productions, all balanced but the last, make a text whose alternatives they
are. -/
theorem Definition.tree_intercalate {codes : List (List Char)} (hne : codes ≠ [])
    (hcode : ∀ code ∈ codes, Text.Stripped code ∧ Nesting.Unbroken (· == '|') 0 code)
    (hbalance : ∀ code ∈ codes.dropLast, Nesting.balance code = 0) :
    Definition.tree ([' ', '|', ' '].intercalate codes) = codes.map Production.tree := by
  have hstrip : codes.map Text.strip = codes :=
    (List.map_congr_left fun code h => (hcode code h).1.strip_eq).trans (List.map_id codes)
  rw [Definition.tree_eq_map, Nesting.alternatives_intercalate hne (fun code h => (hcode code h).2)
    hbalance, hstrip]

/-- Blanks at the ends of a definition do not count. -/
theorem Definition.tree_strip (text : List Char) :
    Definition.tree (Text.strip text) = Definition.tree text := by
  rw [Definition.tree_eq_map, Nesting.alternatives_strip, ← Definition.tree_eq_map]

/-- Blanks around a definition do not count. -/
theorem Definition.tree_between_blanks (text : List Char) :
    Definition.tree ([' '] ++ text ++ [' ']) = Definition.tree text := by
  rw [← Definition.tree_strip, Text.strip_append_blank (by decide), List.singleton_append,
    Text.strip_cons_blank (by decide), Definition.tree_strip]

/-- The canonical texts of the symbols of an alternative are tokens, all balanced but the last. -/
theorem Production.codes_tree_tokens {alternative : List Char}
    (hstripped : Text.Stripped alternative) (hbar : Nesting.Unbroken (· == '|') 0 alternative) :
    (∀ code ∈ Production.codes (Production.tree alternative), Nesting.IsToken code) ∧
      ∀ code ∈ (Production.codes (Production.tree alternative)).dropLast,
        Nesting.balance code = 0 := by
  rw [Production.codes_tree]
  constructor
  · intro code hcode
    obtain ⟨token, htoken, rfl⟩ := List.mem_map.1 hcode
    exact Symbol.is_token_code_tree (Nesting.is_token_of_mem_tokens hstripped hbar htoken)
  · intro code hcode
    rw [← List.map_dropLast] at hcode
    obtain ⟨token, htoken, rfl⟩ := List.mem_map.1 hcode
    rw [Symbol.balance_code_tree, Nesting.balance_of_mem_dropLast_tokens htoken]

/-- The canonical texts of the productions of a definition are stripped and have no bar of depth
zero, and all but the last are balanced. -/
theorem Definition.codes_tree_alternatives (text : List Char) :
    (∀ code ∈ Definition.codes (Definition.tree text),
        Text.Stripped code ∧ Nesting.Unbroken (· == '|') 0 code) ∧
      ∀ code ∈ (Definition.codes (Definition.tree text)).dropLast, Nesting.balance code = 0 := by
  rw [Definition.codes_tree]
  constructor
  · intro code hcode
    obtain ⟨alternative, halternative, rfl⟩ := List.mem_map.1 hcode
    obtain ⟨htoken, hbalance⟩ := Production.codes_tree_tokens
      (Nesting.stripped_of_mem_alternatives halternative)
      (Nesting.unbroken_of_mem_alternatives halternative)
    have hstripped := fun code h => And.intro (htoken code h).ne_nil (htoken code h).stripped
    exact ⟨Text.stripped_intercalate [' '] hstripped,
      Nesting.unbroken_bar_intercalate (fun code h => (htoken code h).unbroken_bar) hbalance⟩
  · intro code hcode
    rw [← List.map_dropLast] at hcode
    obtain ⟨alternative, halternative, rfl⟩ := List.mem_map.1 hcode
    rw [Production.balance_code_tree, Nesting.balance_of_mem_dropLast_alternatives halternative]

/-- The canonical text of a definition that was read reads as that definition. -/
theorem Definition.tree_code (text : List Char) :
    Definition.tree (Definition.code (Definition.tree text)) = Definition.tree text := by
  obtain ⟨hcode, hbalance⟩ := Definition.codes_tree_alternatives text
  have hne : Definition.codes (Definition.tree text) ≠ [] := by
    rw [Definition.codes_tree, Ne, List.map_eq_nil_iff]
    exact Nesting.alternatives_ne_nil text
  rw [Definition.code, Definition.tree_intercalate hne hcode hbalance, Definition.codes_tree,
    List.map_map, Definition.tree_eq_map text]
  refine List.map_congr_left fun alternative halternative => ?_
  obtain ⟨htoken, hbalance⟩ := Production.codes_tree_tokens
    (Nesting.stripped_of_mem_alternatives halternative)
    (Nesting.unbroken_of_mem_alternatives halternative)
  rw [Function.comp_apply, Production.code, Production.tree_intercalate htoken hbalance,
    Production.codes_tree, List.map_map, Production.tree]
  refine List.map_congr_left fun token htoken => ?_
  rw [Function.comp_apply]
  rcases Symbol.code_tree_cases token with hsame | ⟨inside, mark, modify, hmark, hinside, rfl⟩
  · rw [hsame]
  · -- The written group is a token again, and its inside is shorter than the text.
    have hshorter := Nesting.length_lt_of_group halternative htoken
    have hagain : Definition.tree (Definition.code (Definition.tree inside)) =
        Definition.tree inside := Definition.tree_code inside
    have hcode := (Definition.nested_code_tree hinside).between_blanks
    rw [hmark.tree_group hinside, hmark.code_group, hmark.tree_group hcode,
      Definition.tree_between_blanks, hagain]
termination_by text.length

/-- The canonical text of a definition that was read reads as that definition. -/
theorem Definition.read_code {text : List Char} {definition : Definition}
    (h : Definition.read text = .ok definition) :
    Definition.read (Definition.code definition) = .ok definition := by
  rw [Definition.read_eq_checked, checked_eq_ok_iff] at h
  obtain ⟨hoverflows, rfl⟩ := h
  rw [Definition.read_eq_checked, Definition.tree_code, checked_eq_ok_iff]
  exact ⟨hoverflows, rfl⟩

/-- The canonical text of a definition is a normal form: it can be read, and reading and writing it
again changes nothing, neither the definition nor the text. Definitions that were read from texts
are equal exactly if their canonical texts are. A text that cannot be read names a code point that
is larger than any integer of 32 bits, by an escape with eight digits. -/
theorem Definition.code_normal_form :
    (∀ text definition, Definition.read text = .ok definition →
        Definition.read (Definition.code definition) = .ok definition) ∧
      (∀ text definition again, Definition.read text = .ok definition →
        Definition.read (Definition.code definition) = .ok again →
          Definition.code again = Definition.code definition) ∧
      (∀ text other first second, Definition.read text = .ok first →
        Definition.read other = .ok second →
          (first = second ↔ Definition.code first = Definition.code second)) ∧
      ∀ text fault, Definition.read text = .error fault →
        fault = .codePointOverflow ∧ ['\\', 'U'] <:+: text := by
  refine ⟨fun _ _ h => Definition.read_code h, fun text definition again h hagain => ?_,
    fun text other first second hfirst hsecond => ⟨fun h => by rw [h], fun h => ?_⟩,
    fun _ _ h => Definition.read_error h⟩
  · rw [Definition.read_code h, Except.ok.injEq] at hagain
    rw [hagain]
  · have hagain := Definition.read_code hfirst
    rw [h, Definition.read_code hsecond, Except.ok.injEq] at hagain
    exact hagain.symm

end

/-- A definition with a modified group, an unclosed parenthesis and two texts, and a text that
cannot be read. -/
theorem Definition.code_normal_form_unclosed :
    let text := "(<a>|\"b\")?  [x-z]*| (c".toList
    let definition : Definition :=
      [[.optional (.group [[.reference "a"], [.terminal "b"]]), .repeated (.charClass "[x-z]")],
        [.unknown "(c"]]
    let code := "( <a> | \"b\" )? [x-z]* | (c".toList
    let faulty := "(\"a\" [\\UFFFFFFFF])".toList
    Definition.read text = .ok definition ∧ Definition.code definition = code ∧
      Definition.read code = .ok definition ∧ (definition = definition ↔ code = code) ∧
      Definition.read faulty = .error .codePointOverflow ∧ ['\\', 'U'] <:+: faulty := by
  have hread : Definition.read "(<a>|\"b\")?  [x-z]*| (c".toList =
      .ok [[.optional (.group [[.reference "a"], [.terminal "b"]]), .repeated (.charClass "[x-z]")],
        [.unknown "(c"]] := by cbv
  have hcode : Definition.code
      [[.optional (.group [[.reference "a"], [.terminal "b"]]), .repeated (.charClass "[x-z]")],
        [.unknown "(c"]] = "( <a> | \"b\" )? [x-z]* | (c".toList := by cbv
  have hfault : Definition.read "(\"a\" [\\UFFFFFFFF])".toList = .error .codePointOverflow := by cbv
  obtain ⟨hback, hagain, hequal, herror⟩ := Definition.code_normal_form
  have hreadCode := hback _ _ hread
  have hsame := hagain _ _ _ hread hreadCode
  have hiff := hequal _ _ _ _ hread hreadCode
  rw [hcode] at hreadCode hsame hiff
  exact ⟨hread, hsame, hreadCode, hiff, hfault, (herror _ _ hfault).2⟩

section

variable [UnicodeData]

/-! ## The characters of a canonical text -/

omit [UnicodeData] in
/-- What stands between pieces or in one of them. -/
theorem Text.mem_of_mem_intercalate {separator : List Char} {pieces : List (List Char)} {c : Char}
    (h : c ∈ separator.intercalate pieces) : c ∈ separator ∨ ∃ piece ∈ pieces, c ∈ piece := by
  induction pieces with
  | nil => simp at h
  | cons piece rest ih =>
      cases rest with
      | nil => exact .inr ⟨piece, by simp, by simpa using h⟩
      | cons next more =>
          rw [List.intercalate_cons_cons, List.mem_append, List.mem_append] at h
          rcases h with (hpiece | hseparator) | hmore
          · exact .inr ⟨piece, List.mem_cons_self, hpiece⟩
          · exact .inl hseparator
          · exact (ih hmore).imp_right fun ⟨found, hfound, hc⟩ =>
              ⟨found, List.mem_cons_of_mem _ hfound, hc⟩

/-- A canonical text has the characters of the text that was read, and blanks and bars between
them. -/
theorem Definition.mem_code_tree {text : List Char} {c : Char}
    (h : c ∈ Definition.code (Definition.tree text)) : c ∈ text ∨ c = ' ' ∨ c = '|' := by
  rw [Definition.code, Definition.codes_tree] at h
  rcases Text.mem_of_mem_intercalate h with hseparator | ⟨piece, hpiece, hc⟩
  · simp only [List.mem_cons, List.not_mem_nil, or_false] at hseparator
    grind
  obtain ⟨alternative, halternative, rfl⟩ := List.mem_map.1 hpiece
  rw [Production.code, Production.codes_tree] at hc
  rcases Text.mem_of_mem_intercalate hc with hblank | ⟨code, hcode, hc⟩
  · exact .inr (.inl (List.mem_singleton.1 hblank))
  obtain ⟨token, htoken, rfl⟩ := List.mem_map.1 hcode
  have htext : ∀ d ∈ token, d ∈ text := fun d hd =>
    ((Nesting.infix_of_mem_tokens htoken).trans
      (Nesting.infix_of_mem_alternatives halternative)).subset hd
  rcases Symbol.code_tree_cases token with hsame | ⟨inside, mark, modify, hmark, hinside, rfl⟩
  · exact .inl (htext c (hsame ▸ hc))
  · have hshorter := Nesting.length_lt_of_group halternative htoken
    rw [hmark.tree_group hinside, hmark.code_group] at hc
    simp only [List.mem_append, List.mem_cons, List.not_mem_nil, or_false] at hc htext
    rcases hc with (hopen | ((hblank | hcode) | hblank) | hclose) | hend
    · exact .inl (htext c (.inl (.inl hopen)))
    · exact .inr (.inl hblank)
    · exact (Definition.mem_code_tree hcode).imp_left fun hmem =>
        htext c (.inl (.inr (.inl hmem)))
    · exact .inr (.inl hblank)
    · exact .inl (htext c (.inl (.inr (.inr hclose))))
    · exact .inl (htext c (.inr hend))
termination_by text.length

end

end Bnf
