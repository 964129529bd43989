import Bnf.Proofs.Modifiers
import Bnf.UnicodeData.Version14
import Mathlib.Data.Bool.AllAny

/-!
# Writing well-formed definitions

A definition need not come from a text. One that is put together from symbols is well formed if its
symbols could have been read: the texts of its leaves are solid, that is hold neither parentheses
nor bars nor blanks, no leaf could be taken for one of another kind, and no modifier modifies a
modified symbol. The canonical text of such a definition reads as that definition, whatever it
nests and however many of its productions are empty, unless an unknown symbol names a code point
that is too large (`well_formed_reads_back`). The property that is carried from the leaves to the
whole is `Symbol.ReadsBack`: a symbol is written as one token, with all parentheses closed, and the
tree of this token is the symbol.
-/

namespace Bnf

section

variable [UnicodeData]

/-! ## Well-formed definitions -/

/-- A character that neither separates symbols or productions nor nests a group. -/
def Text.IsSolid (c : Char) : Prop :=
  c ≠ '(' ∧ c ≠ ')' ∧ c ≠ '|' ∧ isBlank c = false

instance (c : Char) : Decidable (Text.IsSolid c) :=
  inferInstanceAs (Decidable (_ ∧ _))

/-- A symbol that can be written so that it is read as itself. -/
inductive Symbol.WellFormed : Symbol → Prop where
  | terminal {literal : String} (h : ∀ c ∈ literal.toList, c ≠ '"' ∧ Text.IsSolid c) :
      Symbol.WellFormed (.terminal literal)
  | reference {name : String} (h : ∀ c ∈ name.toList, c ≠ '>' ∧ Text.IsSolid c) :
      Symbol.WellFormed (.reference name)
  | charClass {pattern : String} {body : List Char}
      (hpattern : pattern.toList = Text.delimit '[' ']' body)
      (h : ∀ c ∈ body, c ≠ ']' ∧ Text.IsSolid c)
      (hset : (CharSet.read? pattern.toList).isSome) :
      Symbol.WellFormed (.charClass pattern)
  | unknown {code : String} (hne : code ≠ "") (h : ∀ c ∈ code.toList, Text.IsSolid c)
      (hstar : code.toList.getLast? ≠ some '*') (hquestion : code.toList.getLast? ≠ some '?')
      (hterminal : ∀ literal, '"' ∉ literal → code.toList ≠ Text.delimit '"' '"' literal)
      (hreference : ∀ name, '>' ∉ name → code.toList ≠ Text.delimit '<' '>' name)
      (hset : CharSet.read? code.toList = none) :
      Symbol.WellFormed (.unknown code)
  | group {alternatives : Definition} (hne : alternatives ≠ [])
      (h : ∀ production ∈ alternatives, ∀ symbol ∈ production, Symbol.WellFormed symbol) :
      Symbol.WellFormed (.group alternatives)
  | optional {body : Symbol} (hbase : body.IsBase) (h : Symbol.WellFormed body) :
      Symbol.WellFormed (.optional body)
  | repeated {body : Symbol} (hbase : body.IsBase) (h : Symbol.WellFormed body) :
      Symbol.WellFormed (.repeated body)

/-- A definition of well-formed symbols with at least one production. Productions may be empty. -/
structure Definition.WellFormed (definition : Definition) : Prop where
  ne_nil : definition ≠ []
  symbols : ∀ production ∈ definition, ∀ symbol ∈ production, symbol.WellFormed

/-! ## Tokens -/

namespace Nesting

omit [UnicodeData] in
/-- A solid text that is not empty is a token. -/
theorem is_token_of_solid {text : List Char} (hne : text ≠ [])
    (h : ∀ c ∈ text, Text.IsSolid c) : IsToken text where
  ne_nil := hne
  stripped :=
    ⟨fun c hc => (h c (List.mem_of_head? hc)).2.2.2,
      fun c hc => (h c (List.mem_of_getLast? hc)).2.2.2⟩
  unbroken_blank := by
    intro before c after htext hblank
    have hsolid := (h c (by simp [htext])).2.2.2
    rw [hsolid] at hblank
    cases hblank
  unbroken_bar := by
    intro before c after htext hbar
    exact absurd (beq_iff_eq.1 hbar) (h c (by simp [htext])).2.2.1

omit [UnicodeData] in
/-- A solid text has no parentheses. -/
theorem nested_of_solid {text : List Char} (h : ∀ c ∈ text, Text.IsSolid c) : Nested text :=
  nested_of_forall fun c hc => ⟨(h c hc).1, (h c hc).2.1⟩

omit [UnicodeData] in
/-- A solid mark behind a balanced token makes one token with it. -/
theorem IsToken.append_mark {token : List Char} (h : IsToken token) (hbalance : balance token = 0)
    {mark : Char} (hmark : Text.IsSolid mark) : IsToken (token ++ [mark]) := by
  have hsolid : IsToken [mark] :=
    is_token_of_solid (List.cons_ne_nil mark []) (List.forall_mem_singleton.2 hmark)
  refine ⟨by simp, ⟨fun c hc => ?_, fun c hc => ?_⟩, ?_, ?_⟩
  · rw [List.head?_append_of_ne_nil _ h.ne_nil] at hc
    exact h.stripped.head_not_blank c hc
  · rw [List.getLast?_concat] at hc
    cases hc
    exact hmark.2.2.2
  · rw [unbroken_append, hbalance]
    exact ⟨h.unbroken_blank, hsolid.unbroken_blank⟩
  · rw [unbroken_append, hbalance]
    exact ⟨h.unbroken_bar, hsolid.unbroken_bar⟩

end Nesting

omit [UnicodeData] in
/-- A delimited text is solid if its inside and its marks are. -/
theorem Text.solid_delimit {opening closing : Char} {inside : List Char}
    (hopening : IsSolid opening) (hclosing : IsSolid closing) (h : ∀ c ∈ inside, IsSolid c) :
    ∀ c ∈ delimit opening closing inside, IsSolid c :=
  List.forall_mem_cons.2
    ⟨hopening, List.forall_mem_append.2 ⟨h, List.forall_mem_singleton.2 hclosing⟩⟩

/-! ## Reading tokens without a modifier -/

/-- A token that ends with neither mark has no modifier. -/
theorem Symbol.tree_of_last {token : List Char} (hstar : token.getLast? ≠ some '*')
    (hquestion : token.getLast? ≠ some '?') : Symbol.tree token = Symbol.treeBase token := by
  rw [Symbol.tree_eq]
  split
  · rename_i hlast
    exact absurd hlast hstar
  · rename_i hlast
    exact absurd hlast hquestion
  · rfl

omit [UnicodeData] in
/-- A text that begins with another mark is not delimited. -/
theorem Text.delimited_eq_none {opening closing first : Char} (h : first ≠ opening)
    (rest : List Char) : delimited? opening closing (first :: rest) = none := by
  rw [delimited?, if_neg fun hfirst => h hfirst.1]

theorem Symbol.tree_base_terminal {literal : List Char} (h : '"' ∉ literal) :
    Symbol.treeBase (Text.delimit '"' '"' literal) = .terminal (String.ofList literal) := by
  have hquote : Text.delimited? '"' '"' (Text.delimit '"' '"' literal) = some literal :=
    Text.delimited?_eq_some_iff.2 ⟨rfl, h⟩
  simp only [Symbol.treeBase, Symbol.treeOfBase, hquote]

theorem Symbol.tree_base_reference {name : List Char} (h : '>' ∉ name) :
    Symbol.treeBase (Text.delimit '<' '>' name) = .reference (String.ofList name) := by
  have hquote : Text.delimited? '"' '"' (Text.delimit '<' '>' name) = none :=
    Text.delimited_eq_none (by decide) _
  have hangle : Text.delimited? '<' '>' (Text.delimit '<' '>' name) = some name :=
    Text.delimited?_eq_some_iff.2 ⟨rfl, h⟩
  simp only [Symbol.treeBase, Symbol.treeOfBase, hquote, hangle]

omit [UnicodeData] in
/-- A solid text is not enclosed by parentheses. -/
theorem Nesting.interior_of_solid {text : List Char} (h : ∀ c ∈ text, Text.IsSolid c) :
    interior? text = none := by
  rw [Option.eq_none_iff_forall_ne_some]
  intro inside hinside
  rw [(interior_eq_some_iff.1 hinside).1] at h
  exact (h '(' List.mem_cons_self).1 rfl

/-! ## Symbols that read back -/

/-- A symbol is written as one token that closes all its parentheses and reads as the symbol. If the
symbol has no modifier, neither has the token. -/
structure Symbol.ReadsBack (symbol : Symbol) : Prop where
  is_token : Nesting.IsToken symbol.code
  nested : Nesting.Nested symbol.code
  read : Symbol.tree symbol.code = symbol
  base : symbol.IsBase → Symbol.treeBase symbol.code = symbol

/-- A symbol without a modifier reads back if its token does so as a token without one. -/
theorem Symbol.reads_back_of_base {symbol : Symbol} (htoken : Nesting.IsToken symbol.code)
    (hnested : Nesting.Nested symbol.code) (hstar : symbol.code.getLast? ≠ some '*')
    (hquestion : symbol.code.getLast? ≠ some '?')
    (hbase : Symbol.treeBase symbol.code = symbol) : symbol.ReadsBack :=
  ⟨htoken, hnested, (Symbol.tree_of_last hstar hquestion).trans hbase, fun _ => hbase⟩

/-- A symbol that is written as a solid delimited text reads back if its token does so as a token
without a modifier. -/
theorem Symbol.reads_back_of_delimit {symbol : Symbol} {opening closing : Char} {inside : List Char}
    (hcode : symbol.code = Text.delimit opening closing inside) (hopening : Text.IsSolid opening)
    (hclosing : Text.IsSolid closing) (hinside : ∀ c ∈ inside, Text.IsSolid c)
    (hmark : closing ≠ '*' ∧ closing ≠ '?')
    (hbase : Symbol.treeBase (Text.delimit opening closing inside) = symbol) :
    symbol.ReadsBack := by
  have hsolid := Text.solid_delimit hopening hclosing hinside
  have hlast : (Text.delimit opening closing inside).getLast? = some closing :=
    List.getLast?_concat (l := opening :: inside)
  rw [← hcode] at hsolid hlast hbase
  refine Symbol.reads_back_of_base (Nesting.is_token_of_solid ?_ hsolid)
    (Nesting.nested_of_solid hsolid) ?_ ?_ hbase
  · rw [hcode]
    exact List.cons_ne_nil _ _
  · rw [hlast]
    exact fun h => hmark.1 (Option.some.inj h)
  · rw [hlast]
    exact fun h => hmark.2 (Option.some.inj h)

/-- A symbol with a modifier reads back if its body does. -/
theorem Symbol.ReadsBack.modified {body symbol : Symbol} (h : body.ReadsBack) {mark : Char}
    (hmark : Text.IsSolid mark) (hcode : symbol.code = body.code ++ [mark])
    (hread : Symbol.tree (body.code ++ [mark]) = symbol) (hmodified : ¬ symbol.IsBase) :
    symbol.ReadsBack where
  is_token := hcode ▸ h.is_token.append_mark h.nested.balanced hmark
  nested := hcode ▸ h.nested.append (Nesting.nested_of_solid (List.forall_mem_singleton.2 hmark))
  read := hcode ▸ hread
  base hbase := absurd hbase hmodified

/-! ## Definitions that read back -/

/-- A production of symbols that read back does so itself, and is written without a blank at its
ends and without a bar of depth zero. -/
theorem Production.reads_back {production : Production}
    (h : ∀ symbol ∈ production, symbol.ReadsBack) :
    Production.tree (Production.code production) = production ∧
      Nesting.Nested (Production.code production) ∧
      Text.Stripped (Production.code production) ∧
      Nesting.Unbroken (· == '|') 0 (Production.code production) := by
  have hcodes : ∀ code ∈ Production.codes production,
      Nesting.IsToken code ∧ Nesting.Nested code := by
    rw [Production.codes_eq_map]
    intro code hcode
    obtain ⟨symbol, hsymbol, rfl⟩ := List.mem_map.1 hcode
    exact ⟨(h symbol hsymbol).is_token, (h symbol hsymbol).nested⟩
  have hbalance : ∀ code ∈ (Production.codes production).dropLast, Nesting.balance code = 0 :=
    fun code hcode => (hcodes code ((List.dropLast_sublist _).subset hcode)).2.balanced
  refine ⟨?_, ?_, ?_, ?_⟩
  · rw [Production.code, Production.tree_intercalate (fun code hcode => (hcodes code hcode).1)
      hbalance, Production.codes_eq_map, List.map_map]
    exact (List.map_congr_left fun symbol hsymbol => (h symbol hsymbol).read).trans
      (List.map_id production)
  · exact Nesting.nested_intercalate Nesting.nested_blank fun code hcode => (hcodes code hcode).2
  · exact Text.stripped_intercalate [' '] fun code hcode =>
      ⟨(hcodes code hcode).1.ne_nil, (hcodes code hcode).1.stripped⟩
  · exact Nesting.unbroken_bar_intercalate (fun code hcode => (hcodes code hcode).1.unbroken_bar)
      hbalance

/-- A definition of symbols that read back does so itself. -/
theorem Definition.reads_back {definition : Definition} (hne : definition ≠ [])
    (h : ∀ production ∈ definition, ∀ symbol ∈ production, symbol.ReadsBack) :
    Definition.tree (Definition.code definition) = definition ∧
      Nesting.Nested (Definition.code definition) := by
  have hcodes : Definition.codes definition ≠ [] := by
    rw [Definition.codes_eq_map]
    exact mt List.map_eq_nil_iff.1 hne
  have hcode : ∀ code ∈ Definition.codes definition, Nesting.Nested code ∧
      Text.Stripped code ∧ Nesting.Unbroken (· == '|') 0 code := by
    rw [Definition.codes_eq_map]
    intro code hcode
    obtain ⟨production, hproduction, rfl⟩ := List.mem_map.1 hcode
    exact (Production.reads_back (h production hproduction)).2
  constructor
  · rw [Definition.code, Definition.tree_intercalate hcodes (fun code hmem => (hcode code hmem).2)
      fun code hmem => (hcode code ((List.dropLast_sublist _).subset hmem)).1.balanced,
      Definition.codes_eq_map, List.map_map]
    exact (List.map_congr_left fun production hproduction =>
      (Production.reads_back (h production hproduction)).1).trans (List.map_id definition)
  · exact Nesting.nested_intercalate (Nesting.nested_of_forall (by simp))
      fun code hmem => (hcode code hmem).1

/-- A group reads back if its symbols do. -/
theorem Symbol.reads_back_group {alternatives : Definition} (hne : alternatives ≠ [])
    (h : ∀ production ∈ alternatives, ∀ symbol ∈ production, symbol.ReadsBack) :
    (Symbol.group alternatives).ReadsBack := by
  obtain ⟨hread, hnested⟩ := Definition.reads_back hne h
  have hinside := hnested.between_blanks
  have hcode : (Symbol.group alternatives).code =
      '(' :: ([' '] ++ Definition.code alternatives ++ [' '] ++ [')']) := by
    rw [Symbol.code_group]
    simp
  have hlast : (Symbol.group alternatives).code.getLast? = some ')' := by
    rw [hcode, ← List.cons_append, List.getLast?_concat]
  refine Symbol.reads_back_of_base ?_ ?_ (by simp [hlast]) (by simp [hlast]) ?_
  · have htoken := hinside.is_token_enclose (List.forall_mem_nil _)
    rwa [List.append_nil, ← hcode] at htoken
  · rw [hcode]
    exact hinside.enclose
  · rw [hcode, Symbol.tree_base_group hinside, Definition.tree_between_blanks, hread]

/-- Every well-formed symbol reads back. -/
theorem Symbol.WellFormed.reads_back {symbol : Symbol} (h : symbol.WellFormed) :
    symbol.ReadsBack := by
  induction h with
  | @terminal literal h =>
      have hquote : '"' ∉ literal.toList := fun hmem => (h '"' hmem).1 rfl
      refine Symbol.reads_back_of_delimit rfl (by decide) (by decide) (fun c hc => (h c hc).2)
        (by decide) ?_
      rw [Symbol.tree_base_terminal hquote, String.ofList_toList]
  | @reference name h =>
      have hangle : '>' ∉ name.toList := fun hmem => (h '>' hmem).1 rfl
      refine Symbol.reads_back_of_delimit rfl (by decide) (by decide) (fun c hc => (h c hc).2)
        (by decide) ?_
      rw [Symbol.tree_base_reference hangle, String.ofList_toList]
  | @charClass pattern body hpattern h hset =>
      have hinside : ∀ c ∈ body, Text.IsSolid c := fun c hc => (h c hc).2
      have hinterior : Nesting.interior? (Text.delimit '[' ']' body) = none :=
        Nesting.interior_of_solid (Text.solid_delimit (by decide) (by decide) hinside)
      refine Symbol.reads_back_of_delimit hpattern (by decide) (by decide) hinside (by decide) ?_
      rw [hpattern] at hset
      have hfirst (opening closing : Char) (hopening : '[' ≠ opening) :
          Text.delimited? opening closing (Text.delimit '[' ']' body) = none :=
        Text.delimited_eq_none hopening _
      rw [Symbol.treeBase,
        Symbol.treeOfBase_of_none (hfirst _ _ (by decide)) (hfirst _ _ (by decide)) hinterior,
        if_pos hset, ← hpattern, String.ofList_toList]
  | @unknown code hne h hstar hquestion hterminal hreference hset =>
      have hquote : Text.delimited? '"' '"' code.toList = none := by
        rw [Option.eq_none_iff_forall_ne_some]
        intro literal hliteral
        obtain ⟨htext, hmem⟩ := Text.delimited?_eq_some_iff.1 hliteral
        exact hterminal literal hmem htext
      have hangle : Text.delimited? '<' '>' code.toList = none := by
        rw [Option.eq_none_iff_forall_ne_some]
        intro name hname
        obtain ⟨htext, hmem⟩ := Text.delimited?_eq_some_iff.1 hname
        exact hreference name hmem htext
      refine Symbol.reads_back_of_base (Nesting.is_token_of_solid ?_ h) (Nesting.nested_of_solid h)
        hstar hquestion ?_
      · exact fun hnil => hne (String.toList_eq_nil_iff.1 hnil)
      · rw [Symbol.code, Symbol.treeBase, Symbol.treeOfBase_of_none hquote hangle
          (Nesting.interior_of_solid h), hset, String.ofList_toList]
        rfl
  | group hne _ ih => exact Symbol.reads_back_group hne ih
  | @optional body hbase _ ih =>
      refine ih.modified (by decide) rfl ?_ id
      rw [Symbol.tree_question, ih.base hbase]
  | @repeated body hbase _ ih =>
      refine ih.modified (by decide) rfl ?_ id
      rw [Symbol.tree_star, ih.base hbase]

/-- The canonical text of a well-formed definition reads as that definition, unless one of its
unknown symbols names a code point that is too large, which is a fault. -/
theorem Definition.well_formed_reads_back {definition : Definition} (h : definition.WellFormed) :
    Definition.read (Definition.code definition) =
      if Definition.overflows definition then .error .codePointOverflow else .ok definition := by
  have htree : Definition.tree (Definition.code definition) = definition :=
    (Definition.reads_back h.ne_nil fun production hproduction symbol hsymbol =>
      (h.symbols production hproduction symbol hsymbol).reads_back).1
  rw [Definition.read_eq_checked, htree, checked]

end

/-- A definition with a repeated group, with empty productions inside of the group and outside, and
with a text that is no symbol although it begins and ends with a quote. -/
def Definition.assorted : Definition :=
  [[.optional (.terminal "turn"),
      .repeated (.group [[], [.reference "room", .charClass "[0-9]"], []])],
    [], [.unknown "\"a\"b\""]]

/-- The assorted definition is well formed, and its canonical text reads as it. -/
theorem Definition.well_formed_reads_back_assorted :
    Definition.assorted.WellFormed ∧
      Definition.read (Definition.code Definition.assorted) = .ok Definition.assorted := by
  have hgroup : (Symbol.group [[], [.reference "room", .charClass "[0-9]"], []]).WellFormed := by
    refine .group (List.cons_ne_nil _ _) ?_
    simp only [List.forall_mem_cons, List.not_mem_nil, false_imp_iff, implies_true, and_true,
      true_and]
    exact ⟨.reference (List.all_iff_forall_prop.1 (by decide)),
      .charClass (by decide : _ = Text.delimit '[' ']' ['0', '-', '9'])
        (List.all_iff_forall_prop.1 (by decide)) (by cbv)⟩
  have hunknown : (Symbol.unknown "\"a\"b\"").WellFormed := by
    refine .unknown (by decide) (List.all_iff_forall_prop.1 (by decide)) (by decide) (by decide)
      (fun literal hmem htext => ?_) (fun name hmem htext => ?_) (by cbv)
    · have hquote := Text.delimited?_eq_some_iff.2 ⟨htext, hmem⟩
      cases hquote
    · have hangle := Text.delimited?_eq_some_iff.2 ⟨htext, hmem⟩
      cases hangle
  have hwell : Definition.assorted.WellFormed := by
    refine ⟨List.cons_ne_nil _ _, ?_⟩
    simp only [Definition.assorted, List.forall_mem_cons, List.not_mem_nil, false_imp_iff,
      implies_true, and_true, true_and]
    exact ⟨⟨.optional trivial (.terminal (List.all_iff_forall_prop.1 (by decide))),
      .repeated trivial hgroup⟩, hunknown⟩
  have hread := Definition.well_formed_reads_back hwell
  rw [show Definition.overflows Definition.assorted = false by cbv] at hread
  exact ⟨hwell, hread⟩

/-- A bracketed text that denotes no set is well formed as an unknown symbol, but it cannot be read
back if it names a code point that is too large. -/
theorem Definition.well_formed_not_read_back :
    let definition : Definition := [[.unknown "[\\U80000000]"]]
    definition.WellFormed ∧
      Definition.read (Definition.code definition) = .error .codePointOverflow ∧
      ¬ ∀ definition : Definition, definition.WellFormed →
        Definition.read (Definition.code definition) = .ok definition := by
  have hunknown : (Symbol.unknown "[\\U80000000]").WellFormed := by
    refine .unknown (by decide) (List.all_iff_forall_prop.1 (by decide)) (by decide) (by decide)
      (fun literal hmem htext => ?_) (fun name hmem htext => ?_) (by cbv)
    · cases htext
    · cases htext
  have hwell : Definition.WellFormed [[.unknown "[\\U80000000]"]] :=
    ⟨List.cons_ne_nil _ _, by simpa using hunknown⟩
  have hread : Definition.read (Definition.code [[.unknown "[\\U80000000]"]]) =
      .error .codePointOverflow := by cbv
  refine ⟨hwell, hread, fun h => ?_⟩
  rw [h _ hwell] at hread
  cases hread

end Bnf
