import Bnf.Matching
import Bnf.Proofs.WellFormed
import Bnf.UnicodeData.Version14
import Mathlib

/-!
# What character sets denote

A bracketed set and the same set behind a caret are written well or badly together, and divide the
single characters between them. No token of another length is in either (`accepts_complement`).

What the text of a set denotes is said item by item. An `Item` is a character that stands for
itself, a range of two such characters, or a category. The reader goes from left to right and knows
of no items. It finds them because no item begins with a hyphen, so that a hyphen always joins the
two characters of one range (`members_atoms`). Hence a row of items is a set exactly if no range in
it is reversed, and the set has the characters of its items. `denotes_characters` says all this of
the symbols that bracketed texts are read as.
-/

namespace Bnf

section

variable [UnicodeData]

/-! ## Sets and their complements -/

namespace CharSet

/-- The set of the same members with a caret in front is the complement, as far as single characters
go. -/
theorem accepts_complement (members : List Member) (c : Char) :
    (CharSet.mk true members).accepts (String.singleton c) =
      !(CharSet.mk false members).accepts (String.singleton c) := by
  simp [accepts, contains]

/-- A set has no token that is shorter or longer than one character. -/
theorem accepts_of_length_ne {token : String} (h : token.length ≠ 1) (set : CharSet) :
    set.accepts token = false := by
  rw [accepts]
  split
  · rename_i c hc
    exact absurd (by rw [← String.length_toList, hc]; rfl) h
  · rfl

/-- A bracketed body without a caret in front is read as a set that is not negated. -/
theorem read_plain {body : List Char} (hclosing : ']' ∉ body) (hcaret : body.head? ≠ some '^') :
    read (Text.delimit '[' ']' body) = ofBody false body := by
  rw [read, Text.delimited?_eq_some_iff.2 ⟨rfl, hclosing⟩]
  split
  · rename_i hnone
    cases hnone
  · rename_i heq
    cases heq
    exact absurd rfl hcaret
  · rename_i heq
    cases heq
    rfl

/-- A bracketed body behind a caret is read as a negated set. -/
theorem read_negated {body : List Char} (hclosing : ']' ∉ body) :
    read (Text.delimit '[' ']' ('^' :: body)) = ofBody true body := by
  have hmem : ']' ∉ '^' :: body := by simpa using hclosing
  rw [read, Text.delimited?_eq_some_iff.2 ⟨rfl, hmem⟩]
  rfl

/-- A body is a set of the same members with a caret in front and without, or neither time. -/
theorem read_plain_and_negated {body : List Char} (hclosing : ']' ∉ body)
    (hcaret : body.head? ≠ some '^') :
    (∃ refusal, read (Text.delimit '[' ']' body) = .error refusal ∧
      read (Text.delimit '[' ']' ('^' :: body)) = .error refusal) ∨
    ∃ members, read (Text.delimit '[' ']' body) = .ok ⟨false, members⟩ ∧
      read (Text.delimit '[' ']' ('^' :: body)) = .ok ⟨true, members⟩ := by
  rw [read_plain hclosing hcaret, read_negated hclosing, ofBody, ofBody]
  by_cases hempty : body.isEmpty
  · rw [if_pos hempty, if_pos hempty]
    exact .inl ⟨_, rfl, rfl⟩
  · rw [if_neg hempty, if_neg hempty]
    rcases members? (atoms body).1 with _ | members <;> rcases (atoms body).2 with _ | refusal
    · exact .inl ⟨_, rfl, rfl⟩
    · exact .inl ⟨_, rfl, rfl⟩
    · exact .inr ⟨members, rfl, rfl⟩
    · exact .inl ⟨_, rfl, rfl⟩

/-! ## Items -/

/-- A character that stands for itself in a set, wherever it is written. A caret does so anywhere
but in front. -/
def IsPlain (c : Char) : Prop :=
  c ≠ ']' ∧ c ≠ '\\' ∧ c ≠ '-'

instance (c : Char) : Decidable (IsPlain c) :=
  inferInstanceAs (Decidable (_ ∧ _))

/-- What a set is written of: single characters, ranges and categories. -/
inductive Item where
  | single (c : Char) (h : IsPlain c)
  | range (low high : Char) (hlow : IsPlain low) (hhigh : IsPlain high)
  | category (kind : CharCategory) (complement : Bool)

namespace Item

/-- The letter that names a category, a capital one for the complement. -/
def letter : CharCategory → Bool → Char
  | .digit, false => 'd'
  | .digit, true => 'D'
  | .blank, false => 's'
  | .blank, true => 'S'
  | .word, false => 'w'
  | .word, true => 'W'

/-- How an item is written. -/
def text : Item → List Char
  | single c _ => [c]
  | range low high _ _ => [low, '-', high]
  | category kind complement => ['\\', letter kind complement]

/-- The characters of an item. -/
def Holds (c : Char) : Item → Prop
  | single d _ => c = d
  | range low high _ _ => low ≤ c ∧ c ≤ high
  | category kind complement => kind.contains c = !complement

/-- A range does not begin behind its end. -/
def Ordered : Item → Prop
  | range low high _ _ => low ≤ high
  | single _ _ | category _ _ => True

instance (item : Item) : Decidable item.Ordered :=
  match item with
  | range low high _ _ => inferInstanceAs (Decidable (low ≤ high))
  | single _ _ | category _ _ => inferInstanceAs (Decidable True)

/-- The atoms that an item is read as. -/
def atoms : Item → List Atom
  | single c _ => [.point c.toNat]
  | range low high _ _ => [.point low.toNat, .hyphen, .point high.toNat]
  | category kind complement => [.category kind complement]

/-- The member that the atoms of an item make up. -/
def member : Item → Member
  | single c _ => .span c.toNat c.toNat
  | range low high _ _ => .span low.toNat high.toNat
  | category kind complement => .category kind complement

/-- A member has the characters of its item. -/
theorem contains_member (item : Item) (c : Char) :
    item.member.contains c = true ↔ item.Holds c := by
  cases item with
  | single d h =>
      simp only [member, Member.contains, Holds, Bool.and_eq_true, decide_eq_true_eq,
        ← Char.toNat_inj]
      omega
  | range low high hlow hhigh =>
      simp only [member, Member.contains, Holds, Bool.and_eq_true, decide_eq_true_eq]
      exact Iff.rfl
  | category kind complement =>
      simp only [member, Member.contains, Holds]
      cases kind.contains c <;> cases complement <;> decide

omit [UnicodeData] in
/-- No item holds a closing bracket. -/
theorem closing_not_mem_text (item : Item) : ']' ∉ item.text := by
  cases item with
  | single c h => simpa [text] using h.1.symm
  | range low high hlow hhigh => simpa [text] using ⟨hlow.1.symm, hhigh.1.symm⟩
  | category kind complement => cases kind <;> cases complement <;> decide

end Item

/-! ## Reading items -/

/-- A plain character is an atom of its own. -/
theorem atoms_cons_plain {c : Char} (h : IsPlain c) (rest : List Char) :
    CharSet.atoms (c :: rest) = (CharSet.atoms rest).map (.point c.toNat :: ·) id := by
  rw [CharSet.atoms.eq_def]
  simp only [if_neg h.2.1, if_neg h.2.2]

/-- A hyphen is an atom of its own. -/
theorem atoms_cons_hyphen (rest : List Char) :
    CharSet.atoms ('-' :: rest) = (CharSet.atoms rest).map (.hyphen :: ·) id := by
  rw [CharSet.atoms.eq_def]
  rfl

/-- A backslash and the letter of a category are one atom. -/
theorem atoms_cons_category (kind : CharCategory) (complement : Bool) (rest : List Char) :
    CharSet.atoms ('\\' :: Item.letter kind complement :: rest) =
      (CharSet.atoms rest).map (.category kind complement :: ·) id := by
  have hescape : escape (Item.letter kind complement) rest =
      .ok (.category kind complement, rest) := by
    cases kind <;> cases complement <;> rfl
  rw [CharSet.atoms, if_pos rfl]
  split
  · rename_i hrefused
    rw [hescape] at hrefused
    cases hrefused
  · rename_i atom after hread
    rw [hescape] at hread
    cases hread
    rfl

/-- An item in front of a text is read as its atoms. -/
theorem atoms_text_append (item : Item) (rest : List Char) :
    CharSet.atoms (item.text ++ rest) = (CharSet.atoms rest).map (item.atoms ++ ·) id := by
  cases item with
  | single c h => exact atoms_cons_plain h rest
  | range low high hlow hhigh =>
      simp only [Item.text, Item.atoms, List.cons_append, List.nil_append, atoms_cons_plain hlow,
        atoms_cons_hyphen, atoms_cons_plain hhigh, Prod.map_map]
      rfl
  | category kind complement => exact atoms_cons_category kind complement rest

/-- The atoms of items are those of each of them. -/
theorem atoms_texts (items : List Item) :
    CharSet.atoms (items.flatMap Item.text) = (items.flatMap Item.atoms, none) := by
  induction items with
  | nil => rw [List.flatMap_nil, CharSet.atoms, List.flatMap_nil]
  | cons item rest ih =>
      rw [List.flatMap_cons, atoms_text_append, ih, List.flatMap_cons]
      rfl

omit [UnicodeData] in
/-- No item begins with a hyphen. -/
theorem head_atoms_ne (items : List Item) :
    (items.flatMap Item.atoms).head? ≠ some .hyphen := by
  cases items with
  | nil => simp
  | cons item rest => cases item <;> simp [Item.atoms]

omit [UnicodeData] in
/-- An atom that no hyphen follows is a member by itself. -/
theorem members_cons {atom : Atom} {rest : List Atom} (h : rest.head? ≠ some .hyphen) :
    members? (atom :: rest) = (members? rest).map (atom.member :: ·) := by
  rw [members?]
  rintro high more rfl
  exact h rfl

omit [UnicodeData] in
/-- The atoms of an item make up its member, unless the item is a reversed range. -/
theorem members_atoms_append (item : Item) {rest : List Atom} (h : rest.head? ≠ some .hyphen) :
    members? (item.atoms ++ rest) =
      if item.Ordered then (members? rest).map (item.member :: ·) else none := by
  cases item with
  | single c _ => exact members_cons h
  | range low high _ _ => rfl
  | category kind complement => exact members_cons h

omit [UnicodeData] in
/-- The atoms of items make up their members, unless one of them is a reversed range. -/
theorem members_atoms (items : List Item) :
    members? (items.flatMap Item.atoms) =
      if ∀ item ∈ items, item.Ordered then some (items.map Item.member) else none := by
  induction items with
  | nil => simp [members?]
  | cons item rest ih =>
      rw [List.flatMap_cons, members_atoms_append item (head_atoms_ne rest), ih]
      by_cases hitem : item.Ordered
      · by_cases hrest : ∀ other ∈ rest, other.Ordered <;> simp [hitem, hrest]
      · simp [hitem]

/-- Items between brackets are a set exactly if no range is reversed. -/
theorem read_items {items : List Item} (hne : items ≠ [])
    (hcaret : (items.flatMap Item.text).head? ≠ some '^') :
    read (Text.delimit '[' ']' (items.flatMap Item.text)) =
      if ∀ item ∈ items, item.Ordered then .ok ⟨false, items.map Item.member⟩
      else .error .malformed := by
  have hclosing : ']' ∉ items.flatMap Item.text := by
    intro hmem
    obtain ⟨item, -, hitem⟩ := List.mem_flatMap.1 hmem
    exact item.closing_not_mem_text hitem
  have hbody : (items.flatMap Item.text).isEmpty = false := by
    obtain ⟨item, rest, rfl⟩ := List.exists_cons_of_ne_nil hne
    cases item <;> rfl
  rw [read_plain hclosing hcaret, ofBody, hbody, atoms_texts, members_atoms,
    if_neg Bool.false_ne_true]
  by_cases hordered : ∀ item ∈ items, item.Ordered
  · rw [if_pos hordered, if_pos hordered]
  · rw [if_neg hordered, if_neg hordered]

/-- A set of items has the characters of the items. -/
theorem accepts_items (items : List Item) (c : Char) :
    (CharSet.mk false (items.map Item.member)).accepts (String.singleton c) = true ↔
      ∃ item ∈ items, item.Holds c := by
  simp [accepts, contains, Item.contains_member]

end CharSet

/-! ## Bracketed symbols -/

omit [UnicodeData] in
/-- A text that begins with another mark is not enclosed by parentheses. -/
theorem Nesting.interior_of_head {first : Char} (h : first ≠ '(') (rest : List Char) :
    interior? (first :: rest) = none := by
  rw [interior?, if_neg fun hfirst => h hfirst.1]

/-- A bracketed token without a modifier is read as a set or not at all. -/
theorem Symbol.read_bracketed (body : List Char) :
    Symbol.read (Text.delimit '[' ']' body) = Symbol.ofBracketed (Text.delimit '[' ']' body) := by
  have hlast : (Text.delimit '[' ']' body).getLast? = some ']' :=
    List.getLast?_concat (l := '[' :: body)
  have htree : Symbol.tree (Text.delimit '[' ']' body) =
      if (CharSet.read? (Text.delimit '[' ']' body)).isSome then
        .charClass (String.ofList (Text.delimit '[' ']' body))
      else .unknown (String.ofList (Text.delimit '[' ']' body)) :=
    (Symbol.tree_of_last (by simp [hlast]) (by simp [hlast])).trans
      (Symbol.treeOfBase_of_none (Text.delimited_eq_none (by decide) _)
        (Text.delimited_eq_none (by decide) _) (Nesting.interior_of_head (by decide) _) _)
  rw [Symbol.read_eq_checked, Symbol.ofBracketed_eq_checked, htree]
  split <;> rfl

/-- A bracketed token has itself as its pattern if it is a set. -/
theorem Symbol.read_bracketed_eq_charClass_iff {body : List Char} {pattern : String} :
    Symbol.read (Text.delimit '[' ']' body) = .ok (.charClass pattern) ↔
      (∃ set, CharSet.read (Text.delimit '[' ']' body) = .ok set) ∧
        pattern = String.ofList (Text.delimit '[' ']' body) := by
  rw [Symbol.read_bracketed, Symbol.ofBracketed]
  rcases CharSet.read (Text.delimit '[' ']' body) with (_ | _) | set <;> simp [eq_comm]

/-- A bracketed token is read as a set exactly if it is one. -/
theorem Symbol.exists_charClass_iff {body : List Char} :
    (∃ pattern, Symbol.read (Text.delimit '[' ']' body) = .ok (.charClass pattern)) ↔
      ∃ set, CharSet.read (Text.delimit '[' ']' body) = .ok set := by
  simp [Symbol.read_bracketed_eq_charClass_iff]

/-- The pattern of a token accepts what is in the set of the token. -/
theorem Matching.pattern_accepts_eq {body : List Char} {pattern : String} {set : CharSet}
    (hpattern : Symbol.read (Text.delimit '[' ']' body) = .ok (.charClass pattern))
    (hset : CharSet.read (Text.delimit '[' ']' body) = .ok set) (token : String) :
    Matching.patternAccepts pattern token = set.accepts token := by
  rw [(Symbol.read_bracketed_eq_charClass_iff.1 hpattern).2, Matching.patternAccepts,
    String.toList_ofList, CharSet.read?, hset]
  rfl

/-- Between brackets and not behind a caret, a body is a set exactly if it is one behind a caret.
Neither of the two has a token that is shorter or longer than one character, and every single
character is in exactly one of them. A body that is written item by item is a set exactly if none
of its ranges is reversed, and is not read at all otherwise. The set has the characters of the items
and no others. -/
theorem CharSet.denotes_characters :
    (∀ body : List Char, ']' ∉ body → body.head? ≠ some '^' →
      let plain := Text.delimit '[' ']' body
      let negated := Text.delimit '[' ']' ('^' :: body)
      ((∃ pattern, Symbol.read plain = .ok (.charClass pattern)) ↔
        ∃ pattern, Symbol.read negated = .ok (.charClass pattern)) ∧
      ∀ pattern opposite, Symbol.read plain = .ok (.charClass pattern) →
        Symbol.read negated = .ok (.charClass opposite) →
        (∀ token : String, token.length ≠ 1 →
          Matching.patternAccepts pattern token = false ∧
            Matching.patternAccepts opposite token = false) ∧
        ∀ c : Char, Matching.patternAccepts opposite (String.singleton c) =
          !Matching.patternAccepts pattern (String.singleton c)) ∧
    ∀ items : List CharSet.Item, items ≠ [] →
      (items.flatMap CharSet.Item.text).head? ≠ some '^' →
      let token := Text.delimit '[' ']' (items.flatMap CharSet.Item.text)
      ((∃ pattern, Symbol.read token = .ok (.charClass pattern)) ↔ ∀ item ∈ items, item.Ordered) ∧
      ((∃ item ∈ items, ¬ item.Ordered) →
        Symbol.read token = .ok (.unknown (String.ofList token))) ∧
      ∀ pattern, Symbol.read token = .ok (.charClass pattern) → ∀ c : Char,
        Matching.patternAccepts pattern (String.singleton c) = true ↔
          ∃ item ∈ items, item.Holds c := by
  constructor
  · intro body hclosing hcaret plain negated
    rcases CharSet.read_plain_and_negated hclosing hcaret with
      ⟨refusal, hplain, hnegated⟩ | ⟨members, hplain, hnegated⟩
    · refine ⟨?_, fun pattern _ hpattern => ?_⟩
      · rw [Symbol.exists_charClass_iff, Symbol.exists_charClass_iff, hplain, hnegated]
      · obtain ⟨set, hset⟩ := (Symbol.read_bracketed_eq_charClass_iff.1 hpattern).1
        rw [hplain] at hset
        cases hset
    · refine ⟨?_, fun pattern opposite hpattern hopposite => ?_⟩
      · rw [Symbol.exists_charClass_iff, Symbol.exists_charClass_iff, hplain, hnegated]
        simp
      · have haccepts := Matching.pattern_accepts_eq hpattern hplain
        have hrefuses := Matching.pattern_accepts_eq hopposite hnegated
        refine ⟨fun token hlength => ?_, fun c => ?_⟩
        · rw [haccepts, hrefuses]
          exact ⟨accepts_of_length_ne hlength _, accepts_of_length_ne hlength _⟩
        · rw [haccepts, hrefuses, accepts_complement]
  · intro items hne hcaret token
    have hread : CharSet.read token = _ := read_items hne hcaret
    have hset : (∃ set, CharSet.read token = .ok set) ↔ ∀ item ∈ items, item.Ordered := by
      rw [hread]
      split <;> simp_all
    refine ⟨Symbol.exists_charClass_iff.trans hset, fun ⟨item, hitem, hreversed⟩ => ?_,
      fun pattern hpattern c => ?_⟩
    · rw [if_neg fun hordered => hreversed (hordered item hitem)] at hread
      exact (Symbol.read_bracketed _).trans (by rw [Symbol.ofBracketed, hread])
    · have hordered := hset.1 (Symbol.read_bracketed_eq_charClass_iff.1 hpattern).1
      rw [if_pos hordered] at hread
      rw [Matching.pattern_accepts_eq hpattern hread, accepts_items]

end

/-- A set whose escape, category and hyphens stand where they could be taken for something else, and
two sets of items, one of them with a reversed range. -/
theorem CharSet.denotes_characters_escaped :
    let body := ['-', '\\', 'x', '4', '1', '-', 'C', '\\', 'D', '-']
    let word := [Item.range 'a' 'f' (by decide) (by decide), .category .digit false,
      .single '^' (by decide)]
    let reversed := [Item.single 'x' (by decide), .range '9' '0' (by decide) (by decide)]
    Symbol.read (Text.delimit '[' ']' body) = .ok (.charClass "[-\\x41-C\\D-]") ∧
      Symbol.read (Text.delimit '[' ']' ('^' :: body)) = .ok (.charClass "[^-\\x41-C\\D-]") ∧
      Matching.patternAccepts "[^-\\x41-C\\D-]" "5" =
        !Matching.patternAccepts "[-\\x41-C\\D-]" "5" ∧
      Matching.patternAccepts "[-\\x41-C\\D-]" "AB" = false ∧
    Symbol.read (Text.delimit '[' ']' (word.flatMap Item.text)) = .ok (.charClass "[a-f\\d^]") ∧
      (Matching.patternAccepts "[a-f\\d^]" "e" = true ↔ ∃ item ∈ word, item.Holds 'e') ∧
    Symbol.read (Text.delimit '[' ']' (reversed.flatMap Item.text)) = .ok (.unknown "[x9-0]") := by
  intro body word reversed
  obtain ⟨hcomplements, hitems⟩ := CharSet.denotes_characters
  have hplain : Symbol.read (Text.delimit '[' ']' body) =
      .ok (.charClass "[-\\x41-C\\D-]") := by cbv
  have hnegated : Symbol.read (Text.delimit '[' ']' ('^' :: body)) =
      .ok (.charClass "[^-\\x41-C\\D-]") := by cbv
  have hword : Symbol.read (Text.delimit '[' ']' (word.flatMap Item.text)) =
      .ok (.charClass "[a-f\\d^]") := by cbv
  obtain ⟨hlength, hsingle⟩ :=
    (hcomplements body (by decide) (by decide)).2 _ _ hplain hnegated
  exact ⟨hplain, hnegated, hsingle '5', (hlength "AB" (by decide)).1, hword,
    (hitems word (by decide) (by decide)).2.2 _ hword 'e',
    (hitems reversed (by decide) (by decide)).2.1 ⟨_, List.mem_of_mem_getLast? rfl, by decide⟩⟩

end Bnf
