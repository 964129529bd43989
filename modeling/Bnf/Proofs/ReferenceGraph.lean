import Bnf.Grammar.Cycle
import Mathlib.Logic.Relation

/-!
# The graph of references

A defined rule refers to the names in its definition, and a name is recursive if its references lead
back to it. `explore` is the search for a cycle that remembers nothing but the path it has come: it
follows all references in order and meets a shared rule as often as it is referred to.
`explore_eq_none_iff` says that it finds nothing exactly if no recursive name and no name on the
path can be reached.

`search` differs from it by remembering the names that were searched without success. That this
changes nothing is `search_agrees`: as long as what is remembered is free of recursion, a search
finds the very cycle that the exploration finds first, or remembers more names of that kind.
-/

namespace Bnf.Grammar

/-- A defined rule refers to a name. -/
def Refers (grammar : Grammar) (name reference : String) : Prop :=
  ∃ definition, grammar.definition? name = some definition ∧
    reference ∈ Definition.references definition

/-- A name leads to another one along references, or is that name. -/
abbrev Reaches (grammar : Grammar) : String → String → Prop :=
  Relation.ReflTransGen grammar.Refers

/-- The references of a name lead back to it. -/
def Recursive (grammar : Grammar) (name : String) : Prop :=
  Relation.TransGen grammar.Refers name name

/-- No recursive name can be reached from a name. -/
def FreeOfRecursion (grammar : Grammar) (name : String) : Prop :=
  ∀ other, grammar.Reaches name other → ¬ grammar.Recursive other

variable {grammar : Grammar}

/-- A name has no definition exactly if it is not defined. -/
theorem definition_eq_none_iff {name : String} :
    grammar.definition? name = none ↔ grammar.defines name = false := by
  simp [defines]

theorem defines_of_definition {name : String} {definition : Definition}
    (h : grammar.definition? name = some definition) : grammar.defines name = true := by
  rw [defines, h]
  rfl

/-- What the definition of a name refers to, the name refers to. -/
theorem refers_of_definition {name reference : String} {definition : Definition}
    (hdefinition : grammar.definition? name = some definition)
    (hmem : reference ∈ Definition.references definition) : grammar.Refers name reference :=
  ⟨definition, hdefinition, hmem⟩

/-- What refers to a name is defined. -/
theorem Refers.defines {name reference : String} (h : grammar.Refers name reference) :
    grammar.defines name = true := by
  obtain ⟨definition, hdefinition, -⟩ := h
  exact defines_of_definition hdefinition

/-- What a name refers to is free of recursion if the name is. -/
theorem FreeOfRecursion.refers {name reference : String} (h : grammar.FreeOfRecursion name)
    (hrefers : grammar.Refers name reference) : grammar.FreeOfRecursion reference :=
  fun other hreaches => h other (.head hrefers hreaches)

/-- What is free of recursion stays so in a grammar whose references are ways along references. -/
theorem FreeOfRecursion.of_leads {other : Grammar} {name : String}
    (h : grammar.FreeOfRecursion name)
    (hleads : ∀ {first second}, other.Refers first second →
      Relation.TransGen grammar.Refers first second) : other.FreeOfRecursion name := by
  intro reached hreaches hrecursive
  have hreached : grammar.Reaches name reached :=
    Relation.reflTransGen_closed (fun _ _ hrefers => (hleads hrefers).to_reflTransGen) _ _ hreaches
  have hcycle : grammar.Recursive reached :=
    Relation.TransGen.closed (fun _ _ hrefers => hleads hrefers) _ _ hrecursive
  exact h reached hreached hcycle

/-- A name without a definition refers to nothing. -/
theorem not_refers_of_undefined {name : String} (h : grammar.definition? name = none)
    (reference : String) : ¬ grammar.Refers name reference := by
  rintro ⟨definition, hdefinition, -⟩
  rw [h] at hdefinition
  cases hdefinition

/-- A name without a definition is free of recursion. -/
theorem free_of_undefined {name : String} (h : grammar.definition? name = none) :
    grammar.FreeOfRecursion name := by
  intro other hreaches hrecursive
  rcases Relation.ReflTransGen.cases_head hreaches with rfl | ⟨reference, hrefers, -⟩
  · obtain ⟨reference, hrefers, -⟩ := Relation.TransGen.head'_iff.1 hrecursive
    exact not_refers_of_undefined h reference hrefers
  · exact not_refers_of_undefined h reference hrefers

/-- A name is free of recursion if all that it refers to is, and none of it leads back. -/
theorem free_of_references {name : String}
    (h : ∀ reference, grammar.Refers name reference →
      grammar.FreeOfRecursion reference ∧ ¬ grammar.Reaches reference name) :
    grammar.FreeOfRecursion name := by
  intro other hreaches hrecursive
  rcases Relation.ReflTransGen.cases_head hreaches with rfl | ⟨reference, hrefers, hrest⟩
  · obtain ⟨reference, hrefers, hback⟩ := Relation.TransGen.head'_iff.1 hrecursive
    exact (h reference hrefers).2 hback
  · exact (h reference hrefers).1 other hrest hrecursive

/-! ## Exhaustive search -/

/-- The first cycle that is met when all references are followed, depth first and in order, from a
name to which this path has led. -/
def explore (grammar : Grammar) (path : List String) (name : String) : Option (List String) :=
  if hpath : name ∈ path then some (path.dropWhile (· ≠ name) ++ [name])
  else match hdefinition : grammar.definition? name with
    | none => none
    | some definition =>
      (Definition.references definition).findSome? fun reference =>
        have := countOff_append_lt hdefinition hpath
        grammar.explore (path ++ [name]) reference
termination_by grammar.countOff path

/-- A name on the path closes a cycle. -/
theorem explore_of_mem {path : List String} {name : String} (h : name ∈ path) :
    grammar.explore path name = some (path.dropWhile (· ≠ name) ++ [name]) := by
  rw [explore, dif_pos h]

/-- A name without a definition leads nowhere. -/
theorem explore_of_undefined {path : List String} {name : String} (hpath : name ∉ path)
    (hnone : grammar.definition? name = none) : grammar.explore path name = none := by
  rw [explore, dif_neg hpath]
  split
  · rfl
  · rename_i definition hdefinition
    rw [hnone] at hdefinition
    cases hdefinition

/-- A rule is explored reference by reference. -/
theorem explore_of_defined {path : List String} {name : String} {definition : Definition}
    (hpath : name ∉ path) (hdefinition : grammar.definition? name = some definition) :
    grammar.explore path name =
      (Definition.references definition).findSome? fun reference =>
        grammar.explore (path ++ [name]) reference := by
  rw [explore, dif_neg hpath]
  split
  · rename_i hnone
    rw [hdefinition] at hnone
    cases hnone
  · rename_i other hother
    rw [hdefinition] at hother
    cases hother
    rfl

/-- Exploring finds nothing exactly if no recursive name and no name on the path can be reached. -/
theorem explore_eq_none_iff (path : List String) (name : String) :
    grammar.explore path name = none ↔
      ∀ other, grammar.Reaches name other → other ∉ path ∧ ¬ grammar.Recursive other := by
  by_cases hpath : name ∈ path
  · rw [explore_of_mem hpath]
    constructor
    · intro h
      cases h
    · intro h
      exact absurd hpath (h name .refl).1
  · cases hdefinition : grammar.definition? name with
    | none =>
        rw [explore_of_undefined hpath hdefinition]
        refine ⟨fun _ other hreaches => ⟨?_, free_of_undefined hdefinition other hreaches⟩,
          fun _ => rfl⟩
        rcases Relation.ReflTransGen.cases_head hreaches with rfl | ⟨reference, hrefers, -⟩
        · exact hpath
        · exact absurd hrefers (not_refers_of_undefined hdefinition reference)
    | some definition =>
        have hless := countOff_append_lt hdefinition hpath
        rw [explore_of_defined hpath hdefinition, List.findSome?_eq_none_iff]
        constructor
        · -- What is reached from `name` is `name` itself or reached from one of its references.
          intro h
          have hreference : ∀ reference, grammar.Refers name reference → ∀ other,
              grammar.Reaches reference other →
                other ∉ path ++ [name] ∧ ¬ grammar.Recursive other := by
            rintro reference ⟨found, hfound, hmem⟩
            rw [hdefinition] at hfound
            cases hfound
            exact (explore_eq_none_iff (path ++ [name]) reference).1 (h reference hmem)
          have hfree : grammar.FreeOfRecursion name := free_of_references fun reference hrefers =>
            ⟨fun other hreaches => (hreference reference hrefers other hreaches).2,
              fun hback => (hreference reference hrefers name hback).1 (by simp)⟩
          intro other hreaches
          refine ⟨?_, hfree other hreaches⟩
          rcases Relation.ReflTransGen.cases_head hreaches with rfl | ⟨reference, hrefers, hrest⟩
          · exact hpath
          · have hother := (hreference reference hrefers other hrest).1
            rw [List.mem_append, not_or] at hother
            exact hother.1
        · -- A way from a reference back to `name` would make `name` recursive.
          intro h reference hmem
          have hrefers : grammar.Refers name reference := ⟨definition, hdefinition, hmem⟩
          rw [explore_eq_none_iff (path ++ [name]) reference]
          intro other hreaches
          obtain ⟨hother, hfree⟩ := h other (.head hrefers hreaches)
          refine ⟨?_, hfree⟩
          rw [List.mem_append, List.mem_singleton, not_or]
          refine ⟨hother, ?_⟩
          rintro rfl
          exact hfree (.head' hrefers hreaches)
termination_by grammar.countOff path

/-- From a name without a path behind it, exploring finds nothing exactly if the name is free of
recursion. -/
theorem explore_nil_eq_none_iff (name : String) :
    grammar.explore [] name = none ↔ grammar.FreeOfRecursion name := by
  rw [explore_eq_none_iff]
  exact ⟨fun h other hreaches => (h other hreaches).2,
    fun h other hreaches => ⟨List.not_mem_nil, h other hreaches⟩⟩

/-- Of a grammar, exploring knows the rules only, and not their order. -/
theorem explore_congr {other : Grammar} (h : grammar.definition? = other.definition?)
    (path : List String) (name : String) :
    grammar.explore path name = other.explore path name := by
  have hsame : grammar.definition? name = other.definition? name := by rw [h]
  by_cases hpath : name ∈ path
  · rw [explore_of_mem hpath, explore_of_mem hpath]
  · cases hdefinition : grammar.definition? name with
    | none =>
        rw [explore_of_undefined hpath hdefinition,
          explore_of_undefined hpath (hsame ▸ hdefinition)]
    | some definition =>
        have hless := countOff_append_lt hdefinition hpath
        rw [explore_of_defined hpath hdefinition, explore_of_defined hpath (hsame ▸ hdefinition)]
        congr 1
        funext reference
        exact explore_congr h (path ++ [name]) reference
termination_by grammar.countOff path

/-! ## Search with a memory -/

/-- What a memory of searched names has to be: the names are defined and free of recursion, and with
a name all that it refers to is remembered, unless it is not defined. -/
structure Knows (grammar : Grammar) (names : List String) : Prop where
  defined : ∀ name ∈ names, grammar.defines name = true
  free : ∀ name ∈ names, grammar.FreeOfRecursion name
  closed : ∀ name ∈ names, ∀ reference, grammar.Refers name reference →
    reference ∈ names ∨ grammar.defines reference = false

theorem knows_nil : grammar.Knows [] := by
  constructor <;> simp

/-- What can be remembered is a matter of the rules only. -/
theorem Knows.congr {other : Grammar} (hrules : grammar.definition? = other.definition?)
    {names : List String} (h : grammar.Knows names) : other.Knows names := by
  have hrefers : grammar.Refers = other.Refers := by
    unfold Refers
    rw [hrules]
  constructor
  · intro name hname
    rw [defines, ← hrules]
    exact h.defined name hname
  · intro name hname target hreaches
    rw [Recursive, ← hrefers]
    rw [Reaches, ← hrefers] at hreaches
    exact h.free name hname target hreaches
  · intro name hname reference hreference
    rw [defines, ← hrules]
    exact h.closed name hname reference (hrefers ▸ hreference)

/-- The texts of the definitions do not matter, only what they read as. -/
theorem Knows.with_definitions {names : List String} (h : grammar.Knows names)
    (definitions : Dict String) : { grammar with definitions }.Knows names := by
  have hrules : grammar.definition? = { grammar with definitions }.definition? := rfl
  exact h.congr hrules

/-- A defined name whose references are all known, or not defined, can be remembered. -/
theorem Knows.cons {names : List String} {name : String} {definition : Definition}
    (h : grammar.Knows names)
    (hdefinition : grammar.definition? name = some definition)
    (hreferences : ∀ reference ∈ Definition.references definition,
      reference ∈ names ∨ grammar.defines reference = false) : grammar.Knows (name :: names) := by
  have hrefers : ∀ reference, grammar.Refers name reference →
      reference ∈ names ∨ grammar.defines reference = false := by
    rintro reference ⟨found, hfound, hmem⟩
    rw [hdefinition] at hfound
    cases hfound
    exact hreferences reference hmem
  have hdefined : grammar.defines name = true := defines_of_definition hdefinition
  have hfree : grammar.FreeOfRecursion name := by
    refine free_of_references fun reference hreference => ?_
    rcases hrefers reference hreference with hmem | hundefined
    · -- If a known reference led back to `name`, it would lead to itself by way of `name`.
      refine ⟨h.free reference hmem, fun hback => ?_⟩
      exact h.free reference hmem name hback (.head' hreference hback)
    · have hnone : grammar.definition? reference = none := definition_eq_none_iff.2 hundefined
      refine ⟨free_of_undefined hnone, fun hback => ?_⟩
      rcases Relation.ReflTransGen.cases_head hback with rfl | ⟨next, hnext, -⟩
      · rw [hdefined] at hundefined
        cases hundefined
      · exact not_refers_of_undefined hnone next hnext
  constructor
  · exact List.forall_mem_cons.2 ⟨hdefined, h.defined⟩
  · exact List.forall_mem_cons.2 ⟨hfree, h.free⟩
  · intro other hother reference hreference
    rcases List.mem_cons.1 hother with rfl | hother
    · exact (hrefers reference hreference).imp_left (List.mem_cons_of_mem other)
    · exact (h.closed other hother reference hreference).imp_left (List.mem_cons_of_mem name)

/-- A search from some names agrees with what exploring them finds: it ends with the same cycle, or
with a memory that has grown by these names. -/
def Agrees (grammar : Grammar) (known : List String) (found : Option (List String))
    (names : List String) : Except (List String) (List String) → Prop
  | .error cycle => found = some cycle
  | .ok after => found = none ∧ grammar.Knows after ∧ known ⊆ after ∧
      ∀ name ∈ names, name ∈ after ∨ grammar.defines name = false

/-- A name on the path closes a cycle. -/
theorem search_of_mem {path : List String} {name : String} (h : name ∈ path)
    (known : List String) :
    grammar.search path known name = .error (path.dropWhile (· ≠ name) ++ [name]) := by
  rw [search, dif_pos h]

/-- A name that is known is not searched again. -/
theorem search_of_known {path known : List String} {name : String} (hpath : name ∉ path)
    (hknown : name ∈ known) : grammar.search path known name = .ok known := by
  rw [search, dif_neg hpath, if_pos hknown]

/-- A name without a definition leads nowhere, and is not remembered. -/
theorem search_of_undefined {path known : List String} {name : String} (hpath : name ∉ path)
    (hknown : name ∉ known) (hnone : grammar.definition? name = none) :
    grammar.search path known name = .ok known := by
  rw [search, dif_neg hpath, if_neg hknown]
  split
  · rfl
  · rename_i definition hdefinition
    rw [hnone] at hdefinition
    cases hdefinition

/-- A rule is searched reference by reference, and is remembered if nothing was found. -/
theorem search_of_defined {path known : List String} {name : String} {definition : Definition}
    (hpath : name ∉ path) (hknown : name ∉ known)
    (hdefinition : grammar.definition? name = some definition) :
    grammar.search path known name = (do
      return name ::
        (← (Definition.references definition).foldlM (grammar.search (path ++ [name])) known)) := by
  rw [search, dif_neg hpath, if_neg hknown]
  split
  · rename_i hnone
    rw [hdefinition] at hnone
    cases hnone
  · rename_i other hother
    rw [hdefinition] at hother
    cases hother
    rfl

/-- Searching names one after the other agrees with exploring them if each search does. -/
theorem fold_agrees {path : List String} {names : List String}
    (hsearch : ∀ name ∈ names, ∀ known, grammar.Knows known →
      grammar.Agrees known (grammar.explore path name) [name] (grammar.search path known name))
    {known : List String} (hknown : grammar.Knows known) :
    grammar.Agrees known (names.findSome? (grammar.explore path)) names
      (names.foldlM (grammar.search path) known) := by
  induction names generalizing known with
  | nil => exact ⟨rfl, hknown, List.Subset.refl known, List.forall_mem_nil _⟩
  | cons name rest ih =>
      have hfirst := hsearch name List.mem_cons_self known hknown
      rw [List.foldlM_cons]
      cases hrun : grammar.search path known name with
      | error cycle =>
          rw [hrun] at hfirst
          have hfound : grammar.explore path name = some cycle := hfirst
          change (name :: rest).findSome? (grammar.explore path) = some cycle
          rw [List.findSome?_cons, hfound]
      | ok after =>
          rw [hrun] at hfirst
          obtain ⟨hnone, hafter, hgrown, hname⟩ := hfirst
          have hrest := ih (fun other hother => hsearch other (List.mem_cons_of_mem name hother))
            hafter
          have hfound : (name :: rest).findSome? (grammar.explore path) =
              rest.findSome? (grammar.explore path) := by
            rw [List.findSome?_cons, hnone]
          rw [hfound]
          change grammar.Agrees known _ _ (rest.foldlM (grammar.search path) after)
          cases hmore : rest.foldlM (grammar.search path) after with
          | error cycle =>
              rw [hmore] at hrest
              exact hrest
          | ok last =>
              rw [hmore] at hrest
              obtain ⟨hnone, hlast, hsubset, hnames⟩ := hrest
              have hname := (hname name List.mem_cons_self).imp_left fun hmem => hsubset hmem
              exact ⟨hnone, hlast, List.Subset.trans hgrown hsubset,
                List.forall_mem_cons.2 ⟨hname, hnames⟩⟩

/-- A search finds the cycle that exploring finds first, or extends its memory, if the names on its
path lead to the name it has come to. -/
theorem search_agrees {path known : List String} {name : String} (hknown : grammar.Knows known)
    (hpath : ∀ step ∈ path, Relation.TransGen grammar.Refers step name) :
    grammar.Agrees known (grammar.explore path name) [name] (grammar.search path known name) := by
  by_cases hmem : name ∈ path
  · rw [search_of_mem hmem, explore_of_mem hmem]
    rfl
  · by_cases hknows : name ∈ known
    · rw [search_of_known hmem hknows]
      -- A known name leads to no name on the path, since each of those leads to the known name.
      have hnone : grammar.explore path name = none := by
        rw [explore_eq_none_iff]
        intro other hreaches
        refine ⟨fun hother => ?_, hknown.free name hknows other hreaches⟩
        exact hknown.free name hknows other hreaches
          (Relation.TransGen.trans_left (hpath other hother) hreaches)
      exact ⟨hnone, hknown, List.Subset.refl known, by simp [hknows]⟩
    · cases hdefinition : grammar.definition? name with
      | none =>
          rw [search_of_undefined hmem hknows hdefinition, explore_of_undefined hmem hdefinition]
          exact ⟨rfl, hknown, List.Subset.refl known, by simp [defines, hdefinition]⟩
      | some definition =>
          have hless := countOff_append_lt hdefinition hmem
          have hreferences : ∀ reference ∈ Definition.references definition,
              ∀ known, grammar.Knows known →
                grammar.Agrees known (grammar.explore (path ++ [name]) reference) [reference]
                  (grammar.search (path ++ [name]) known reference) := by
            intro reference hreference known hknown
            have hrefers : grammar.Refers name reference := ⟨definition, hdefinition, hreference⟩
            refine search_agrees hknown fun step hstep => ?_
            rcases List.mem_append.1 hstep with hstep | hstep
            · exact (hpath step hstep).tail hrefers
            · rw [List.mem_singleton.1 hstep]
              exact .single hrefers
          have hfold := fold_agrees hreferences hknown
          rw [search_of_defined hmem hknows hdefinition, explore_of_defined hmem hdefinition]
          cases hrun : (Definition.references definition).foldlM
              (grammar.search (path ++ [name])) known with
          | error cycle =>
              rw [hrun] at hfold
              exact hfold
          | ok after =>
              rw [hrun] at hfold
              obtain ⟨hnone, hafter, hgrown, hnames⟩ := hfold
              exact ⟨hnone, hafter.cons hdefinition hnames,
                fun other hother => List.mem_cons_of_mem name (hgrown hother), by simp⟩
termination_by grammar.countOff path

/-- With a memory of names free of recursion, the cycle that is given is the one that exploring
finds first, and the memory that is left is of that kind again. -/
theorem cycleFrom_agrees (h : grammar.Knows grammar.acyclic) (name : String) :
    (grammar.cycleFrom name).1 = grammar.explore [] name ∧
      (grammar.cycleFrom name).2.Knows (grammar.cycleFrom name).2.acyclic := by
  have hagrees : grammar.Agrees grammar.acyclic (grammar.explore [] name) [name]
      (grammar.search [] grammar.acyclic name) := search_agrees h (List.forall_mem_nil _)
  unfold cycleFrom
  cases hrun : grammar.search [] grammar.acyclic name with
  | error cycle =>
      rw [hrun] at hagrees
      exact ⟨Eq.symm hagrees, h⟩
  | ok after =>
      rw [hrun] at hagrees
      have hrules : grammar.definition? = { grammar with acyclic := after }.definition? := rfl
      exact ⟨hagrees.1.symm, hagrees.2.1.congr hrules⟩

end Bnf.Grammar
