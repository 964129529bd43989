import Bnf.Proofs.Memory
import Bnf.UnicodeData.Version14
import Mathlib

/-!
# The search for a cycle

A walk closes if it follows references without meeting a name twice and then comes back to one of
its names. `closings` lists the cycles at the ends of all closing walks, depth first and in the
order of references, and remembers nothing but the walk it is on; `mem_closings_iff` says that it
leaves out none. The search for a cycle gives the first of this list. So what it gives is a cycle,
and it gives none exactly if no recursive name can be reached. This is `cycle_search_exact`.
-/

namespace Bnf.Grammar

/-- The cycles that are met when all references are followed, depth first and in order, from a name
to which this path has led. -/
def closings (grammar : Grammar) (path : List String) (name : String) : List (List String) :=
  if hpath : name ∈ path then [path.dropWhile (· ≠ name) ++ [name]]
  else match hdefinition : grammar.definition? name with
    | none => []
    | some definition =>
      (Definition.references definition).flatMap fun reference =>
        have := countOff_append_lt hdefinition hpath
        grammar.closings (path ++ [name]) reference
termination_by grammar.countOff path

/-- A walk of new names along references, from a name to which a path has led, that comes back to
this name on the path or on the walk. -/
structure Closes (grammar : Grammar) (path : List String) (name : String) (walk : List String)
    (last : String) : Prop where
  starts : (walk ++ [last]).head? = some name
  follows : (walk ++ [last]).IsChain grammar.Refers
  new : ∀ step ∈ walk, step ∉ path
  nodup : walk.Nodup
  returns : last ∈ path ++ walk

/-- A chain of at least two names along references that ends where it begins and otherwise meets no
name twice. -/
structure IsCycle (grammar : Grammar) (cycle : List String) : Prop where
  two_le : 2 ≤ cycle.length
  closed : cycle.head? = cycle.getLast?
  nodup : cycle.dropLast.Nodup
  defined : ∀ name ∈ cycle, grammar.defines name = true
  follows : cycle.IsChain grammar.Refers

variable {grammar : Grammar}

/-! ## All closing walks -/

/-- A name on the path closes the walk at once. -/
theorem closings_of_mem {path : List String} {name : String} (h : name ∈ path) :
    grammar.closings path name = [path.dropWhile (· ≠ name) ++ [name]] := by
  rw [closings, dif_pos h]

/-- No walk goes on from a name without a definition. -/
theorem closings_of_undefined {path : List String} {name : String} (hpath : name ∉ path)
    (hnone : grammar.definition? name = none) : grammar.closings path name = [] := by
  rw [closings, dif_neg hpath]
  split
  · rfl
  · rename_i definition hdefinition
    rw [hnone] at hdefinition
    cases hdefinition

/-- From a rule, walks go on to each of its references. -/
theorem closings_of_defined {path : List String} {name : String} {definition : Definition}
    (hpath : name ∉ path) (hdefinition : grammar.definition? name = some definition) :
    grammar.closings path name =
      (Definition.references definition).flatMap fun reference =>
        grammar.closings (path ++ [name]) reference := by
  rw [closings, dif_neg hpath]
  split
  · rename_i hnone
    rw [hdefinition] at hnone
    cases hnone
  · rename_i other hother
    rw [hdefinition] at hother
    cases hother
    rfl

/-- Exploring finds the first of all cycles that there are to be met. -/
theorem explore_eq_head_closings (path : List String) (name : String) :
    grammar.explore path name = (grammar.closings path name).head? := by
  by_cases hpath : name ∈ path
  · rw [explore_of_mem hpath, closings_of_mem hpath]
    rfl
  · cases hdefinition : grammar.definition? name with
    | none =>
        rw [explore_of_undefined hpath hdefinition, closings_of_undefined hpath hdefinition]
        rfl
    | some definition =>
        have hless := countOff_append_lt hdefinition hpath
        rw [explore_of_defined hpath hdefinition, closings_of_defined hpath hdefinition,
          List.head?_flatMap]
        congr 1
        funext reference
        exact explore_eq_head_closings (path ++ [name]) reference
termination_by grammar.countOff path

/-- A walk that starts from a name on the path has closed already. -/
theorem Closes.eq_of_mem {path walk : List String} {name last : String}
    (h : grammar.Closes path name walk last) (hpath : name ∈ path) : walk = [] ∧ last = name := by
  cases walk with
  | nil => exact ⟨rfl, Option.some.inj h.starts⟩
  | cons first rest =>
      cases h.starts
      exact absurd hpath (h.new name List.mem_cons_self)

/-- A walk that starts from a new name goes on to one of its references. -/
theorem Closes.further {path walk : List String} {name last : String}
    (h : grammar.Closes path name walk last) (hpath : name ∉ path) :
    ∃ reference rest, walk = name :: rest ∧ grammar.Refers name reference ∧
      grammar.Closes (path ++ [name]) reference rest last := by
  cases walk with
  | nil =>
      cases h.starts
      exact absurd (by simpa using h.returns) hpath
  | cons first rest =>
      cases h.starts
      obtain ⟨hfirst, hrest⟩ := List.nodup_cons.1 h.nodup
      have hreference : (rest ++ [last]).head? = some ((rest ++ [last]).head (by simp)) :=
        List.head?_eq_some_head _
      refine ⟨_, rest, rfl, h.follows.rel_head? hreference, hreference, h.follows.tail, ?_,
        hrest, by simpa using h.returns⟩
      intro step hstep
      rw [List.mem_append, List.mem_singleton, not_or]
      exact ⟨h.new step (List.mem_cons_of_mem name hstep), fun heq => hfirst (heq ▸ hstep)⟩

/-- A walk may be put after a new name that refers to where it starts. -/
theorem Closes.cons {path walk : List String} {name reference last : String} (hpath : name ∉ path)
    (hrefers : grammar.Refers name reference)
    (h : grammar.Closes (path ++ [name]) reference walk last) :
    grammar.Closes path name (name :: walk) last where
  starts := rfl
  follows := by
    rw [List.cons_append, List.isChain_cons]
    refine ⟨fun next hnext => ?_, h.follows⟩
    rw [Option.mem_def, h.starts, Option.some.injEq] at hnext
    exact hnext ▸ hrefers
  new := by
    refine List.forall_mem_cons.2 ⟨hpath, fun step hstep hmem => ?_⟩
    exact h.new step hstep (List.mem_append_left [name] hmem)
  nodup := by
    refine List.nodup_cons.2 ⟨fun hmem => ?_, h.nodup⟩
    exact h.new name hmem (by simp)
  returns := by simpa using h.returns

/-- The cycles that are met are those at the ends of all walks that close. -/
theorem mem_closings_iff {path cycle : List String} {name : String} :
    cycle ∈ grammar.closings path name ↔ ∃ walk last, grammar.Closes path name walk last ∧
      cycle = (path ++ walk).dropWhile (· ≠ last) ++ [last] := by
  by_cases hpath : name ∈ path
  · rw [closings_of_mem hpath, List.mem_singleton]
    constructor
    · rintro rfl
      refine ⟨[], name, ⟨rfl, .singleton name, List.forall_mem_nil _, List.nodup_nil, ?_⟩, ?_⟩
      · simpa using hpath
      · rw [List.append_nil]
    · rintro ⟨walk, last, hcloses, rfl⟩
      obtain ⟨rfl, rfl⟩ := hcloses.eq_of_mem hpath
      rw [List.append_nil]
  · cases hdefinition : grammar.definition? name with
    | none =>
        rw [closings_of_undefined hpath hdefinition]
        refine ⟨fun h => absurd h List.not_mem_nil, ?_⟩
        rintro ⟨walk, last, hcloses, -⟩
        obtain ⟨reference, -, -, hrefers, -⟩ := hcloses.further hpath
        exact absurd hrefers (not_refers_of_undefined hdefinition reference)
    | some definition =>
        have hless := countOff_append_lt hdefinition hpath
        rw [closings_of_defined hpath hdefinition, List.mem_flatMap]
        constructor
        · rintro ⟨reference, hreference, hcycle⟩
          obtain ⟨walk, last, hcloses, rfl⟩ := mem_closings_iff.1 hcycle
          refine ⟨name :: walk, last, hcloses.cons hpath ⟨definition, hdefinition, hreference⟩, ?_⟩
          rw [List.append_assoc, List.singleton_append]
        · rintro ⟨walk, last, hcloses, rfl⟩
          obtain ⟨reference, rest, rfl, ⟨found, hfound, hmem⟩, hrest⟩ := hcloses.further hpath
          rw [hdefinition] at hfound
          cases hfound
          refine ⟨reference, hmem, mem_closings_iff.2 ⟨rest, last, hrest, ?_⟩⟩
          rw [List.append_assoc, List.singleton_append]
termination_by grammar.countOff path

/-! ## Cycles -/

/-- From a member of a list on, the list begins with this member. -/
theorem exists_dropWhile_eq_cons {names : List String} {name : String} (h : name ∈ names) :
    ∃ rest, names.dropWhile (· ≠ name) = name :: rest := by
  obtain ⟨before, after, rfl, hbefore⟩ := List.eq_append_cons_of_mem h
  refine ⟨after, ?_⟩
  rw [List.dropWhile_append_of_pos, List.dropWhile_cons_of_neg (by simp)]
  intro other hother
  rw [decide_eq_true_eq]
  exact fun heq => hbefore (heq ▸ hother)

/-- What begins a chain along references leads to all names of the chain. -/
theorem reaches_of_chain {names : List String} {name : String}
    (hfollows : names.IsChain grammar.Refers) (hhead : names.head? = some name) :
    ∀ member ∈ names, grammar.Reaches name member := by
  refine hfollows.induction (fun member => grammar.Reaches name member) names
    (fun _ _ hrefers hreaches => hreaches.tail hrefers) fun hne => ?_
  rw [List.head?_eq_some_head hne, Option.some.injEq] at hhead
  exact hhead ▸ .refl

/-- A name of a chain along references is defined, unless the chain ends with it. -/
theorem defines_of_mem_chain {walk : List String} {last : String}
    (hfollows : (walk ++ [last]).IsChain grammar.Refers) :
    ∀ name ∈ walk, grammar.defines name = true := by
  induction walk with
  | nil => exact List.forall_mem_nil _
  | cons first rest ih =>
      have hreference : (rest ++ [last]).head? = some ((rest ++ [last]).head (by simp)) :=
        List.head?_eq_some_head _
      exact List.forall_mem_cons.2 ⟨(hfollows.rel_head? hreference).defines, ih hfollows.tail⟩

/-- At the end of a walk that closes there is a cycle, and the walk leads to all of its names. -/
theorem Closes.isCycle {walk : List String} {name last : String}
    (h : grammar.Closes [] name walk last) :
    grammar.IsCycle (walk.dropWhile (· ≠ last) ++ [last]) ∧
      ∀ member ∈ walk.dropWhile (· ≠ last) ++ [last], grammar.Reaches name member := by
  have hlast : last ∈ walk := by simpa using h.returns
  have hsuffix : walk.dropWhile (· ≠ last) <:+ walk := List.dropWhile_suffix _
  have hends : walk.dropWhile (· ≠ last) ++ [last] <:+ walk ++ [last] := by
    obtain ⟨before, hbefore⟩ := hsuffix
    exact ⟨before, by rw [← List.append_assoc, hbefore]⟩
  obtain ⟨rest, hrest⟩ := exists_dropWhile_eq_cons hlast
  refine ⟨⟨?_, ?_, ?_, ?_, h.follows.suffix hends⟩, fun member hmember => ?_⟩
  · rw [hrest, List.length_append, List.length_cons, List.length_singleton]
    omega
  · rw [List.getLast?_concat, hrest]
    rfl
  · rw [List.dropLast_concat]
    exact h.nodup.sublist hsuffix.sublist
  · have hdefined := defines_of_mem_chain h.follows
    intro member hmember
    rcases List.mem_append.1 hmember with hmember | hmember
    · exact hdefined member (hsuffix.subset hmember)
    · exact List.mem_singleton.1 hmember ▸ hdefined last hlast
  · exact reaches_of_chain h.follows h.starts member (hends.subset hmember)

/-- Every cycle that is met from a name is one, and can be reached from the name. -/
theorem isCycle_of_mem_closings {cycle : List String} {name : String}
    (h : cycle ∈ grammar.closings [] name) :
    grammar.IsCycle cycle ∧ ∀ member ∈ cycle, grammar.Reaches name member := by
  obtain ⟨walk, last, hcloses, rfl⟩ := mem_closings_iff.1 h
  exact hcloses.isCycle

/-- A cycle that the search gives is one, and can be reached from where the search began. -/
theorem isCycle_of_cycleFrom (h : grammar.Knows grammar.acyclic) {cycle : List String}
    {name : String} (hcycle : (grammar.cycleFrom name).1 = some cycle) :
    grammar.IsCycle cycle ∧ ∀ member ∈ cycle, grammar.Reaches name member := by
  rw [(cycleFrom_agrees h name).1, explore_eq_head_closings] at hcycle
  exact isCycle_of_mem_closings (List.mem_of_head? hcycle)

/-- A recursive name is defined. -/
theorem Recursive.defines {name : String} (h : grammar.Recursive name) :
    grammar.defines name = true := by
  obtain ⟨reference, hrefers, -⟩ := Relation.TransGen.head'_iff.1 h
  exact hrefers.defines

section

variable [UnicodeData]

/-- After every history, the search from a name, defined or not, gives no cycle exactly if no
defined name that lies on a cycle can be reached from it. Whatever is remembered, it gives the first
of all cycles that an exhaustive search meets, depth first and in the order of references. And what
it gives is a chain along references that ends where it begins and otherwise has distinct names, all
defined and reached from where the search began. -/
theorem cycle_search_exact (sources : List (String × String)) (operations : List Operation)
    (name : String) :
    let grammar := run operations (ofSources sources)
    ((grammar.cycleFrom name).1 = none ↔ ¬ ∃ other, grammar.defines other = true ∧
      grammar.Recursive other ∧ grammar.Reaches name other) ∧
    (grammar.cycleFrom name).1 = (grammar.closings [] name).head? ∧
    ∀ cycle, (grammar.cycleFrom name).1 = some cycle →
      grammar.IsCycle cycle ∧ ∀ member ∈ cycle, grammar.Reaches name member := by
  intro grammar
  have hknows : grammar.Knows grammar.acyclic := knows_invariant.run sources operations
  have hexplore : (grammar.cycleFrom name).1 = grammar.explore [] name :=
    (cycleFrom_agrees hknows name).1
  refine ⟨?_, hexplore.trans (explore_eq_head_closings [] name), fun cycle hcycle =>
    isCycle_of_cycleFrom hknows hcycle⟩
  rw [hexplore, explore_nil_eq_none_iff]
  constructor
  · rintro hfree ⟨other, -, hrecursive, hreaches⟩
    exact hfree other hreaches hrecursive
  · intro hnone other hreaches hrecursive
    exact hnone ⟨other, hrecursive.defines, hrecursive, hreaches⟩

end

/-- A search that comes to a cycle by way of a rule outside of it. -/
theorem cycle_search_exact_detour :
    let grammar := run [.cycleFrom "word"] (ofSources
      [("start", "<word> <a>"), ("a", "<b>?"), ("b", "<word> | <a>"), ("word", "\"w\"")])
    (grammar.cycleFrom "start").1 = some ["a", "b", "a"] ∧ grammar.IsCycle ["a", "b", "a"] := by
  have hcycle : ((run [.cycleFrom "word"] (ofSources
      [("start", "<word> <a>"), ("a", "<b>?"), ("b", "<word> | <a>"),
        ("word", "\"w\"")])).cycleFrom "start").1 = some ["a", "b", "a"] := by cbv
  exact ⟨hcycle, ((cycle_search_exact _ _ "start").2.2 _ hcycle).1⟩

end Bnf.Grammar
