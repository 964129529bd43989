import Bnf.Dict
import Mathlib.Data.List.Induction
import Mathlib.Data.List.Nodup

/-!
# Filling dictionaries

Values are put into a dictionary one after the other, as a batch (`putAll`). It makes no difference
whether a batch is put into a dictionary at once, or first collected in a dictionary of its own
(`putAll_putAll`): a name that comes twice has its place from the first time and its value from the
last, either way. The values of a dictionary can be put into it again without any effect, and put
into an empty dictionary they make it up anew.
-/

namespace Bnf.Dict

variable {α β : Type} {dict other : Dict α} {name : String} {value : α}
  {entries : List (String × α)}

/-- The dictionary with values put into it one after the other. -/
def putAll (dict : Dict α) (entries : List (String × α)) : Dict α :=
  entries.foldl (fun filled entry => filled.put entry.1 entry.2) dict

@[simp]
theorem putAll_nil (dict : Dict α) : dict.putAll [] = dict := rfl

@[simp]
theorem putAll_cons (dict : Dict α) (entry : String × α) (entries : List (String × α)) :
    dict.putAll (entry :: entries) = (dict.put entry.1 entry.2).putAll entries := rfl

theorem putAll_append (dict : Dict α) (first later : List (String × α)) :
    dict.putAll (first ++ later) = (dict.putAll first).putAll later :=
  List.foldl_append

theorem putAll_concat (dict : Dict α) (entries : List (String × α)) (entry : String × α) :
    dict.putAll (entries ++ [entry]) = (dict.putAll entries).put entry.1 entry.2 :=
  putAll_append dict entries [entry]

/-- What was put in is there, and what was there stays. -/
theorem mem_names_put {target : String} :
    target ∈ (dict.put name value).names ↔ target = name ∨ target ∈ dict.names := by
  rw [names_put]
  split
  · rename_i hname
    exact ⟨.inr, fun h => h.elim (fun heq => heq ▸ hname) id⟩
  · rw [List.mem_append, List.mem_singleton, or_comm]

theorem mem_names_putAll {target : String} :
    target ∈ (dict.putAll entries).names ↔ target ∈ dict.names ∨ target ∈ entries.map Prod.fst := by
  induction entries generalizing dict with
  | nil => simp
  | cons entry rest ih => rw [putAll_cons, ih, mem_names_put, List.map_cons, List.mem_cons]; tauto

/-- Without its own name, what is put in makes no difference. -/
theorem remove_put (dict : Dict α) (name : String) (value : α) :
    (dict.put name value).remove name = dict.remove name := by
  refine ext_of_names ?_ fun target => ?_
  · rw [names_remove, names_remove, names_put]
    split
    · rfl
    · simp
  · simp only [find_remove, find_put]
    split <;> rfl

/-- The value of a name that is there may be replaced before or after other names are put in. -/
theorem putAll_put_comm (hname : name ∈ dict.names) (hother : name ∉ entries.map Prod.fst)
    (value : α) : (dict.putAll entries).put name value = (dict.put name value).putAll entries := by
  induction entries generalizing dict with
  | nil => rfl
  | cons entry rest ih =>
      rw [List.map_cons, List.mem_cons, not_or] at hother
      rw [putAll_cons, putAll_cons, ih (mem_names_put.2 (.inr hname)) hother.2,
        put_comm hname hother.1]

/-- A value that is put under a new name becomes the last entry. -/
theorem entries_put_of_new (h : name ∉ dict.names) (value : α) :
    (dict.put name value).entries = dict.entries ++ [(name, value)] := by
  rw [put, dif_neg h]

/-- A value that is put under a name that is there replaces one entry and keeps those before it and
behind it. -/
theorem entries_put_of_mem (h : name ∈ dict.names) (value : α) :
    ∃ before old after, dict.entries = before ++ (name, old) :: after ∧
      (dict.put name value).entries = before ++ (name, value) :: after ∧
      name ∉ after.map Prod.fst := by
  obtain ⟨⟨first, old⟩, hmem, hfirst⟩ := List.mem_map.1 h
  subst hfirst
  obtain ⟨before, after, hentries⟩ := List.append_of_mem hmem
  have hnodup := dict.nodup
  rw [hentries, List.map_append, List.map_cons, List.nodup_append, List.nodup_cons] at hnodup
  obtain ⟨-, ⟨hafter, -⟩, hbefore⟩ := hnodup
  -- No other entry has the name, so those on both sides are kept.
  have hkept {rest : List (String × α)} (hrest : ∀ entry ∈ rest, entry.1 ≠ first) :
      (rest.map fun entry => (entry.1, if entry.1 = first then value else entry.2)) = rest := by
    refine (List.map_congr_left fun entry hentry => ?_).trans (List.map_id _)
    exact Prod.ext rfl (if_neg (hrest entry hentry))
  have hput : (dict.put first value).entries =
      dict.entries.map fun entry => (entry.1, if entry.1 = first then value else entry.2) := by
    rw [put, dif_pos h]
  refine ⟨before, old, after, hentries, ?_, hafter⟩
  rw [hput, hentries, List.map_append, List.map_cons, if_pos rfl, hkept, hkept]
  · exact fun entry hentry hname => hafter (List.mem_map.2 ⟨entry, hentry, hname⟩)
  · exact fun entry hentry hname =>
      hbefore _ (List.mem_map_of_mem hentry) _ List.mem_cons_self hname

/-- A value may be put into a dictionary before the dictionary is put into another, or after it. -/
theorem putAll_put (dict other : Dict α) (name : String) (value : α) :
    dict.putAll (other.put name value).entries = (dict.putAll other.entries).put name value := by
  by_cases hname : name ∈ other.names
  · obtain ⟨before, old, after, hentries, hput, hafter⟩ := entries_put_of_mem hname value
    have hpresent : name ∈ ((dict.putAll before).put name old).names :=
      mem_names_put.2 (.inl rfl)
    rw [hentries, hput, putAll_append, putAll_append, putAll_cons, putAll_cons,
      putAll_put_comm hpresent hafter, put_put]
  · rw [entries_put_of_new hname, putAll_concat]

/-- A batch may be put into a dictionary before the dictionary is put into another, or after it. -/
theorem putAll_putAll (dict other : Dict α) (entries : List (String × α)) :
    dict.putAll (other.putAll entries).entries = (dict.putAll other.entries).putAll entries := by
  induction entries using List.reverseRecOn with
  | nil => rfl
  | append_singleton rest last ih => rw [putAll_concat, putAll_put, ih, putAll_concat]

/-- Values that are there already can be put in without any effect. -/
theorem putAll_eq_self (h : ∀ entry ∈ entries, dict.find? entry.1 = some entry.2) :
    dict.putAll entries = dict := by
  induction entries with
  | nil => rfl
  | cons entry rest ih =>
      rw [putAll_cons, put_eq_self (h entry List.mem_cons_self)]
      exact ih fun other hother => h other (List.mem_cons_of_mem entry hother)

/-- The values of a dictionary are found where they were put. -/
theorem find_putAll_of_mem {entry : String × α} (h : entry ∈ other.entries) (dict : Dict α) :
    (dict.putAll other.entries).find? entry.1 = some entry.2 := by
  have hself : other.put entry.1 entry.2 = other := put_eq_self (find_eq_some_iff.2 h)
  rw [← hself, putAll_put, find_put, if_pos rfl]

/-- What is put in is found if the names are distinct. -/
theorem find_putAll_of_nodup (hnodup : (entries.map Prod.fst).Nodup) {entry : String × α}
    (h : entry ∈ entries) (dict : Dict α) :
    (dict.putAll entries).find? entry.1 = some entry.2 := by
  let whole : Dict α := ⟨entries, hnodup⟩
  have hmem : entry ∈ whole.entries := h
  exact find_putAll_of_mem hmem dict

/-- Entries with new and distinct names go to the end as they are. -/
theorem entries_putAll_of_new (hnodup : (dict.names ++ entries.map Prod.fst).Nodup) :
    (dict.putAll entries).entries = dict.entries ++ entries := by
  induction entries generalizing dict with
  | nil => simp
  | cons entry rest ih =>
      have hnew : entry.1 ∉ dict.names := fun hmem =>
        (List.nodup_append.1 hnodup).2.2 _ hmem _ List.mem_cons_self rfl
      rw [putAll_cons, ih, entries_put_of_new hnew, List.append_assoc, List.singleton_append]
      rw [names_put, if_neg hnew, List.append_assoc, List.singleton_append]
      exact hnodup

/-- Entries with distinct names make up a dictionary as they are. -/
theorem entries_putAll_empty (hnodup : (entries.map Prod.fst).Nodup) :
    (empty.putAll entries).entries = entries :=
  entries_putAll_of_new hnodup

/-- The entries of a dictionary make it up anew. -/
theorem putAll_entries (dict : Dict α) : empty.putAll dict.entries = dict :=
  ext_of_entries (entries_putAll_empty dict.nodup)

/-! ## Images -/

/-- The dictionary of the values that a function gives. -/
def map (function : α → β) (dict : Dict α) : Dict β :=
  ⟨dict.entries.map (Prod.map id function), by
    rw [List.map_map]
    exact dict.nodup⟩

theorem names_map (function : α → β) (dict : Dict α) : (dict.map function).names = dict.names := by
  rw [names, map, List.map_map]
  rfl

theorem find_map (function : α → β) (dict : Dict α) (name : String) :
    (dict.map function).find? name = (dict.find? name).map function := by
  refine Option.ext fun value => ?_
  rw [find_eq_some_iff, Option.map_eq_some_iff, map, List.mem_map]
  constructor
  · rintro ⟨⟨_, old⟩, hmem, heq⟩
    cases heq
    exact ⟨old, find_eq_some_iff.2 hmem, rfl⟩
  · rintro ⟨old, hfind, rfl⟩
    exact ⟨_, find_eq_some_iff.1 hfind, rfl⟩

/-- A function may be applied to a value before it is put in, or after it. -/
theorem map_put (function : α → β) (dict : Dict α) (name : String) (value : α) :
    (dict.put name value).map function = (dict.map function).put name (function value) := by
  refine ext_of_names ?_ fun target => ?_
  · rw [names_map, names_put, names_put, names_map]
  · rw [find_map, find_put, find_put, find_map]
    split <;> rfl

/-- A function may be applied to values before they are put in, or after it. -/
theorem map_putAll (function : α → β) (dict : Dict α) (entries : List (String × α)) :
    (dict.putAll entries).map function =
      (dict.map function).putAll (entries.map (Prod.map id function)) := by
  induction entries generalizing dict with
  | nil => rfl
  | cons entry rest ih =>
      rw [putAll_cons, ih, map_put, List.map_cons, putAll_cons]
      rfl

theorem map_remove (function : α → β) (dict : Dict α) (name : String) :
    (dict.remove name).map function = (dict.map function).remove name := by
  refine ext_of_names ?_ fun target => ?_
  · rw [names_map, names_remove, names_remove, names_map]
  · rw [find_map, find_remove, find_remove, find_map]
    split <;> rfl

end Bnf.Dict
