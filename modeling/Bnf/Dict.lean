/-!
# Dictionaries

A dictionary holds values under names, in the order in which the names have arrived. A value that is
put under a name that is there already takes the place of the old one, and any other goes to the
end. What an operation does is said by one lemma about the names and one about looking names up, and
`ext_of_names` says that these two decide what a dictionary is.
-/

namespace Bnf

/-- Values under distinct names, in the order in which the names have arrived. -/
structure Dict (α : Type) where
  entries : List (String × α)
  nodup : (entries.map Prod.fst).Nodup
  deriving Repr, DecidableEq

namespace Dict

variable {α : Type}

/-- The dictionary without names. -/
def empty : Dict α :=
  ⟨[], List.nodup_nil⟩

/-- The names in order. -/
def names (dict : Dict α) : List String :=
  dict.entries.map Prod.fst

/-- The number of names. -/
def size (dict : Dict α) : Nat :=
  dict.entries.length

/-- The value under a name. -/
def find? (dict : Dict α) (name : String) : Option α :=
  dict.entries.lookup name

/-- A name that is not there can go to the end. -/
theorem nodup_append {dict : Dict α} {name : String} (h : name ∉ dict.names) (value : α) :
    ((dict.entries ++ [(name, value)]).map Prod.fst).Nodup := by
  rw [List.map_append, List.map_singleton, List.nodup_append]
  refine ⟨dict.nodup, List.nodup_cons.2 ⟨List.not_mem_nil, List.nodup_nil⟩, ?_⟩
  rintro old hold new hnew rfl
  cases List.mem_singleton.1 hnew
  exact h hold

/-- The dictionary with a value under a name, in place of the one that is there if there is one. -/
def put (dict : Dict α) (name : String) (value : α) : Dict α :=
  if h : name ∈ dict.names then
    ⟨dict.entries.map fun (old, kept) => (old, if old = name then value else kept), by
      rw [List.map_map]
      exact dict.nodup⟩
  else ⟨dict.entries ++ [(name, value)], nodup_append h value⟩

/-- The dictionary without a name. -/
def remove (dict : Dict α) (name : String) : Dict α :=
  ⟨dict.entries.filter fun (old, _) => old ≠ name,
    dict.nodup.sublist (List.filter_sublist.map _)⟩

variable {dict other : Dict α} {name target : String} {value : α}

/-! ## Names and values -/

@[ext]
theorem ext_of_entries (h : dict.entries = other.entries) : dict = other := by
  cases dict
  cases other
  cases h
  rfl

theorem length_names (dict : Dict α) : dict.names.length = dict.size :=
  List.length_map _

/-- A value is found exactly where it is entered. -/
theorem find_eq_some_iff : dict.find? name = some value ↔ (name, value) ∈ dict.entries := by
  obtain ⟨entries, hnodup⟩ := dict
  rw [find?]
  induction entries with
  | nil => simp
  | cons entry rest ih =>
    obtain ⟨first, kept⟩ := entry
    rw [List.map_cons, List.nodup_cons] at hnodup
    rw [List.lookup_cons, List.mem_cons, Prod.mk.injEq]
    by_cases hname : name = first
    · subst hname
      -- No later entry has the name, so only the first value can be found.
      have hrest : (name, value) ∉ rest := fun hmem =>
        hnodup.1 (List.mem_map.2 ⟨_, hmem, rfl⟩)
      simp [hrest, eq_comm]
    · rw [beq_false_of_ne hname]
      simpa [hname] using ih hnodup.2

/-- A name is there exactly if a value is found under it. -/
theorem mem_names_iff : name ∈ dict.names ↔ (dict.find? name).isSome = true := by
  rw [Option.isSome_iff_exists, names, List.mem_map]
  constructor
  · rintro ⟨⟨first, value⟩, hmem, rfl⟩
    exact ⟨value, find_eq_some_iff.2 hmem⟩
  · rintro ⟨value, hfind⟩
    exact ⟨_, find_eq_some_iff.1 hfind, rfl⟩

theorem find_eq_none_iff : dict.find? name = none ↔ name ∉ dict.names := by
  rw [mem_names_iff, Option.not_isSome_iff_eq_none]

/-- The names and the values under them are all that there is to a dictionary. -/
theorem ext_of_names (hnames : dict.names = other.names)
    (hfind : ∀ name, dict.find? name = other.find? name) : dict = other := by
  have hlength : dict.entries.length = other.entries.length := by
    rw [← List.length_map Prod.fst, ← names, hnames, names, List.length_map]
  refine ext_of_entries (List.ext_getElem hlength fun place hplace hother => ?_)
  have hname : dict.entries[place].1 = other.entries[place].1 := by
    have hplaces : dict.names[place]? = other.names[place]? := by rw [hnames]
    simpa [names, hplace, hother] using hplaces
  have hfirst : dict.find? dict.entries[place].1 = some dict.entries[place].2 :=
    find_eq_some_iff.2 (List.getElem_mem hplace)
  have hsecond : other.find? other.entries[place].1 = some other.entries[place].2 :=
    find_eq_some_iff.2 (List.getElem_mem hother)
  rw [hfind, hname, hsecond] at hfirst
  exact Prod.ext hname (Option.some.inj hfirst).symm

/-! ## Operations -/

theorem names_put (name : String) (value : α) :
    (dict.put name value).names =
      if name ∈ dict.names then dict.names else dict.names ++ [name] := by
  unfold put
  split
  · rw [names, List.map_map]
    rfl
  · rw [names, List.map_append]
    rfl

theorem find_put (name target : String) (value : α) :
    (dict.put name value).find? target =
      if target = name then some value else dict.find? target := by
  refine Option.ext fun found => ?_
  rw [find_eq_some_iff]
  unfold put
  split
  · rename_i hname
    obtain ⟨⟨old, kept⟩, hkept, rfl⟩ := List.mem_map.1 hname
    split
    · rename_i htarget
      subst htarget
      simp only [List.mem_map, Prod.mk.injEq, Prod.exists, Option.some.injEq]
      constructor
      · rintro ⟨old, other, hmem, rfl, rfl⟩
        rw [if_pos rfl]
      · rintro rfl
        exact ⟨_, kept, hkept, rfl, if_pos rfl⟩
    · rename_i htarget
      simp only [List.mem_map, Prod.mk.injEq, Prod.exists]
      rw [find_eq_some_iff]
      constructor
      · rintro ⟨old, other, hmem, rfl, rfl⟩
        rwa [if_neg htarget]
      · exact fun hmem => ⟨target, found, hmem, rfl, if_neg htarget⟩
  · rename_i hname
    rw [List.mem_append, List.mem_singleton, Prod.mk.injEq, ← find_eq_some_iff]
    split
    · rename_i htarget
      subst htarget
      rw [find_eq_none_iff.2 hname]
      simp [eq_comm]
    · rename_i htarget
      simp [htarget]

theorem names_remove (name : String) :
    (dict.remove name).names = dict.names.filter (· ≠ name) := by
  rw [names, remove, names, List.filter_map]
  rfl

theorem find_remove (name target : String) :
    (dict.remove name).find? target = if target = name then none else dict.find? target := by
  refine Option.ext fun value => ?_
  rw [find_eq_some_iff, remove]
  split <;> simp_all [find_eq_some_iff]

/-- Putting the value that is there already changes nothing. -/
theorem put_eq_self (h : dict.find? name = some value) : dict.put name value = dict := by
  refine ext_of_names ?_ fun target => ?_
  · rw [names_put, if_pos (mem_names_iff.2 (by rw [h]; rfl))]
  · rw [find_put]
    split
    · rename_i htarget
      rw [htarget, h]
    · rfl

/-- Of two values that are put under one name only the second counts. -/
theorem put_put (dict : Dict α) (name : String) (first second : α) :
    (dict.put name first).put name second = dict.put name second := by
  refine ext_of_names ?_ fun target => ?_
  · rw [names_put, names_put, names_put]
    by_cases hname : name ∈ dict.names <;> simp [hname]
  · simp only [find_put]
    split <;> rfl

/-- The value of a name that is there may be replaced before or after another value is put. -/
theorem put_comm (hname : name ∈ dict.names) (hne : name ≠ target) (first second : α) :
    (dict.put target first).put name second = (dict.put name second).put target first := by
  refine ext_of_names ?_ fun other => ?_
  · simp only [names_put]
    by_cases htarget : target ∈ dict.names <;> simp [hname, htarget]
  · simp only [find_put]
    by_cases hother : other = name
    · simp [hother, hne]
    · simp [hother]

/-- Removing a name that is not there changes nothing. -/
theorem remove_eq_self (h : name ∉ dict.names) : dict.remove name = dict := by
  refine ext_of_entries (List.filter_eq_self.2 fun entry hentry => ?_)
  rw [decide_eq_true_eq]
  rintro rfl
  exact h (List.mem_map_of_mem hentry)

/-- Dictionaries with the same names have the same size, in whatever order the names stand. -/
theorem size_eq_of_names (h : ∀ name, name ∈ dict.names ↔ name ∈ other.names) :
    dict.size = other.size := by
  rw [← length_names, ← length_names]
  exact ((List.perm_ext_iff_of_nodup dict.nodup other.nodup).2 h).length_eq

end Dict

end Bnf
