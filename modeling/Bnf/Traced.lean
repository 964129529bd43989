import Bnf.Fault
import Bnf.Trace

/-!
# Traced computations

A traced computation records events and ends in a value or in a fault. What it ends in does not
depend on what it records: `result_bind` says that results are combined as if nothing were recorded.
The events of a computation that faults are kept, and those that would follow are never recorded.
-/

namespace Bnf

/-- A computation that records events and ends in a value or a fault. -/
structure Traced (α : Type) where
  events : List Trace.Event
  result : Except Fault α
  deriving Repr

namespace Traced

variable {α β : Type}

/-- Ends in a value, without an event. -/
def pure (value : α) : Traced α :=
  ⟨[], .ok value⟩

/-- Continues with the value of a computation. A fault ends the whole, and keeps the events before
it. -/
def bind (first : Traced α) (next : α → Traced β) : Traced β :=
  match first.result with
  | .ok value => ⟨first.events ++ (next value).events, (next value).result⟩
  | .error fault => ⟨first.events, .error fault⟩

instance : Monad Traced where
  pure := Traced.pure
  bind := Traced.bind

/-- Records a note. -/
def record (note : Trace.Note) : Traced Unit :=
  ⟨[⟨0, note⟩], .ok ()⟩

/-- Ends in a fault. -/
def fail (fault : Fault) : Traced α :=
  ⟨[], .error fault⟩

/-- The computation with its events one rule further inside. -/
def nested (inner : Traced α) : Traced α :=
  ⟨inner.events.map Trace.Event.deeper, inner.result⟩

instance : LawfulMonad Traced := LawfulMonad.mk' Traced
  (by
    rintro α ⟨events, _ | value⟩ <;> simp [Functor.map, Traced.bind, Traced.pure])
  (by
    intro α β value next
    simp [Bind.bind, Pure.pure, Traced.bind, Traced.pure])
  (by
    rintro α β γ ⟨events, _ | value⟩ next last
    · simp [Bind.bind, Traced.bind]
    · simp only [Bind.bind, Traced.bind]
      cases (next value).result <;> simp)

@[simp]
theorem result_pure (value : α) : (Pure.pure value : Traced α).result = .ok value := rfl

@[simp]
theorem events_pure (value : α) : (Pure.pure value : Traced α).events = [] := rfl

@[simp]
theorem result_record (note : Trace.Note) : (record note).result = .ok () := rfl

@[simp]
theorem events_record (note : Trace.Note) : (record note).events = [⟨0, note⟩] := rfl

@[simp]
theorem result_fail (fault : Fault) : (fail fault : Traced α).result = .error fault := rfl

@[simp]
theorem events_fail (fault : Fault) : (fail fault : Traced α).events = [] := rfl

@[simp]
theorem result_nested (inner : Traced α) : (nested inner).result = inner.result := rfl

@[simp]
theorem events_nested (inner : Traced α) :
    (nested inner).events = inner.events.map Trace.Event.deeper := rfl

/-- The result of two computations in a row is that of the second on the value of the first. -/
theorem result_bind (first : Traced α) (next : α → Traced β) :
    (first >>= next).result = first.result.bind fun value => (next value).result := by
  obtain ⟨events, _ | value⟩ := first <;> rfl

/-- Two computations in a row end in a value exactly if the first ends in one from which the second
ends in it. -/
theorem result_bind_eq_ok {first : Traced α} {next : α → Traced β} {value : β} :
    (first >>= next).result = .ok value ↔
      ∃ middle, first.result = .ok middle ∧ (next middle).result = .ok value := by
  obtain ⟨events, _ | middle⟩ := first <;> simp [result_bind, Except.bind]

/-- Two computations in a row end in a fault exactly if the first does, or ends in a value from
which the second does. -/
theorem result_bind_eq_error {first : Traced α} {next : α → Traced β} {fault : Fault} :
    (first >>= next).result = .error fault ↔ first.result = .error fault ∨
      ∃ middle, first.result = .ok middle ∧ (next middle).result = .error fault := by
  obtain ⟨events, _ | middle⟩ := first <;> simp [result_bind, Except.bind]

/-- Applying a function to the value of a computation keeps what it records. -/
theorem map_eq (function : α → β) (first : Traced α) :
    function <$> first = ⟨first.events, first.result.map function⟩ := by
  obtain ⟨events, _ | value⟩ := first <;>
    simp [Functor.map, Traced.bind, Traced.pure, Except.map]

theorem result_map (function : α → β) (first : Traced α) :
    (function <$> first).result = first.result.map function := by
  rw [map_eq]

/-- Applying a function to the value of a computation neither adds nor removes a fault. -/
theorem result_map_eq_error {function : α → β} {first : Traced α} {fault : Fault} :
    (function <$> first).result = .error fault ↔ first.result = .error fault := by
  rw [result_map]
  cases first.result <;> simp [Except.map]

/-- After a value, the events of the next computation follow. -/
theorem events_bind_of_ok {first : Traced α} {value : α} (h : first.result = .ok value)
    (next : α → Traced β) :
    (first >>= next).events = first.events ++ (next value).events := by
  obtain ⟨events, result⟩ := first
  cases h
  rfl

/-- After a fault, no further event is recorded. -/
theorem events_bind_of_error {first : Traced α} {fault : Fault} (h : first.result = .error fault)
    (next : α → Traced β) : (first >>= next).events = first.events := by
  obtain ⟨events, result⟩ := first
  cases h
  rfl

end Traced

end Bnf
