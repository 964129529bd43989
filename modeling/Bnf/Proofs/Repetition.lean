import Bnf.Proofs.Calls

/-!
# Repetitions, lap by lap

A repetition takes laps as long as tokens are left and something is found, and stops if a lap ends
where it began. `Repeats` tells this without a word about progress. If laps run forward, a
repetition is told that way, and its laps begin further and further on (`repeats_advance`), so that
there are as many as tokens at most.
-/

namespace Bnf.Matching

/-- A repetition, told lap by lap: while tokens are left the step is taken, and again from where it
ends, until it finds nothing, ends where it began, or ends in a fault. `visited` are the positions
at which the step is taken. -/
inductive Repeats (step : Int → Traced (Option Int)) (size : Nat) :
    Int → List Int → Except Fault Int → Prop where
  | atEnd {start : Int} (h : (size : Int) ≤ start) : Repeats step size start [] (.ok start)
  | fault {start : Int} {fault : Fault} (h : start < size)
      (hstep : (step start).result = .error fault) : Repeats step size start [start] (.error fault)
  | nothing {start : Int} (h : start < size) (hstep : (step start).result = .ok none) :
      Repeats step size start [start] (.ok start)
  | standstill {start : Int} (h : start < size) (hstep : (step start).result = .ok (some start)) :
      Repeats step size start [start] (.ok start)
  | lap {start next : Int} {visited : List Int} {outcome : Except Fault Int} (h : start < size)
      (hstep : (step start).result = .ok (some next)) (hnext : next ≠ start)
      (hrest : Repeats step size next visited outcome) :
      Repeats step size start (start :: visited) outcome

variable {step : Int → Traced (Option Int)} {size : Nat}

/-- A repetition of a forward step is told by laps that begin further and further on. -/
theorem repeats_advance (hforward : Forward step) (start : Int) :
    ∃ visited, Repeats step size start visited (advance step size start).result ∧
      visited.Pairwise (· < ·) ∧ ∀ position ∈ visited, start ≤ position ∧ position < size := by
  rw [advance]
  split
  · rename_i hstart
    have hsingle : ∀ position ∈ [start], start ≤ position ∧ position < size :=
      fun position hmem => by
        rw [List.mem_singleton.1 hmem]
        exact ⟨Int.le_refl start, hstart⟩
    rw [Traced.result_bind]
    cases hstep : (step start).result with
    | error fault => exact ⟨[start], .fault hstart hstep, List.pairwise_singleton _ _, hsingle⟩
    | ok lap =>
        cases lap with
        | none => exact ⟨[start], .nothing hstart hstep, List.pairwise_singleton _ _, hsingle⟩
        | some next =>
            by_cases hnext : start < next
            · obtain ⟨visited, hrest, hpairwise, hbounds⟩ := repeats_advance hforward next
              have hlater : ∀ position ∈ visited, start < position ∧ position < size :=
                fun position hmem => ⟨Int.lt_of_lt_of_le hnext (hbounds position hmem).1,
                  (hbounds position hmem).2⟩
              simp only [Except.bind, hnext, dite_true]
              refine ⟨start :: visited, .lap hstart hstep (by omega) hrest, ?_, ?_⟩
              · exact List.pairwise_cons.2
                  ⟨fun position hmem => (hlater position hmem).1, hpairwise⟩
              · exact List.forall_mem_cons.2 ⟨⟨Int.le_refl start, hstart⟩,
                  fun position hmem => ⟨Int.le_of_lt (hlater position hmem).1,
                    (hlater position hmem).2⟩⟩
            · -- The step ran forward but did not advance, so it stood still.
              have hle := hforward start next hstep
              have hstill : next = start := by omega
              subst hstill
              simp only [Except.bind, hnext, dite_false]
              exact ⟨[next], .standstill hstart hstep, List.pairwise_singleton _ _, hsingle⟩
  · rename_i hstart
    exact ⟨[], .atEnd (by omega), List.Pairwise.nil, List.forall_mem_nil _⟩
termination_by (size - start).toNat

/-- Growing positions between a start and the number of tokens are as many at most. -/
theorem length_le_of_growing {visited : List Int} (hpairwise : visited.Pairwise (· < ·))
    {start : Int} (hbounds : ∀ position ∈ visited, start ≤ position ∧ position < size) :
    visited.length ≤ (size - start).toNat := by
  -- Each lap begins behind the one before, so the rest has one position less to begin at.
  induction visited generalizing start with
  | nil => exact Nat.zero_le _
  | cons first rest ih =>
      obtain ⟨hfirst, hpairwise⟩ := List.pairwise_cons.1 hpairwise
      obtain ⟨hbound, hbounds⟩ := List.forall_mem_cons.1 hbounds
      have hlater : ∀ position ∈ rest, first + 1 ≤ position ∧ position < size :=
        fun position hmem => ⟨hfirst position hmem, (hbounds position hmem).2⟩
      have hlength := ih hpairwise hlater
      rw [List.length_cons]
      omega

end Bnf.Matching
