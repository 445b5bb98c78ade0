/-
  File:      ReflectionFlow/Proofs/Flow/Budget.lean
  Subject:   A budget of visits decides whether an iteration ends and nothing else.

  Iterations with different budgets make the same visits in the same order, and the smaller budget
  stops earlier.  So an iteration is seen here as a run of visits of the block that waits longest.
  The run ends when no block waits, or with the first visit whose transfer fails; where it ends does
  not depend on the budget, and the budget has to reach that far, a visit more or less.

  * `Advances`              so many visits lead from one point of an iteration to another
  * `Advances.iterate_add`, `Advances.exhausts`   a budget that reaches the end, and one that does not
  * `Advances.of_answer`, `Advances.of_fault`     where an iteration ended
  * `FailsAt`               the visit that fails, by its number
  * `solve_budget_exact`
-/
import ReflectionFlow.Proofs.Flow.Solution

namespace ReflectionFlow

open MeetLattice

variable {L σ ε : Type} [MeetLattice L] [DecidableEq L]

/-! ## 1. Runs of visits -/

/-- **So many visits lead from one point of an iteration to another.**  All of them succeed, and each
    is of the block that waits longest. -/
inductive Advances (g : FlowGraph) (a : Analysis L σ ε) : Nat → Iteration L σ → Iteration L σ → Prop where
  | none (it : Iteration L σ) : Advances g a 0 it it
  | next {n block : Nat} {rest : List Nat} {it it' last : Iteration L σ} {observed : σ}
      (hq : it.queue = block :: rest)
      (hv : Iteration.visit g a { it with queue := rest } block = (.ok it', observed))
      (h : Advances g a n it' last) : Advances g a (n + 1) it last

/-- The next visit fails. -/
def Stuck (g : FlowGraph) (a : Analysis L σ ε) (it : Iteration L σ) (e : ε) : Prop :=
  ∃ block rest observed, it.queue = block :: rest ∧
    Iteration.visit g a { it with queue := rest } block = (.error e, observed)

/-- **The visit with a number fails**, and all visits before it succeed. -/
def FailsAt (g : FlowGraph) (a : Analysis L σ ε) (observed : σ) (k : Nat) (e : ε) : Prop :=
  ∃ n it, k = n + 1 ∧ Advances g a n (Iteration.start g observed) it ∧ Stuck g a it e

/-- The transfer function depends on block and input alone; it may fail. -/
def Analysis.Yields (a : Analysis L σ ε) (f : Nat → L → Except ε L) : Prop :=
  ∀ b x s, (a.transfer b x s).1 = f b x

variable {g : FlowGraph} {a : Analysis L σ ε} {budget n : Nat} {it last : Iteration L σ}

theorem visits_visit {it' : Iteration L σ} {block : Nat} {observed : σ}
    (h : it.visit g a block = (.ok it', observed)) : it'.visits = it.visits + 1 := by
  cases Visited.of_visit h with
  | passed => rfl
  | confirmed => rfl
  | changed => rfl

/-- Every visit is counted, also one that passes over a block. -/
theorem Advances.visits_eq (h : Advances g a n it last) : last.visits = it.visits + n := by
  induction h with
  | none => rfl
  | next hq hv _ ih =>
      have hone := visits_visit hv
      dsimp only at hone
      omega

/-! ## 2. Budgets -/

theorem iterate_next {fuel block : Nat} {rest : List Nat} {it' : Iteration L σ} {observed : σ}
    (hq : it.queue = block :: rest)
    (hv : Iteration.visit g a { it with queue := rest } block = (.ok it', observed)) :
    iterate g a budget (fuel + 1) it = iterate g a budget fuel it' := by
  rw [iterate]
  simp only [hq, hv]

theorem iterate_idle {fuel : Nat} (hq : it.queue = []) :
    iterate g a budget fuel it = (.ok ⟨it.inputs, it.outputs, it.visits⟩, it.observed) := by
  rw [iterate]
  simp only [hq]

theorem iterate_zero (hq : it.queue ≠ []) :
    iterate g a budget 0 it = (.error (.exhausted budget), it.observed) := by
  rw [iterate]
  cases h : it.queue with
  | nil => exact absurd h hq
  | cons block rest => rfl

theorem Stuck.waits {e : ε} (h : Stuck g a it e) : it.queue ≠ [] := by
  obtain ⟨block, rest, _, hq, _⟩ := h
  rw [hq]
  exact List.cons_ne_nil block rest

theorem Stuck.iterate {fuel : Nat} {e : ε} (h : Stuck g a it e) :
    (iterate g a budget (fuel + 1) it).1 = .error (.transfer e) := by
  obtain ⟨block, rest, observed, hq, hv⟩ := h
  rw [ReflectionFlow.iterate]
  simp only [hq, hv]

/-- **A budget that reaches a point goes on from there.** -/
theorem Advances.iterate_add (h : Advances g a n it last) (fuel : Nat) :
    iterate g a budget (n + fuel) it = iterate g a budget fuel last := by
  induction h with
  | none => rw [Nat.zero_add]
  | next hq hv _ ih => rw [Nat.add_right_comm, iterate_next hq hv, ih]

/-- **A budget that does not reach a point is used up before it.** -/
theorem Advances.exhausts (h : Advances g a n it last) {fuel : Nat} (hfuel : fuel < n) :
    (iterate g a budget fuel it).1 = .error (.exhausted budget) := by
  induction h generalizing fuel with
  | none => exact absurd hfuel (Nat.not_lt_zero fuel)
  | next hq hv _ ih =>
      cases fuel with
      | zero =>
          rw [iterate_zero (by rw [hq]; exact List.cons_ne_nil _ _)]
      | succ fuel =>
          rw [iterate_next hq hv]
          exact ih (Nat.lt_of_succ_lt_succ hfuel)

/-- What a run of visits that ends without waiting blocks gives for each budget, -/
theorem Advances.iterate_idle_eq (h : Advances g a n it last) (hq : last.queue = []) (fuel : Nat) :
    (iterate g a budget fuel it).1 =
      if n ≤ fuel then .ok ⟨last.inputs, last.outputs, last.visits⟩
      else .error (.exhausted budget) := by
  split
  · next hle =>
    obtain ⟨extra, rfl⟩ := Nat.exists_eq_add_of_le hle
    rw [h.iterate_add, iterate_idle hq]
  · next hlt => exact h.exhausts (Nat.lt_of_not_le hlt)

/-- and what a run gives that ends with a visit that fails. -/
theorem Advances.iterate_stuck_eq {e : ε} (h : Advances g a n it last) (hstuck : Stuck g a last e)
    (fuel : Nat) : (iterate g a budget fuel it).1 =
      if n + 1 ≤ fuel then .error (.transfer e) else .error (.exhausted budget) := by
  split
  · next hle =>
    obtain ⟨extra, rfl⟩ := Nat.exists_eq_add_of_le hle
    rw [Nat.add_assoc, Nat.add_comm 1, h.iterate_add, hstuck.iterate]
  · next hlt =>
    by_cases heq : fuel = n
    · have hreach : iterate g a budget n it = iterate g a budget 0 last := h.iterate_add 0
      rw [heq, hreach, iterate_zero hstuck.waits]
    · exact h.exhausts (by omega)

/-! ## 3. Where an iteration ends -/

/-- **An answer is what a run of visits ended with**, and the run is as long as the answer says. -/
theorem Advances.of_answer {fuel : Nat} {solution : Solution L}
    (h : (iterate g a budget fuel it).1 = .ok solution) :
    ∃ n last, Advances g a n it last ∧ last.queue = [] ∧
      solution = ⟨last.inputs, last.outputs, last.visits⟩ := by
  induction fuel generalizing it with
  | zero =>
      by_cases hq : it.queue = []
      · rw [iterate_idle hq] at h
        exact ⟨0, it, .none it, hq, (Except.ok.inj h).symm⟩
      · rw [iterate_zero hq] at h
        cases h
  | succ fuel ih =>
      cases hq : it.queue with
      | nil =>
          rw [iterate_idle hq] at h
          exact ⟨0, it, .none it, hq, (Except.ok.inj h).symm⟩
      | cons block rest =>
          rcases hv : Iteration.visit g a { it with queue := rest } block with ⟨e | it', observed⟩
          · rw [Stuck.iterate ⟨block, rest, observed, hq, hv⟩] at h
            cases h
          · rw [iterate_next hq hv] at h
            obtain ⟨n, last, hrun, hidle, rfl⟩ := ih h
            exact ⟨n + 1, last, .next hq hv hrun, hidle, rfl⟩

/-- **A fault is that of a visit.** -/
theorem Advances.of_fault {fuel : Nat} {e : ε}
    (h : (iterate g a budget fuel it).1 = .error (.transfer e)) :
    ∃ n last, Advances g a n it last ∧ Stuck g a last e := by
  induction fuel generalizing it with
  | zero =>
      by_cases hq : it.queue = []
      · rw [iterate_idle hq] at h
        cases h
      · rw [iterate_zero hq] at h
        cases h
  | succ fuel ih =>
      cases hq : it.queue with
      | nil =>
          rw [iterate_idle hq] at h
          cases h
      | cons block rest =>
          rcases hv : Iteration.visit g a { it with queue := rest } block with ⟨e' | it', observed⟩
          · have hstuck : Stuck g a it e' := ⟨block, rest, observed, hq, hv⟩
            rw [hstuck.iterate] at h
            obtain rfl : e' = e := by simpa using h
            exact ⟨0, it, .none it, hstuck⟩
          · rw [iterate_next hq hv] at h
            obtain ⟨n, last, hrun, hstuck⟩ := ih h
            exact ⟨n + 1, last, .next hq hv hrun, hstuck⟩

/-- What an analysis has observed before does not matter. -/
theorem Analysis.Yields.solve_eq {f : Nat → L → Except ε L} (ha : a.Yields f) (budget : Nat)
    (s s' : σ) : (solve g a budget s').1 = (solve g a budget s).1 := by
  have hsame : ∀ b x t t', (fun _ _ : σ => True) t t' →
      (a.transfer b x t).1 = (a.transfer b x t').1 ∧ True := fun b x t t' _ =>
    ⟨(ha b x t).trans (ha b x t').symm, trivial⟩
  exact (solve_congr hsame trivial).1

/-- **A budget is exact.**  An answer is found with every budget that reaches its number of visits
    and with no smaller one.  A transfer that fails does so at one visit, and every budget that
    reaches it ends in that fault, while every smaller one is used up. -/
theorem solve_budget_exact {f : Nat → L → Except ε L} (ha : a.Yields f) (budget : Nat) (s : σ) :
    (∀ solution, (solve g a budget s).1 = .ok solution → ∀ m s', (solve g a m s').1 =
      if solution.visits ≤ m then .ok solution else .error (.exhausted m)) ∧
    ∀ e, (solve g a budget s).1 = .error (.transfer e) →
      (∃ k, FailsAt g a s k e) ∧ ∀ k, FailsAt g a s k e → ∀ m s', (solve g a m s').1 =
        if k ≤ m then .error (.transfer e) else .error (.exhausted m) := by
  refine ⟨fun solution h m s' => ?_, fun e h => ⟨?_, ?_⟩⟩
  · obtain ⟨n, last, hrun, hidle, rfl⟩ := Advances.of_answer h
    have hvisits : last.visits = n := hrun.visits_eq.trans (Nat.zero_add n)
    rw [ha.solve_eq m s s']
    unfold solve
    rw [hrun.iterate_idle_eq hidle, hvisits]
  · obtain ⟨n, last, hrun, hstuck⟩ := Advances.of_fault h
    exact ⟨n + 1, n, last, rfl, hrun, hstuck⟩
  · rintro k ⟨n, last, rfl, hrun, hstuck⟩ m s'
    rw [ha.solve_eq m s s']
    exact hrun.iterate_stuck_eq hstuck m

namespace PathLength

/-- Counts blocks from the entry, and fails with the number of the block where the count comes to a
    limit. -/
def limited (limit : Nat) : Analysis PathLength Unit Nat where
  boundary := [(0, ⟨some 0⟩)]
  transfer b x s := (if x.steps = some limit then .error b else .ok (x.next limit), s)

end PathLength

/-- In a graph with a loop the longest ways are found with seven visits and no fewer, and a count that
    is limited to three fails at the sixth visit, in the loop. -/
theorem loopGraph_budget :
    (∀ m, (solve PathLength.loopGraph (PathLength.analysis 4) m ()).1 =
      if 7 ≤ m then
        .ok ⟨[⟨some 1⟩, ⟨some 4⟩, ⟨none⟩, ⟨some 4⟩], [⟨some 2⟩, ⟨some 4⟩, ⟨none⟩, ⟨some 4⟩], 7⟩
      else .error (.exhausted m)) ∧
    FailsAt PathLength.loopGraph (PathLength.limited 3) () 6 1 ∧
    ∀ m, (solve PathLength.loopGraph (PathLength.limited 3) m ()).1 =
      if 6 ≤ m then .error (.transfer 1) else .error (.exhausted m) := by
  have hanswer := (solve_budget_exact (f := fun _ x => .ok (x.next 4)) (fun _ _ _ => rfl) 20 ()).1 _
    PathLength.solve_loopGraph
  have hfault := (solve_budget_exact (g := PathLength.loopGraph) (a := PathLength.limited 3)
    (f := fun b x => if x.steps = some 3 then .error b else .ok (x.next 3)) (fun _ _ _ => rfl)
    20 ()).2 1 rfl
  obtain ⟨⟨k, hk⟩, hevery⟩ := hfault
  -- five visits are too few and six are enough
  have hfive : ¬ k ≤ 5 := fun hle => by
    have hfails := hevery k hk 5 ()
    rw [if_pos hle] at hfails
    cases hfails
  have hsix : k ≤ 6 := by
    by_contra hgt
    have hfails := hevery k hk 6 ()
    rw [if_neg hgt] at hfails
    cases hfails
  obtain rfl : k = 6 := by omega
  exact ⟨fun m => hanswer m (), hk, fun m => hevery 6 hk m ()⟩

end ReflectionFlow
