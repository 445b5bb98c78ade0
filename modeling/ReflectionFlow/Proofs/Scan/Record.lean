/-
  File:      ReflectionFlow/Proofs/Scan/Record.lean
  Subject:   What is observed and returned, offset by offset.

  Interpreting an instruction notes things at the offset of the instruction only.  So the record
  that is kept from visit to visit falls apart by offsets: what is filed at one offset depends on
  what was filed there before, and dropping a range of offsets empties these and leaves the others
  as they are.

  * `Trace.NotesAt`              from one trace to another things are noted at one offset
  * `Trace.FlowsAt`              as stores do it, which note flows only
  * `Trace.Adds`, `Trace.AddsFlows`    what exactly is added, in order
  * `Scanner.notes_step`         as every instruction does it
  * `Scanner.offset_of_noted`    what a block notes, it notes at its instructions
  * `Progress.findings`          what is filed at an offset
  * `Progress.findings_file_congr`, `Progress.Sorted.ext`
-/
import ReflectionFlow.Proofs.Scan.Steps

namespace ReflectionFlow

/-! ## 1. Traces -/

/-- The called method of an observation satisfies a condition. -/
def Observation.Calls (M : MethodDef → Prop) : Observation → Prop
  | .call callee _ _ _ => M callee.method
  | _ => True

theorem Observation.calls_any (o : Observation) : o.Calls fun _ => True := by
  cases o <;> trivial

namespace Trace

/-- **From one trace to another things are noted at an offset**, and nowhere else.  Observed calls
    are of methods that satisfy a condition. -/
structure NotesAt (M : MethodDef → Prop) (offset : Nat) (t t' : Trace) : Prop where
  observed : ∀ e ∈ t'.observed, e ∈ t.observed ∨ e.1 = offset ∧ e.2.Calls M
  returned : ∀ e ∈ t'.returned, e ∈ t.returned ∨ e.1 = offset

variable {M : MethodDef → Prop} {offset : Nat} {t u : Trace}

theorem notes_self (offset : Nat) (t : Trace) : NotesAt M offset t t :=
  ⟨fun _ => Or.inl, fun _ => Or.inl⟩

/-- The state does not matter. -/
theorem NotesAt.withState (h : NotesAt M offset t u) (state : State) :
    NotesAt M offset t { u with state := state } :=
  ⟨h.observed, h.returned⟩

theorem NotesAt.push (h : NotesAt M offset t u) (v : ValueSet) : NotesAt M offset t (u.push v) :=
  h.withState _

theorem NotesAt.observe (h : NotesAt M offset t u) (o : Observation) (ho : o.Calls M) :
    NotesAt M offset t (u.observe offset o) := by
  refine ⟨fun e he => ?_, h.returned⟩
  rcases List.mem_append.mp he with he | he
  · exact h.observed e he
  · obtain rfl := List.mem_singleton.mp he
    exact Or.inr ⟨rfl, ho⟩

theorem NotesAt.yielding (h : NotesAt M offset t u) (v : ValueSet) :
    NotesAt M offset t (u.yielding offset v) := by
  refine ⟨h.observed, fun e he => ?_⟩
  rcases List.mem_append.mp he with he | he
  · exact h.returned e he
  · exact Or.inr (List.mem_singleton.mp he ▸ rfl)

theorem NotesAt.pop (h : NotesAt M offset t u) : NotesAt M offset t (u.pop offset).2 := by
  rcases u.pop_cases offset with ⟨_, _, _, hp⟩ | ⟨_, hp⟩
  · rw [hp]
    exact h.withState _
  · rw [hp]
    exact h.observe _ trivial

theorem NotesAt.popMany (h : NotesAt M offset t u) (count : Nat) :
    NotesAt M offset t (u.popMany offset count).2 := by
  induction count generalizing u with
  | zero => exact h
  | succ count ih => exact ih h.pop

theorem NotesAt.drop (h : NotesAt M offset t u) (count : Nat) :
    NotesAt M offset t (u.drop offset count) := h.popMany count

/-- **From one trace to another only flows into annotated places are noted**, at an offset. -/
structure FlowsAt (offset : Nat) (t t' : Trace) : Prop where
  observed : ∀ e ∈ t'.observed, e ∈ t.observed ∨
    e.1 = offset ∧ ∃ values required place, e.2 = .assignment values required place
  returned : t'.returned = t.returned

/-- From one trace to another these observations are added, all of them at one offset. -/
def Adds (offset : Nat) (os : List Observation) (t t' : Trace) : Prop :=
  t'.observed = t.observed ++ os.map (offset, ·)

theorem adds_self (offset : Nat) (t : Trace) : Adds offset [] t t := (List.append_nil _).symm

theorem Adds.trans {os os' : List Observation} {w : Trace} (h : Adds offset os t u)
    (h' : Adds offset os' u w) : Adds offset (os ++ os') t w := by
  unfold Adds at *
  rw [h', h, List.map_append, List.append_assoc]

theorem adds_observe (t : Trace) (offset : Nat) (o : Observation) :
    Adds offset [o] t (t.observe offset o) := rfl

/-- **Flows into annotated places are added**, one after the other. -/
structure AddsFlows (offset : Nat) (t t' : Trace) : Prop where
  observed : ∃ os, Adds offset os t t' ∧
    ∀ o ∈ os, ∃ values required place, o = .assignment values required place
  returned : t'.returned = t.returned

theorem addsFlows_self (offset : Nat) (t : Trace) : AddsFlows offset t t :=
  ⟨⟨[], adds_self offset t, fun _ h => absurd h List.not_mem_nil⟩, rfl⟩

theorem AddsFlows.trans {w : Trace} (h : AddsFlows offset t u) (h' : AddsFlows offset u w) :
    AddsFlows offset t w := by
  obtain ⟨os, hadds, hos⟩ := h.observed
  obtain ⟨os', hadds', hos'⟩ := h'.observed
  refine ⟨⟨os ++ os', hadds.trans hadds', fun o ho => ?_⟩, h'.returned.trans h.returned⟩
  exact (List.mem_append.mp ho).elim (hos o) (hos' o)

theorem AddsFlows.withState (h : AddsFlows offset t u) (state : State) :
    AddsFlows offset t { u with state := state } :=
  ⟨h.observed, h.returned⟩

theorem addsFlows_observeFlow (t : Trace) (offset : Nat) (v : ValueSet) (need : Categories)
    (place : Place) : AddsFlows offset t (t.observeFlow offset v need place) := by
  unfold Trace.observeFlow
  split
  · exact addsFlows_self offset t
  · refine ⟨⟨[_], adds_observe t offset _, fun o ho => ?_⟩, rfl⟩
    exact ⟨_, _, _, List.mem_singleton.mp ho⟩

theorem AddsFlows.flows (h : AddsFlows offset t u) : FlowsAt offset t u := by
  obtain ⟨os, hadds, hos⟩ := h.observed
  refine ⟨fun e he => ?_, h.returned⟩
  rw [show u.observed = _ from hadds] at he
  rcases List.mem_append.mp he with he | he
  · exact Or.inl he
  · obtain ⟨o, ho, rfl⟩ := List.mem_map.mp he
    exact Or.inr ⟨rfl, hos o ho⟩

/-- A flow is noted like anything else. -/
theorem NotesAt.flows {w : Trace} (h : NotesAt M offset t u) (h' : FlowsAt offset u w) :
    NotesAt M offset t w := by
  constructor
  · intro e he
    rcases h'.observed e he with he | ⟨hoffset, v, need, place, hassign⟩
    · exact h.observed e he
    · exact Or.inr ⟨hoffset, hassign ▸ trivial⟩
  · intro e he
    exact h.returned e (h'.returned ▸ he)

end Trace

namespace Scanner

open Trace

variable {sc : Scanner} {M : MethodDef → Prop} {offset : Nat} {t u : Trace}

/-! ## 2. Stores -/

theorem addsFlows_storeArgument (sc : Scanner) (offset : Nat) (n : UInt16) (v : ValueSet)
    (certain : Bool) (t : Trace) : AddsFlows offset t (sc.storeArgument offset n v certain t) := by
  have hobserve : AddsFlows offset t (sc.observeArgument offset n v t) := by
    unfold observeArgument
    split
    · exact addsFlows_observeFlow t offset _ _ _
    · split
      · exact addsFlows_observeFlow t offset _ _ _
      · exact addsFlows_self offset t
  exact hobserve.withState _

theorem addsFlows_storeField (sc : Scanner) (offset : Nat) (f : Token) (v : ValueSet) (t : Trace) :
    AddsFlows offset t (sc.storeField offset f v t) := by
  unfold storeField
  split
  · exact addsFlows_observeFlow t offset _ _ _
  · exact addsFlows_self offset t

theorem addsFlows_storeVersions (sc : Scanner) (offset block : Nat) (versions : List ArrayValue)
    (index : Option Int32) (v : ValueSet) (t : Trace) :
    AddsFlows offset t (sc.storeVersions block versions index v t) := by
  unfold storeVersions
  split
  · exact addsFlows_self offset t
  · exact (addsFlows_self offset t).withState _

theorem addsFlows_storeElement (sc : Scanner) (offset block : Nat) (array index v : ValueSet)
    (t : Trace) : AddsFlows offset t (sc.storeElement block array index v t) :=
  List.foldlRecOn (motive := AddsFlows offset t) _ _ (addsFlows_self offset t) fun u hu _ _ =>
    hu.trans (sc.addsFlows_storeVersions offset block _ _ v u)

theorem addsFlows_write (sc : Scanner) (block offset : Nat) (v : ValueSet) (certain : Bool)
    (t : Trace) (l : Location) :
    AddsFlows offset t (sc.write block offset v certain t l) := by
  cases l with
  | loc n => exact (addsFlows_self offset t).withState _
  | arg n => exact sc.addsFlows_storeArgument offset n v certain t
  | this => exact sc.addsFlows_storeArgument offset 0 v certain t
  | field f => exact sc.addsFlows_storeField offset f v t
  | element site index => exact sc.addsFlows_storeVersions offset block _ index v t
  | parameterTarget n => exact addsFlows_observeFlow t offset _ _ _
  | returnSlot m => exact addsFlows_self offset t

theorem addsFlows_storeThrough (sc : Scanner) (block offset : Nat) (address v : ValueSet)
    (t : Trace) : AddsFlows offset t (sc.storeThrough block offset address v t) := by
  refine List.foldlRecOn (motive := AddsFlows offset t) _ _ (addsFlows_self offset t)
    fun u hu w _ => ?_
  split
  · exact hu.trans (sc.addsFlows_write block offset v _ u _)
  · exact hu

theorem addsFlows_writeBack (sc : Scanner) (block offset : Nat) (callee : MethodRef) (needs : Needs)
    (operands : List ValueSet) (t : Trace) :
    AddsFlows offset t (sc.writeBack block offset callee needs operands t) := by
  refine List.foldlRecOn (motive := AddsFlows offset t) _ _ (addsFlows_self offset t)
    fun u hu e _ => ?_
  obtain ⟨⟨param, address⟩, index⟩ := e
  show AddsFlows offset t (if _ then _ else u)
  split
  · exact hu.trans (sc.addsFlows_storeThrough block offset _ _ u)
  · exact hu

/-! ## 3. Instructions -/

theorem notes_stepReturn (i : Instruction) (t : Trace) : NotesAt M i.offset t (sc.stepReturn i t) := by
  have hclear : ∀ {u : Trace}, NotesAt M i.offset t u →
      NotesAt M i.offset t (if u.state.stack.fromTop.isEmpty then u
        else u.observe i.offset (.fault .stackNotEmpty)).clear := by
    intro u hu
    split
    · exact hu.withState _
    · exact (hu.observe (.fault .stackNotEmpty) trivial).withState _
  unfold stepReturn
  refine hclear ?_
  split
  · exact notes_self i.offset t
  · exact ((notes_self i.offset t).pop.flows (addsFlows_observeFlow _ i.offset _ _ _).flows).yielding _

/-- An instruction that is neither a call nor loads a token notes things at its offset. -/
theorem notes_stepLocal (block : Nat) (i : Instruction) (t : Trace) (role : Role) :
    NotesAt M i.offset t (sc.stepLocal block i t role) := by
  have h : NotesAt M i.offset t t := notes_self i.offset t
  have hpop := h.pop
  cases role with
  | consume pops leavesResult =>
      cases leavesResult with
      | false => exact h.drop pops
      | true => exact (h.drop pops).push _
  | unwind pops => exact (h.drop pops).withState _
  | duplicate => exact (hpop.push _).push _
  | loadArgument =>
      show NotesAt M i.offset t (sc.stepLoadArgument i t)
      unfold stepLoadArgument
      split
      · exact h.push _
      · exact (h.observe (.fault .missingArgument) trivial).push _
  | argumentAddress => exact h.push _
  | storeArgument =>
      show NotesAt M i.offset t (sc.stepStoreArgument i t)
      rw [stepStoreArgument_eq]
      split
      · exact hpop.flows (sc.addsFlows_storeArgument _ _ _ _ _).flows
      · exact hpop.observe _ trivial
  | loadLocal => exact h.push _
  | localAddress => exact h.push _
  | storeLocal =>
      show NotesAt M i.offset t (sc.stepStoreLocal i t)
      rw [stepStoreLocal_eq]
      split
      · exact hpop.withState _
      · exact hpop.observe _ trivial
  | loadNull => exact h.push _
  | loadInt => exact h.push _
  | loadString => exact h.push _
  | loadToken => exact h
  | call => exact h
  | construct => exact h
  | callIndirect => exact h
  | ret => exact notes_stepReturn i t
  | loadIndirect => exact hpop.push _
  | storeIndirect => exact hpop.pop.flows (sc.addsFlows_storeThrough block _ _ _ _).flows
  | clearIndirect => exact hpop.flows (sc.addsFlows_storeThrough block _ _ _ _).flows
  | box => exact hpop.push _
  | cast =>
      show NotesAt M i.offset t (sc.stepCast i t)
      rw [stepCast_eq]
      split
      · exact (hpop.observe (.cast _ _) trivial).push _
      · exact hpop.push _
  | loadField ofInstance => exact (h.drop _).push _
  | fieldAddress ofInstance => exact (h.drop _).push _
  | storeField ofInstance =>
      show NotesAt M i.offset t (sc.stepStoreField i ofInstance t)
      rw [stepStoreField_eq]
      split
      · exact (hpop.drop _).flows (sc.addsFlows_storeField _ _ _ _).flows
      · exact hpop.drop _
  | newArray => exact hpop.push _
  | arrayLength => exact hpop.push _
  | elementAddress => exact hpop.pop.push _
  | loadElement => exact hpop.pop.push _
  | storeElement => exact hpop.pop.pop.flows (sc.addsFlows_storeElement _ block _ _ _ _).flows

theorem notes_takeOperands (h : NotesAt M offset t u) (callee : MethodRef) (constructs : Bool) :
    NotesAt M offset t (sc.takeOperands offset callee constructs u).2.2 := by
  have hmany := h.popMany callee.instantiated.params.length
  unfold takeOperands
  cases constructs with
  | true => exact hmany
  | false =>
      cases hthis : callee.method.hasThis with
      | true => exact hmany.pop
      | false => exact hmany

theorem notes_leave (h : NotesAt M offset t u) (callee : MethodRef) (constructs : Bool)
    (returned : ValueSet) : NotesAt M offset t (leave callee constructs returned u) := by
  unfold leave
  split
  · exact h.push _
  · exact h

theorem notes_opaqueCall (i : Instruction) (role : Role) (t : Trace) :
    NotesAt M i.offset t (sc.opaqueCall i role t) := by
  have h : NotesAt M i.offset t _ := (notes_self i.offset t).drop (role == .callIndirect).toNat
  unfold opaqueCall
  dsimp only
  split
  · next sig _ =>
    have hdrop := h.drop (if (role == .construct) = true then sig.params.length else sig.stackArguments)
    split
    · exact hdrop.push _
    · exact hdrop
  · have hclear := (h.observe (.fault (.unresolvedCall i)) trivial).withState
      { ((t.drop i.offset (role == .callIndirect).toNat).observe i.offset
          (.fault (.unresolvedCall i))).state with stack := .empty }
    split
    · exact hclear.push _
    · exact hclear

/-- **An instruction notes things at its offset**, and calls what its operand refers to. -/
theorem notes_step (hM : sc.context.Refers M) {block : Nat} {i : Instruction} {t t' : Trace}
    {session session' : Session}
    (h : (sc.step block i t).run session = (.ok t', session')) : NotesAt M i.offset t t' := by
  have hself : NotesAt M i.offset t t := notes_self i.offset t
  have hcall : ∀ {role : Role},
      (sc.stepCall block i role t).run session = (.ok t', session') → NotesAt M i.offset t t' := by
    intro role h
    unfold stepCall at h
    split at h
    · next callee hcallee =>
      obtain ⟨returned, needs, intrinsic, rfl⟩ := call_inv h
      refine NotesAt.observe ?_ _ (target?_refers hM hcallee)
      exact (notes_leave (notes_takeOperands hself callee _) callee _ returned).flows
        (sc.addsFlows_writeBack block _ callee needs _ _).flows
    · obtain ⟨ht, _⟩ := Prod.mk.inj h
      obtain rfl := Except.ok.inj ht
      exact notes_opaqueCall i role t
  unfold step at h
  split at h
  · obtain ⟨ht, _⟩ := Prod.mk.inj h
    obtain rfl := Except.ok.inj ht
    exact hself.push _
  · exact hcall h
  · exact hcall h
  · exact hcall h
  · obtain ⟨ht, _⟩ := Prod.mk.inj h
    obtain rfl := Except.ok.inj ht
    exact notes_stepLocal block i t _

/-- **Code notes things at its instructions.** -/
theorem offset_of_noted (hM : sc.context.Refers M) {block : Nat} {code : List Instruction}
    {t t' : Trace} {session session' : Session}
    (h : (sc.steps block code t).run session = (.ok t', session')) :
    (∀ e ∈ t'.observed, e ∈ t.observed ∨ (∃ i ∈ code, e.1 = i.offset) ∧ e.2.Calls M) ∧
    (∀ e ∈ t'.returned, e ∈ t.returned ∨ ∃ i ∈ code, e.1 = i.offset) := by
  induction code generalizing t session with
  | nil =>
      obtain ⟨ht, _⟩ := Prod.mk.inj h
      obtain rfl := Except.ok.inj ht
      exact ⟨fun _ => Or.inl, fun _ => Or.inl⟩
  | cons i rest ih =>
      obtain ⟨u, session₁, hstep, hrest⟩ := steps_cons_inv h
      have hnotes := notes_step hM hstep
      obtain ⟨hobserved, hreturned⟩ := ih hrest
      constructor
      · intro e he
        rcases hobserved e he with he | ⟨⟨j, hj, he⟩, hcalls⟩
        · exact (hnotes.observed e he).imp id fun he => ⟨⟨i, List.mem_cons_self, he.1⟩, he.2⟩
        · exact Or.inr ⟨⟨j, List.mem_cons_of_mem _ hj, he⟩, hcalls⟩
      · intro e he
        rcases hreturned e he with he | ⟨j, hj, he⟩
        · exact (hnotes.returned e he).imp id fun he => ⟨i, List.mem_cons_self, he⟩
        · exact Or.inr ⟨j, List.mem_cons_of_mem _ hj, he⟩

end Scanner

/-! ## 4. The record -/

/-- What is left at an offset when a range is dropped: nothing inside it, everything outside. -/
theorem filter_outside {β : Type} (position : β → Nat) (l : List β) (first last o : Nat) :
    (l.filter fun e => !(first ≤ position e && position e ≤ last)).filter
        (fun e => position e == o) =
      if first ≤ o ∧ o ≤ last then [] else l.filter fun e => position e == o := by
  rw [List.filter_filter]
  split
  · next h =>
    refine List.filter_eq_nil_iff.mpr fun e _ => ?_
    simp only [Bool.and_eq_true, beq_iff_eq, Bool.not_eq_true', Bool.and_eq_false_iff,
      decide_eq_false_iff_not]
    omega
  · next h =>
    refine List.filter_congr fun e _ => ?_
    rw [Bool.eq_iff_iff]
    simp only [Bool.and_eq_true, beq_iff_eq, Bool.not_eq_true', Bool.and_eq_false_iff,
      decide_eq_false_iff_not]
    omega

namespace ObservationLog

variable {α : Type} {log log' : ObservationLog α}

/-- What is noted at an offset, in order. -/
def entriesAt (log : ObservationLog α) (offset : Nat) : Assoc (Nat × Nat) α :=
  log.entries.filter fun e => e.1.1 == offset

/-- **Dropping a range empties the offsets in it and leaves the others alone.** -/
theorem entriesAt_forget (log : ObservationLog α) (first last o : Nat) :
    (log.forget first last).entriesAt o =
      if first ≤ o ∧ o ≤ last then [] else log.entriesAt o :=
  filter_outside (fun e : (Nat × Nat) × α => e.1.1) log.entries first last o

theorem entriesAt_record_of_ne (h : log.entries.Keyed) {offset o : Nat} (hne : o ≠ offset) (a : α) :
    (log.record offset a).entriesAt o = log.entriesAt o :=
  h.filter_insert_of_not (p := fun k => k.1 == o) (by simpa using hne.symm)

theorem entriesAt_record (h : log.entries.Keyed) (offset : Nat) (a : α) :
    (log.record offset a).entriesAt offset =
      Assoc.insert (log.entriesAt offset) (offset, log.nextSlot offset) a :=
  h.filter_insert (p := fun k => k.1 == offset) (beq_self_eq_true offset)

/-- The next place at an offset depends on what is there. -/
theorem nextSlot_congr {offset : Nat} (h : log.entriesAt offset = log'.entriesAt offset) :
    log.nextSlot offset = log'.nextSlot offset := by
  unfold nextSlot
  unfold entriesAt at h
  rw [h]

theorem entriesAt_record_congr (h : log.entries.Keyed) (h' : log'.entries.Keyed) {o : Nat}
    (ho : log.entriesAt o = log'.entriesAt o) (offset : Nat) (a : α) :
    (log.record offset a).entriesAt o = (log'.record offset a).entriesAt o := by
  by_cases hne : o = offset
  · subst hne
    rw [entriesAt_record h, entriesAt_record h', ho, nextSlot_congr ho]
  · rw [entriesAt_record_of_ne h hne, entriesAt_record_of_ne h' hne, ho]

theorem entriesAt_foldl_congr (h : log.entries.Keyed) (h' : log'.entries.Keyed) {o : Nat}
    (ho : log.entriesAt o = log'.entriesAt o) (l : List (Nat × α)) :
    (l.foldl (fun log e => log.record e.1 e.2) log).entriesAt o =
      (l.foldl (fun log e => log.record e.1 e.2) log').entriesAt o := by
  induction l generalizing log log' with
  | nil => exact ho
  | cons e l ih =>
      exact ih (h.insert _ _) (h'.insert _ _) (entriesAt_record_congr h h' ho e.1 e.2)

end ObservationLog

namespace Progress

/-- **What is filed at an offset.** -/
def findings (p : Progress) (offset : Nat) : Assoc (Nat × Nat) Observation × Assoc Nat ValueSet :=
  (p.log.entriesAt offset, p.returns.filter fun e => e.1 == offset)

/-- The record is in order. -/
structure Sorted (p : Progress) : Prop where
  log : p.log.entries.Keyed
  returns : p.returns.Keyed

variable {p q : Progress}

theorem mem_findings_log {e : (Nat × Nat) × Observation} :
    e ∈ (p.findings e.1.1).1 ↔ e ∈ p.log.entries := by
  show e ∈ p.log.entries.filter _ ↔ _
  rw [List.mem_filter, beq_self_eq_true, and_iff_left rfl]

theorem mem_findings_returns {e : Nat × ValueSet} : e ∈ (p.findings e.1).2 ↔ e ∈ p.returns := by
  show e ∈ p.returns.filter _ ↔ _
  rw [List.mem_filter, beq_self_eq_true, and_iff_left rfl]

theorem Sorted.forget (h : p.Sorted) (first last : Nat) : (p.forget first last).Sorted :=
  ⟨h.log.filter _, h.returns.filter _⟩

theorem keyed_foldl_record {log : ObservationLog Observation} (h : log.entries.Keyed)
    (l : List (Nat × Observation)) :
    (l.foldl (fun log e => log.record e.1 e.2) log).entries.Keyed :=
  List.foldlRecOn (motive := fun log : ObservationLog Observation => log.entries.Keyed) l _ h
    fun _ h _ _ => h.insert _ _

theorem keyed_foldl_insert {m : Assoc Nat ValueSet} (h : m.Keyed) (l : List (Nat × ValueSet)) :
    (l.foldl (fun m e => m.insert e.1 e.2) m).Keyed :=
  List.foldlRecOn (motive := Assoc.Keyed) l _ h fun _ h _ _ => h.insert _ _

theorem Sorted.file (h : p.Sorted) (t : Trace) : (p.file t).Sorted :=
  ⟨keyed_foldl_record h.log _, keyed_foldl_insert h.returns _⟩

/-- **A record in order is determined by what is filed at each offset.** -/
theorem Sorted.ext (hp : p.Sorted) (hq : q.Sorted) (h : ∀ offset, p.findings offset = q.findings offset) :
    p.log = q.log ∧ p.returns = q.returns := by
  constructor
  · have : p.log.entries = q.log.entries := by
      refine hp.log.ext_mem hq.log fun e => ?_
      rw [← mem_findings_log, ← mem_findings_log, h e.1.1]
    obtain ⟨_, ⟨_⟩, _⟩ := p
    obtain ⟨_, ⟨_⟩, _⟩ := q
    exact congrArg ObservationLog.mk this
  · refine hp.returns.ext_mem hq.returns fun e => ?_
    rw [← mem_findings_returns, ← mem_findings_returns, h e.1]

theorem findings_forget (p : Progress) (first last offset : Nat) :
    (p.forget first last).findings offset =
      if first ≤ offset ∧ offset ≤ last then ([], []) else p.findings offset := by
  have hreturns := filter_outside (fun e : Nat × ValueSet => e.1) p.returns first last offset
  show (_, _) = _
  rw [show (p.forget first last).log = p.log.forget first last from rfl,
    ObservationLog.entriesAt_forget, show (p.forget first last).returns.filter _ = _ from hreturns]
  split <;> rfl

theorem findings_forget_inside {first last offset : Nat} (hf : first ≤ offset) (hl : offset ≤ last) :
    (p.forget first last).findings offset = ([], []) := by
  rw [findings_forget, if_pos ⟨hf, hl⟩]

theorem findings_forget_outside {first last offset : Nat} (h : ¬ (first ≤ offset ∧ offset ≤ last)) :
    (p.forget first last).findings offset = p.findings offset := by
  rw [findings_forget, if_neg h]

/-- **Filing leaves offsets alone at which nothing is noted.** -/
theorem findings_file_of_not_noted (hp : p.Sorted) {t : Trace} {offset : Nat}
    (hobserved : ∀ e ∈ t.observed, e.1 ≠ offset) (hreturned : ∀ e ∈ t.returned, e.1 ≠ offset) :
    (p.file t).findings offset = p.findings offset := by
  unfold findings file
  simp only [Prod.mk.injEq]
  constructor
  · have h := List.foldlRecOn (motive := fun log : ObservationLog Observation =>
      log.entries.Keyed ∧ log.entriesAt offset = p.log.entriesAt offset) t.observed
      (fun log e => log.record e.1 e.2) ⟨hp.log, rfl⟩ fun log h e he =>
        ⟨h.1.insert _ _, (ObservationLog.entriesAt_record_of_ne h.1 (hobserved e he).symm e.2).trans h.2⟩
    exact h.2
  · have h := List.foldlRecOn (motive := fun m : Assoc Nat ValueSet =>
      m.Keyed ∧ m.filter (fun e => e.1 == offset) = p.returns.filter fun e => e.1 == offset)
      t.returned (fun m e => m.insert e.1 e.2) ⟨hp.returns, rfl⟩ fun m h e he =>
        ⟨h.1.insert _ _, (h.1.filter_insert_of_not (p := fun k => k == offset)
          (by simpa using hreturned e he)).trans h.2⟩
    exact h.2

theorem filter_foldl_congr {m m' : Assoc Nat ValueSet} (h : m.Keyed) (h' : m'.Keyed) {o : Nat}
    (ho : m.filter (fun e => e.1 == o) = m'.filter fun e => e.1 == o) (l : List (Nat × ValueSet)) :
    (l.foldl (fun m e => m.insert e.1 e.2) m).filter (fun e => e.1 == o) =
      (l.foldl (fun m e => m.insert e.1 e.2) m').filter fun e => e.1 == o := by
  induction l generalizing m m' with
  | nil => exact ho
  | cons e l ih =>
      refine ih (h.insert _ _) (h'.insert _ _) ?_
      by_cases he : (e.1 == o) = true
      · rw [h.filter_insert (p := fun k => k == o) he, h'.filter_insert (p := fun k => k == o) he, ho]
      · have he := Bool.eq_false_iff.mpr he
        rw [h.filter_insert_of_not (p := fun k => k == o) he,
          h'.filter_insert_of_not (p := fun k => k == o) he, ho]

/-- **What is filed at an offset depends on what was filed there before.** -/
theorem findings_file_congr (hp : p.Sorted) (hq : q.Sorted) {offset : Nat}
    (h : p.findings offset = q.findings offset) (t : Trace) :
    (p.file t).findings offset = (q.file t).findings offset := by
  obtain ⟨hlog, hreturns⟩ := Prod.mk.inj h
  exact Prod.ext (ObservationLog.entriesAt_foldl_congr hp.log hq.log hlog t.observed)
    (filter_foldl_congr hp.returns hq.returns hreturns t.returned)

end Progress

end ReflectionFlow
