/-
  File:      ReflectionFlow/Proofs/Scan/Switches.lean
  Subject:   The switches of a session decide what is reported and nothing else.

  Two switches turn reports off: those of faults in code, and those of native methods that pass COM
  objects.  Interpreting code looks at neither of them, so iterations under any two settings are the
  same.  Observations are acted on under the switches, but the reports that depend on them are made
  by actions that ask the session nothing.  So two sessions that differ in such reports stay
  sessions that differ in such reports, and whatever is asked of them they answer alike.

  * `Context.switched`          the same method under other switches
  * `Context.iterate_switched`  it is iterated in the same way
  * `Session.Agrees`            sessions that differ in reports that switches turn off
  * `Act.Concurs`               actions that keep such sessions like that, with the same answer
  * `Store.analyze_switched`
-/
import ReflectionFlow.Proofs.Scan.Conduct

namespace ReflectionFlow

open Store

/-! ## 1. Iteration -/

/-- The same limits under other switches. -/
def Config.switched (config : Config) (reports checks : Bool) : Config :=
  { config with reportsInvalidCode := reports, checksInterop := checks }

/-- The same method under other switches. -/
def Context.switched (c : Context) (reports checks : Bool) : Context :=
  { c with config := c.config.switched reports checks }

namespace Scanner

/-- A scanner for the same method under other switches. -/
def switched (sc : Scanner) (reports checks : Bool) : Scanner :=
  { sc with context := sc.context.switched reports checks }

variable (sc : Scanner) (reports checks : Bool)

theorem stepLocal_switched (block : Nat) (i : Instruction) (t : Trace) (role : Role) :
    (sc.switched reports checks).stepLocal block i t role = sc.stepLocal block i t role := by
  cases role <;> rfl

/-- An instruction is interpreted without a look at the switches, -/
theorem step_switched (block : Nat) (i : Instruction) (t : Trace) :
    (sc.switched reports checks).step block i t = sc.step block i t := by
  unfold step
  split
  · rfl
  · rfl
  · rfl
  · rfl
  · rw [stepLocal_switched]

theorem steps_switched (block : Nat) (code : List Instruction) (t : Trace) :
    (sc.switched reports checks).steps block code t = sc.steps block code t := by
  induction code generalizing t with
  | nil => rfl
  | cons i rest ih =>
      unfold steps
      rw [step_switched]
      refine bind_congr fun result => ?_
      cases result with
      | error b => rfl
      | ok t => exact ih t

theorem transfer_switched (g : FlowGraph) (body : Body) :
    (sc.switched reports checks).transfer g body = sc.transfer g body := by
  funext block x p
  unfold transfer
  split
  · rfl
  · rw [steps_switched]

theorem analysis_switched (g : FlowGraph) (body : Body) :
    (sc.switched reports checks).analysis g body = sc.analysis g body := by
  unfold analysis
  rw [transfer_switched]
  rfl

end Scanner

/-- **and a method is iterated without one.** -/
theorem Context.iterate_switched (c : Context) (reports checks : Bool) (body : Body)
    (g : FlowGraph) : (c.switched reports checks).iterate body g = c.iterate body g := by
  unfold iterate
  refine bind_congr fun needs => ?_
  have hscanner : Scanner.ofContext (c.switched reports checks) needs =
      (Scanner.ofContext c needs).switched reports checks := rfl
  rw [hscanner]
  dsimp only
  rw [Scanner.analysis_switched]
  rfl

/-! ## 2. Sessions that differ in reports -/

/-- Is it a switch that decides whether the code is reported? -/
def Code.isOptional : Code → Bool
  | .invalidCode | .comInterop => true
  | _ => false

/-- The diagnostics that are reported under any switches, in the order of arrival. -/
def Ledger.unconditional (l : Ledger) : List Diagnostic :=
  l.diagnostics.filter fun d => !d.code.isOptional

/-- **Sessions that differ at most in reports that switches turn off.** -/
structure Session.Agrees (a b : Session) : Prop where
  memo : a.memo = b.memo
  marks : a.ledger.marks = b.ledger.marks
  diagnostics : a.ledger.unconditional = b.ledger.unconditional

namespace Session.Agrees

theorem refl (a : Session) : a.Agrees a := ⟨rfl, rfl, rfl⟩

theorem symm {a b : Session} (h : a.Agrees b) : b.Agrees a :=
  ⟨h.memo.symm, h.marks.symm, h.diagnostics.symm⟩

theorem trans {a b c : Session} (h : a.Agrees b) (h' : b.Agrees c) : a.Agrees c :=
  ⟨h.memo.trans h'.memo, h.marks.trans h'.marks, h.diagnostics.trans h'.diagnostics⟩

end Session.Agrees

/-- **Actions that give the same answer in sessions that agree, and leave sessions that agree.** -/
def Act.Concurs {α : Type} (x y : Act α) : Prop :=
  ∀ a b : Session, a.Agrees b →
    (x.run a).1 = (y.run b).1 ∧ (x.run a).2.Agrees (y.run b).2

namespace Act

variable {α β : Type}

theorem concurs_pure (a : α) : Concurs (pure a) (pure a) := fun _ _ h => ⟨rfl, h⟩

theorem Concurs.bind {x y : Act α} {f g : α → Act β} (hx : Concurs x y)
    (hf : ∀ a, Concurs (f a) (g a)) : Concurs (x >>= f) (y >>= g) := by
  intro a b h
  obtain ⟨hvalue, hafter⟩ := hx a b h
  rw [Act.run_bind, Act.run_bind, hvalue]
  exact hf _ _ _ hafter

theorem Concurs.forM {f g : α → Act Unit} (h : ∀ a, Concurs (f a) (g a)) (l : List α) :
    Concurs (l.forM f) (l.forM g) := by
  induction l with
  | nil => exact concurs_pure _
  | cons a l ih => exact (h a).bind fun _ => ih

/-- What is remembered decides an answer, and what is remembered next. -/
theorem concurs_recall {κ ν : Type} [Ranked κ] (table : MemoTable κ ν) (key : κ)
    (answer : Unit → ν) : Concurs (table.recall key answer) (table.recall key answer) := by
  intro a b h
  rw [run_recall, run_recall, h.memo]
  split
  · exact ⟨rfl, h⟩
  · exact ⟨rfl, ⟨rfl, h.marks, h.diagnostics⟩⟩

theorem concurs_note (d : Diagnostic) : Concurs (Reporter.note d) (Reporter.note d) := by
  intro a b h
  refine ⟨rfl, ⟨h.memo, h.marks, ?_⟩⟩
  show (a.ledger.diagnostics ++ [d]).filter _ = (b.ledger.diagnostics ++ [d]).filter _
  rw [List.filter_append, List.filter_append]
  exact congrArg (· ++ _) h.diagnostics

theorem concurs_enter (m : Mark) : Concurs (Reporter.enter m) (Reporter.enter m) := by
  intro a b h
  refine ⟨rfl, ⟨h.memo, ?_, h.diagnostics⟩⟩
  exact congrArg (· ++ [m]) h.marks

/-- **An action that is put together from questions and entries concurs with itself.** -/
theorem concurs_of_alike {s : Store} {M : MethodDef → Prop} {P : Origin → Prop} {x y : Act α}
    (h : s.Alike M P x y) : Concurs x x := by
  induction h with
  | pure a => exact concurs_pure a
  | bind _ _ ihx ihf => exact ihx.bind ihf
  | more _ _ ihx ihf => exact ihx.bind ihf
  | askNeeds => exact concurs_recall _ _ _
  | askGenericNeeds => exact concurs_recall _ _ _
  | askIntrinsic => exact concurs_recall _ _ _
  | askTypeName => exact concurs_recall _ _ _
  | note d => exact concurs_note d
  | enter m => exact concurs_enter m

/-- An action that makes no other entries than reports that switches turn off. -/
def Incidental (x : Act Unit) : Prop := ∀ a : Session, (x.run a).2.Agrees a

theorem incidental_pure : Incidental (pure ()) := fun a => .refl a

theorem incidental_note {d : Diagnostic} (hd : d.code.isOptional = true) :
    Incidental (Reporter.note d) := by
  intro a
  refine ⟨rfl, rfl, ?_⟩
  show (a.ledger.diagnostics ++ [d]).filter _ = a.ledger.diagnostics.filter _
  rw [List.filter_append, List.filter_cons_of_neg (by simp [hd]), List.filter_nil, List.append_nil]

theorem incidental_report (r : Reporter) {f : Finding} (hf : f.code.isOptional = true) :
    Incidental (r.report f) := by
  unfold Reporter.report
  split
  · exact incidental_note hf
  · exact incidental_pure

theorem Incidental.ite {x : Act Unit} (h : Incidental x) (on : Bool) :
    Incidental (if on then x else pure ()) := by
  cases on with
  | false => exact incidental_pure
  | true => exact h

/-- Such actions concur with each other, and with doing nothing. -/
theorem Incidental.concurs {x y : Act Unit} (hx : Incidental x) (hy : Incidental y) :
    Concurs x y := fun a b h => ⟨rfl, (hx a).trans (h.trans (hy b).symm)⟩

end Act

/-! ## 3. Acting on observations -/

namespace Context

open Act

variable {c : Context} {reports checks : Bool}

theorem incidental_checkInterop (r : Reporter) (m : MethodDef) :
    Incidental (r.checkInterop m) := by
  unfold Reporter.checkInterop
  split
  · exact incidental_report r rfl
  · exact incidental_pure

/-- A call is acted on under any switches, the check of native methods apart. -/
theorem concurs_applyCall (offset : Nat) (callee : MethodRef) (arguments : List ValueSet)
    (intrinsic : Option Intrinsic) (constructs : Bool) :
    Concurs
      ((c.switched reports checks).applyCall (c.reporter offset true)
        ⟨c.switched reports checks, offset, callee, arguments⟩ intrinsic constructs)
      (c.applyCall (c.reporter offset true) ⟨c, offset, callee, arguments⟩ intrinsic constructs) := by
  have hr : (c.reporter offset true).Serves c.store fun _ => True := ⟨rfl, fun _ => trivial⟩
  have hc : CallSite.Within ⟨c, offset, callee, arguments⟩ c.store fun _ => True := ⟨rfl, trivial⟩
  have hcatalogued : ∀ what,
      applyCatalogued (c.reporter offset true) ⟨c.switched reports checks, offset, callee, arguments⟩
        what = applyCatalogued (c.reporter offset true) ⟨c, offset, callee, arguments⟩ what := by
    intro what
    cases what <;> rfl
  have hordinary : ∀ needs, (c.switched reports checks).applyOrdinary (c.reporter offset true)
      ⟨c.switched reports checks, offset, callee, arguments⟩ needs constructs =
        c.applyOrdinary (c.reporter offset true) ⟨c, offset, callee, arguments⟩ needs constructs :=
    fun _ => rfl
  have hinterop := incidental_checkInterop (c.reporter offset true) callee.method
  have hlast := (hinterop.ite (c.switched reports checks).config.checksInterop).concurs
    (hinterop.ite c.config.checksInterop)
  have hwarning : ∀ needs, Concurs (c.checkWarning (c.reporter offset true) callee.method needs)
      (c.checkWarning (c.reporter offset true) callee.method needs) := fun needs =>
    concurs_of_alike (alike_checkWarning (M := fun _ => True) hr trivial callee.method needs)
  unfold applyCall
  refine .bind (concurs_recall _ _ _) fun needs => .bind (hwarning needs) fun _ => ?_
  dsimp only
  rw [hordinary]
  split
  · rw [hcatalogued]
    exact .bind (concurs_of_alike (alike_applyCatalogued hr hc _)) fun _ => hlast
  · have hself := concurs_of_alike (alike_applyOrdinary (M := fun _ => True) hr
      ⟨c, offset, callee, arguments⟩ needs constructs)
    exact hself.bind fun _ => hlast

/-- **An observation is acted on under any switches in the same way, up to reports that they turn
    off.** -/
theorem concurs_apply (offset : Nat) (o : Observation) :
    Concurs ((c.switched reports checks).apply offset o) (c.apply offset o) := by
  have hself : Concurs (c.apply offset o) (c.apply offset o) :=
    concurs_of_alike (alike_apply (M := fun _ => True) (P := fun _ => True) trivial trivial o.calls_any)
  cases o with
  | call callee arguments intrinsic constructs =>
      exact concurs_applyCall offset callee arguments intrinsic constructs
  | assignment values required place => exact hself
  | cast values target => exact hself
  | fault f =>
      have hfault := incidental_report (c.reporter offset true) (f := .invalidCode f) rfl
      exact (hfault.ite reports).concurs (hfault.ite c.config.reportsInvalidCode)

theorem concurs_applyAll (log : ObservationLog Observation) :
    Concurs ((c.switched reports checks).applyAll log) (c.applyAll log) := by
  unfold applyAll
  exact .forM (fun (offset, o) => concurs_apply offset o) log.toList

/-- The analysis of a body under other switches, from the same session. -/
theorem agrees_analyzeBody (c : Context) (reports checks : Bool) (token : Token) (body : Body)
    (session : Session) :
    (((c.switched reports checks).analyzeBody token body).run session).1 =
        ((c.analyzeBody token body).run session).1 ∧
      (((c.switched reports checks).analyzeBody token body).run session).2.Agrees
        ((c.analyzeBody token body).run session).2 := by
  unfold analyzeBody
  split
  · exact ⟨rfl, .refl _⟩
  · next g _ =>
    rw [Act.run_bind, Act.run_bind, iterate_switched]
    generalize (c.iterate body g).run session = iterated
    obtain ⟨result, after⟩ := iterated
    cases result with
    | error f => exact ⟨rfl, .refl _⟩
    | ok found =>
        have happly : Concurs ((c.switched reports checks).applyAll found.2.log)
            (c.applyAll found.2.log) := concurs_applyAll found.2.log
        exact (happly.bind fun _ => concurs_pure _) after after (.refl after)

end Context

/-! ## 4. Analyses -/

namespace Store

theorem agrees_tryAnalyze (s : Store) (config : Config) (reports checks : Bool) (token : Token)
    (typeArgs methodArgs : List TypeSig) (session : Session) :
    ((s.tryAnalyze (config.switched reports checks) token typeArgs methodArgs).run session).1 =
        ((s.tryAnalyze config token typeArgs methodArgs).run session).1 ∧
      ((s.tryAnalyze (config.switched reports checks) token typeArgs methodArgs).run session).2.Agrees
        ((s.tryAnalyze config token typeArgs methodArgs).run session).2 := by
  unfold tryAnalyze
  split
  · exact ⟨rfl, .refl _⟩
  · next m _ =>
    split
    · exact ⟨rfl, .refl _⟩
    · next body _ =>
      exact Context.agrees_analyzeBody ⟨s, config, m, typeArgs, methodArgs⟩ reports checks token
        body session

theorem agrees_analyze (s : Store) (config : Config) (reports checks : Bool) (token : Token)
    (typeArgs methodArgs : List TypeSig) (session : Session) :
    ((s.analyze (config.switched reports checks) token typeArgs methodArgs).run session).1 =
        ((s.analyze config token typeArgs methodArgs).run session).1 ∧
      ((s.analyze (config.switched reports checks) token typeArgs methodArgs).run session).2.Agrees
        ((s.analyze config token typeArgs methodArgs).run session).2 := by
  have htry := s.agrees_tryAnalyze config reports checks token typeArgs methodArgs session
  unfold analyze
  rw [Act.run_bind, Act.run_bind]
  generalize (s.tryAnalyze (config.switched reports checks) token typeArgs methodArgs).run session =
    there at htry
  generalize (s.tryAnalyze config token typeArgs methodArgs).run session = here at htry
  obtain ⟨answer, after⟩ := here
  obtain ⟨hanswer, hafter⟩ := htry
  rw [hanswer]
  cases answer with
  | error f => exact ⟨rfl, hafter⟩
  | ok report => exact ⟨rfl, hafter⟩

end Store

end ReflectionFlow
