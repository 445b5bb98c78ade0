/-
  File:      ReflectionFlow/Proofs/Session/Answers.lean
  Subject:   What a session answers does not change when it is asked.

  A memo may hold anything when an analysis starts.  From then on every question has one answer:
  the one the memo holds, or else the one the store gives, and asking only writes down the latter.

  * `Answers`, `Store.answers`    all answers of a session at once
  * `Store.Steady`                an action that depends on the answers alone and keeps them
  * `Store.steady_askGenericNeeds`, `Store.steady_askReturn`
-/
import ReflectionFlow.Session.Memo

namespace ReflectionFlow

/-! ## 1. Actions -/

namespace Act

theorem run_bind {α β : Type} (x : Act α) (f : α → Act β) (session : Session) :
    (x >>= f).run session = (f (x.run session).1).run (x.run session).2 := rfl

theorem run_pure {α : Type} (a : α) (session : Session) :
    (pure a : Act α).run session = (a, session) := rfl

theorem run_get (session : Session) : (get : Act Session).run session = (session, session) := rfl

theorem run_set (session session' : Session) :
    (set session' : Act PUnit).run session = (⟨⟩, session') := rfl

end Act

/-! ## 2. Answers -/

/-- All answers of a session; of the annotations of a method only the promise of the return value
    is among them, since the others depend on who asks. -/
structure Answers where
  generics : Owner → List Categories
  intrinsics : Token → Option Intrinsic
  returns : Token → Categories

namespace Store

/-- **What a session answers**: what it remembers, or else what the store says. -/
def answers (s : Store) (session : Session) : Answers where
  generics owner := ((session.memo.generics.get? owner).map id).getD (s.genericNeedsOf owner)
  intrinsics method := ((session.memo.intrinsics.get? method).map id).getD (s.intrinsicOf? method)
  returns method := ((session.memo.needs.get? method).map Needs.ret).getD (s.returnNeed method)

/-- **An action that depends on the answers of a session alone and keeps them.** -/
def Steady {α : Type} (s : Store) (x : Act α) : Prop :=
  ∀ session session', s.answers session = s.answers session' →
    (x.run session).1 = (x.run session').1 ∧ s.answers (x.run session).2 = s.answers session

variable {s : Store}

theorem steady_pure {α : Type} (a : α) : s.Steady (pure a : Act α) := fun _ _ _ => ⟨rfl, rfl⟩

theorem Steady.bind {α β : Type} {x : Act α} {f : α → Act β} (hx : s.Steady x)
    (hf : ∀ a, s.Steady (f a)) : s.Steady (x >>= f) := by
  intro session session' h
  obtain ⟨hval, hkeep⟩ := hx session session' h
  have hkeep' := (hx session' session h.symm).2
  obtain ⟨hval₂, hkeep₂⟩ := hf (x.run session).1 (x.run session).2 (x.run session').2
    (hkeep.trans (h.trans hkeep'.symm))
  rw [Act.run_bind, Act.run_bind, ← hval]
  exact ⟨hval₂, hkeep₂.trans hkeep⟩

/-! ## 3. Questions -/

theorem run_recall {κ ν : Type} [Ranked κ] (table : MemoTable κ ν) (key : κ) (answer : Unit → ν)
    (session : Session) : (table.recall key answer).run session =
      match (table.read session.memo).get? key with
      | some found => (found, session)
      | none =>
        (answer (), { session with
          memo := table.replace session.memo ((table.read session.memo).insert key (answer ())) }) := by
  unfold MemoTable.recall
  rw [Act.run_bind, Act.run_get]
  cases (table.read session.memo).get? key <;> rfl

/-- Writing down the answer that the store gives changes no answer. -/
theorem getD_insert {κ ν α : Type} [Ranked κ] {m : Assoc κ ν} {key : κ} {x : ν} {read : ν → α}
    {answer : κ → α} (hnone : m.get? key = none) (hx : read x = answer key) (k : κ) :
    (((m.insert key x).get? k).map read).getD (answer k) = ((m.get? k).map read).getD (answer k) := by
  by_cases hk : k = key
  · subst hk
    rw [Assoc.get?_insert_self, hnone]
    exact hx
  · rw [Assoc.get?_insert_of_ne _ _ hk]

theorem run_askGenericNeeds (session : Session) (owner : Owner) :
    ((s.askGenericNeeds owner).run session).1 = (s.answers session).generics owner ∧
      s.answers ((s.askGenericNeeds owner).run session).2 = s.answers session := by
  unfold askGenericNeeds
  rw [run_recall]
  cases h : session.memo.generics.get? owner with
  | some found =>
      simp only [h, answers]
      exact ⟨rfl, trivial⟩
  | none =>
      simp only [h, answers]
      refine ⟨rfl, congrArg (Answers.mk · _ _) (funext fun k => ?_)⟩
      exact getD_insert h rfl k

theorem run_askIntrinsic (session : Session) (method : Token) :
    ((s.askIntrinsic method).run session).1 = (s.answers session).intrinsics method ∧
      s.answers ((s.askIntrinsic method).run session).2 = s.answers session := by
  unfold askIntrinsic
  rw [run_recall]
  cases h : session.memo.intrinsics.get? method with
  | some found =>
      simp only [h, answers]
      exact ⟨rfl, trivial⟩
  | none =>
      simp only [h, answers]
      refine ⟨rfl, congrArg (Answers.mk _ · _) (funext fun k => ?_)⟩
      exact getD_insert h rfl k

theorem run_askNeeds (session : Session) (m : MethodDef) :
    ((s.askNeeds m).run session).1.ret = (s.answers session).returns m.token ∧
      s.answers ((s.askNeeds m).run session).2 = s.answers session := by
  unfold askNeeds
  rw [run_recall]
  cases h : session.memo.needs.get? m.token with
  | some found =>
      simp only [h, answers]
      exact ⟨rfl, trivial⟩
  | none =>
      simp only [h, answers]
      refine ⟨rfl, congrArg (Answers.mk _ _ ·) (funext fun k => ?_)⟩
      exact getD_insert h rfl k

theorem steady_askGenericNeeds (owner : Owner) : s.Steady (s.askGenericNeeds owner) := by
  intro session session' h
  refine ⟨?_, (run_askGenericNeeds session owner).2⟩
  rw [(run_askGenericNeeds session owner).1, (run_askGenericNeeds session' owner).1, h]

theorem steady_askReturn {α : Type} (m : MethodDef) (f : Categories → α) :
    s.Steady (do return f (← s.askNeeds m).ret) := by
  intro session session' h
  simp only [Act.run_bind, Act.run_pure]
  refine ⟨?_, (run_askNeeds session m).2⟩
  rw [(run_askNeeds session m).1, (run_askNeeds session' m).1, h]

end Store

end ReflectionFlow
