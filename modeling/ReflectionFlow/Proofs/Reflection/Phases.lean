/-
  File:      ReflectionFlow/Proofs/Reflection/Phases.lean
  Subject:   A catalogued call is handled twice, and both times it returns the same.

  While a method is iterated the rule for a call runs under a reporter that is not live, for the
  value it leaves on the stack.  When the observations are acted on it runs again under a live one,
  for its marks and diagnostics.  Between the two runs the session has learned more, and the live
  run itself asks questions that the quiet one does not ask.  None of this changes an answer: a
  question has one answer in a session, remembered or not, and asking only writes it down.

  * `Store.Agree`             sessions that give the same answers
  * `Store.Alike.agree`       like actions give the same answer in sessions that agree
  * `CallSite.PhasesAgree`    what the two phases of a rule have in common
  * `CallSite.handle?_phases_agree`
-/
import ReflectionFlow.Proofs.Reflection.Catalogue

namespace ReflectionFlow

/-! ## 1. Sessions that agree -/

namespace Store

/-- **Two sessions give the same answers**, whether they remember them or not.  Annotations are
    asked for by method and remembered by token, so the methods that are asked about matter. -/
structure Agree (s : Store) (M : MethodDef → Prop) (x y : Session) : Prop where
  needs : ∀ m, M m →
    (x.memo.needs.get? m.token).getD (s.needs m) = (y.memo.needs.get? m.token).getD (s.needs m)
  generics : ∀ owner, (x.memo.generics.get? owner).getD (s.genericNeedsOf owner) =
    (y.memo.generics.get? owner).getD (s.genericNeedsOf owner)
  intrinsics : ∀ t, (x.memo.intrinsics.get? t).getD (s.intrinsicOf? t) =
    (y.memo.intrinsics.get? t).getD (s.intrinsicOf? t)
  typeNames : ∀ text, (x.memo.typeNames.get? text).getD (s.resolveName? text) =
    (y.memo.typeNames.get? text).getD (s.resolveName? text)

variable {s : Store} {M : MethodDef → Prop} {P : Origin → Prop} {x y z : Session}

theorem Agree.refl (x : Session) : s.Agree M x x :=
  ⟨fun _ _ => rfl, fun _ => rfl, fun _ => rfl, fun _ => rfl⟩

theorem Agree.symm (h : s.Agree M x y) : s.Agree M y x :=
  ⟨fun m hm => (h.needs m hm).symm, fun o => (h.generics o).symm, fun t => (h.intrinsics t).symm,
    fun t => (h.typeNames t).symm⟩

theorem Agree.trans (h : s.Agree M x y) (h' : s.Agree M y z) : s.Agree M x z :=
  ⟨fun m hm => (h.needs m hm).trans (h'.needs m hm), fun o => (h.generics o).trans (h'.generics o),
    fun t => (h.intrinsics t).trans (h'.intrinsics t),
    fun t => (h.typeNames t).trans (h'.typeNames t)⟩

/-- What is entered in the ledger changes no answer. -/
theorem agree_of_memo (h : x.memo = y.memo) : s.Agree M x y := by
  constructor
  · intro m _
    rw [h]
  · intro owner
    rw [h]
  · intro t
    rw [h]
  · intro text
    rw [h]

/-- Sessions that remember right answers agree, about methods that the store holds. -/
theorem agree_of_faithful (hM : ∀ m, M m → s.Defines m) (hx : x.memo.Faithful s)
    (hy : y.memo.Faithful s) : s.Agree M x y := by
  have hright : ∀ {κ ν : Type} [Ranked κ] {table : Assoc κ ν} {key : κ} {answer : ν},
      (∀ n, table.get? key = some n → n = answer) → (table.get? key).getD answer = answer := by
    intro κ ν _ table key answer h
    cases hk : table.get? key with
    | none => rfl
    | some n => exact h n hk
  have hneeds : ∀ {memo : Memo}, memo.Faithful s → ∀ m, M m → ∀ n,
      memo.needs.get? m.token = some n → n = s.needs m := by
    intro memo hmemo m hm n hn
    obtain ⟨d, hd, rfl⟩ := hmemo.needs _ n hn
    rw [Option.some.inj (hd.symm.trans (hM m hm))]
  constructor
  · intro m hm
    rw [hright (hneeds hx m hm), hright (hneeds hy m hm)]
  · intro owner
    rw [hright (hx.generics owner), hright (hy.generics owner)]
  · intro t
    rw [hright (hx.intrinsics t), hright (hy.intrinsics t)]
  · intro text
    rw [hright (hx.typeNames text), hright (hy.typeNames text)]

/-! ## 2. Questions -/

/-- Sessions with the same answer to a question give it. -/
theorem recall_congr {κ ν : Type} [Ranked κ] {table : MemoTable κ ν} {key : κ}
    {answer : Unit → ν} (h : ((table.read x.memo).get? key).getD (answer ()) =
      ((table.read y.memo).get? key).getD (answer ())) :
    ((table.recall key answer).run x).1 = ((table.recall key answer).run y).1 := by
  have hvalue : ∀ z : Session, ((table.recall key answer).run z).1 =
      ((table.read z.memo).get? key).getD (answer ()) := by
    intro z
    rw [run_recall]
    cases (table.read z.memo).get? key <;> rfl
  rw [hvalue, hvalue, h]

/-- A question leaves a session that agrees, if writing the answer down does. -/
theorem agree_recall {κ ν : Type} [Ranked κ] {table : MemoTable κ ν} {key : κ}
    {answer : Unit → ν} (hwrite : (table.read x.memo).get? key = none →
      s.Agree M x ⟨table.replace x.memo ((table.read x.memo).insert key (answer ())), x.ledger⟩) :
    s.Agree M x ((table.recall key answer).run x).2 := by
  rw [run_recall]
  cases h : (table.read x.memo).get? key with
  | none => exact hwrite h
  | some found => exact .refl x

/-- Writing down the answer under its key changes no answer of the table. -/
theorem getD_insert_answer {κ ν : Type} [Ranked κ] {table : Assoc κ ν} {key : κ} {answer : κ → ν}
    (hnone : table.get? key = none) (k : κ) :
    (table.get? k).getD (answer k) = ((table.insert key (answer key)).get? k).getD (answer k) := by
  have h : (((table.insert key (answer key)).get? k).map id).getD (answer k) =
      ((table.get? k).map id).getD (answer k) := getD_insert hnone rfl k
  rw [Option.map_id, id, id] at h
  exact h.symm

theorem agree_askNeeds (hM : ∀ m m', M m → M m' → m.token = m'.token → m = m') {m : MethodDef}
    (hm : M m) : s.Agree M x ((s.askNeeds m).run x).2 := by
  refine agree_recall fun hnone => ⟨fun m' hm' => ?_, fun _ => rfl, fun _ => rfl, fun _ => rfl⟩
  show _ = ((x.memo.needs.insert m.token (s.needs m)).get? m'.token).getD (s.needs m')
  by_cases ht : m'.token = m.token
  · obtain rfl := hM m' m hm' hm ht
    rw [Assoc.get?_insert_self, show x.memo.needs.get? m'.token = none from hnone]
    rfl
  · rw [Assoc.get?_insert_of_ne _ _ ht]

theorem agree_askGenericNeeds (owner : Owner) :
    s.Agree M x ((s.askGenericNeeds owner).run x).2 :=
  agree_recall fun hnone =>
    ⟨fun _ _ => rfl, getD_insert_answer hnone, fun _ => rfl, fun _ => rfl⟩

theorem agree_askIntrinsic (t : Token) : s.Agree M x ((s.askIntrinsic t).run x).2 :=
  agree_recall fun hnone =>
    ⟨fun _ _ => rfl, fun _ => rfl, getD_insert_answer hnone, fun _ => rfl⟩

theorem agree_askTypeName (text : String) : s.Agree M x ((s.askTypeName text).run x).2 :=
  agree_recall fun hnone =>
    ⟨fun _ _ => rfl, fun _ => rfl, fun _ => rfl, getD_insert_answer hnone⟩

/-- **Like actions give the same answer in sessions that agree**, right or wrong, and leave sessions
    that agree with those before. -/
theorem Alike.agree {α : Type} {f g : Act α} (h : s.Alike M P f g)
    (hM : ∀ m m', M m → M m' → m.token = m'.token → m = m') (hxy : s.Agree M x y) :
    (f.run x).1 = (g.run y).1 ∧ s.Agree M x (f.run x).2 ∧ s.Agree M y (g.run y).2 := by
  induction h generalizing x y with
  | pure => exact ⟨rfl, .refl x, .refl y⟩
  | @bind α β f g F G _ _ ihf ihF =>
      obtain ⟨hval, hx, hy⟩ := ihf hxy
      obtain ⟨hval', hx', hy'⟩ := ihF (f.run x).1 (hx.symm.trans (hxy.trans hy))
      rw [Act.run_bind, Act.run_bind, ← hval]
      exact ⟨hval', hx.trans hx', hy.trans hy'⟩
  | @more α β f F g _ _ ihf ihF =>
      -- what is done first in one of the sessions leaves it in agreement with the other
      obtain ⟨_, hx, _⟩ := ihf (.refl x)
      obtain ⟨hval, hx', hy⟩ := ihF (f.run x).1 (hx.symm.trans hxy)
      rw [Act.run_bind]
      exact ⟨hval, hx.trans hx', hy⟩
  | askNeeds m hm =>
      exact ⟨recall_congr (hxy.needs m hm), agree_askNeeds hM hm, agree_askNeeds hM hm⟩
  | askGenericNeeds owner =>
      exact ⟨recall_congr (hxy.generics owner), agree_askGenericNeeds owner,
        agree_askGenericNeeds owner⟩
  | askIntrinsic t =>
      exact ⟨recall_congr (hxy.intrinsics t), agree_askIntrinsic t, agree_askIntrinsic t⟩
  | askTypeName text =>
      exact ⟨recall_congr (hxy.typeNames text), agree_askTypeName text, agree_askTypeName text⟩
  | note => exact ⟨rfl, agree_of_memo rfl, agree_of_memo rfl⟩
  | enter => exact ⟨rfl, agree_of_memo rfl, agree_of_memo rfl⟩

end Store

/-! ## 3. The two phases -/

namespace CallSite

/-- What the rule for a call does in the phase that only wants its value, and in the phase that
    marks and reports. -/
structure PhasesAgree (c : CallSite) (quiet live : Act ValueSet) : Prop where
  /-- The first phase marks nothing and reports nothing, whatever the session remembers. -/
  silent : ∀ session, (quiet.run session).2.ledger = session.ledger
  /-- In the same session both return the same value, whatever the session remembers. -/
  same : ∀ session, (quiet.run session).1 = (live.run session).1
  /-- They also do in two sessions that remember different answers, all of them right. -/
  later : c.context.store.Defines c.method → ∀ session session' : Session,
    session.memo.Faithful c.context.store → session'.memo.Faithful c.context.store →
    (quiet.run session).1 = (live.run session').1

namespace Named

/-- A library method that finds types by name. -/
def getType : MethodDef where
  token := ⟨0x06000001⟩
  declaring := ⟨0x02000001⟩
  name := "GetType"
  flags := 0x16
  sig := ⟨false, false, 0, .classType ⟨0x02000001⟩, [.prim .string]⟩
  paramNames := []

def store : Store := .ofList
  [.type "lib" "System" "Type" 1 none, .type "app" "N" "C" 1 none, .type "app" "N" "G" 1 none,
   .method getType.declaring getType.name getType.flags getType.sig]

/-- A call that names a generic type and its argument. -/
def site : CallSite where
  context := { store := store, config := {}, method := getType }
  offset := 5
  callee := { method := getType }
  arguments := [.single (.string "N.G[[N.C]]")]

/-- What the rule returns and how much it marks, under a reporter that is live or not. -/
def handled (live : Bool) : Option (ValueSet × Nat) :=
  (site.handle? (site.context.reporter 5 live) .getType).map fun rule =>
    ((rule.run {}).1, (rule.run {}).2.ledger.marks.length)

end Named

end CallSite

end ReflectionFlow
