/-
  File:      ReflectionFlow/Proofs/Session/Conduct.lean
  Subject:   How an action deals with its session: what it enters and what its answer depends on.

  The actions of an analysis are put together from a few: questions to the memo, entries in the
  ledger, and pure steps.  Two things follow for all of them at once.  An action only adds to the
  ledger, and only for origins it stands for.  And as long as the memo holds right answers, the
  result and the entries do not depend on what it holds.

  The relation is between two actions, since every rule of the catalogue runs twice: with a live
  reporter and with one that drops what it is told.  The two runs give the same answer.

  * `Store.Alike`          actions that give the same answer, the first with more entries
  * `Store.Alike.entered`  what an action enters, in any session
  * `Store.Gives`          an answer and entries that do not depend on the memo
  * `Store.Alike.gives`    like actions give the same answer
  * `Reporter.dimmed`      a reporter that drops more
-/
import ReflectionFlow.Proofs.Metadata.Tables
import ReflectionFlow.Proofs.Session.Answers
import ReflectionFlow.Session.Context

namespace ReflectionFlow

/-! ## 1. Entries -/

namespace Ledger

/-- Later entries come after earlier ones. -/
instance : Append Ledger := ⟨fun l l' => ⟨l.marks ++ l'.marks, l.diagnostics ++ l'.diagnostics⟩⟩

/-- All entries have an origin of a kind. -/
structure From (P : Origin → Prop) (l : Ledger) : Prop where
  marks : ∀ m ∈ l.marks, P m.origin
  diagnostics : ∀ d ∈ l.diagnostics, P d.origin

theorem append_def (l l' : Ledger) :
    l ++ l' = ⟨l.marks ++ l'.marks, l.diagnostics ++ l'.diagnostics⟩ := rfl

@[simp] theorem append_empty (l : Ledger) : l ++ {} = l := by
  rw [append_def, List.append_nil, List.append_nil]

theorem append_assoc (l l' l'' : Ledger) : l ++ l' ++ l'' = l ++ (l' ++ l'') := by
  simp only [append_def, List.append_assoc]

variable {P : Origin → Prop}

theorem from_empty : From P {} :=
  ⟨fun _ h => absurd h List.not_mem_nil, fun _ h => absurd h List.not_mem_nil⟩

theorem From.append {l l' : Ledger} (h : l.From P) (h' : l'.From P) : (l ++ l').From P := by
  constructor
  · intro m hm
    exact (List.mem_append.mp hm).elim (h.marks m) (h'.marks m)
  · intro d hd
    exact (List.mem_append.mp hd).elim (h.diagnostics d) (h'.diagnostics d)

/-- Where no origin will do there are no entries. -/
theorem From.eq_empty {l : Ledger} (h : l.From fun _ => False) : l = {} := by
  obtain ⟨marks, diagnostics⟩ := l
  have hm : marks = [] := List.eq_nil_iff_forall_not_mem.mpr h.marks
  have hd : diagnostics = [] := List.eq_nil_iff_forall_not_mem.mpr h.diagnostics
  rw [hm, hd]

end Ledger

/-! ## 2. Like actions -/

namespace Store

/-- **Actions that give the same answer.**  Both are put together from the same questions and
    entries, and the first may ask and enter more than the second.  Only annotations of methods
    in `M` are asked for, and all entries have origins in `P`. -/
inductive Alike (s : Store) (M : MethodDef → Prop) (P : Origin → Prop) :
    {α : Type} → Act α → Act α → Prop where
  | pure {α : Type} (a : α) : Alike s M P (pure a) (pure a)
  | bind {α β : Type} {x y : Act α} {f g : α → Act β} (hx : Alike s M P x y)
      (hf : ∀ a, Alike s M P (f a) (g a)) : Alike s M P (x >>= f) (y >>= g)
  /-- Something is done first, and its answer does not matter. -/
  | more {α β : Type} {x : Act α} {f : α → Act β} {y : Act β} (hx : Alike s M P x x)
      (hf : ∀ a, Alike s M P (f a) y) : Alike s M P (x >>= f) y
  | askNeeds (m : MethodDef) (hm : M m) : Alike s M P (s.askNeeds m) (s.askNeeds m)
  | askGenericNeeds (owner : Owner) : Alike s M P (s.askGenericNeeds owner) (s.askGenericNeeds owner)
  | askIntrinsic (t : Token) : Alike s M P (s.askIntrinsic t) (s.askIntrinsic t)
  | askTypeName (text : String) : Alike s M P (s.askTypeName text) (s.askTypeName text)
  | note (d : Diagnostic) (hd : P d.origin) : Alike s M P (Reporter.note d) (Reporter.note d)
  | enter (m : Mark) (hm : P m.origin) : Alike s M P (Reporter.enter m) (Reporter.enter m)

variable {s : Store} {M : MethodDef → Prop} {P : Origin → Prop}

/-- **An action only adds to the ledger**, whatever the session remembers. -/
theorem Alike.entered {α : Type} {x y : Act α} (h : s.Alike M P x y) (session : Session) :
    ∃ l : Ledger, l.From P ∧ (x.run session).2.ledger = session.ledger ++ l := by
  have hrecall : ∀ {κ ν : Type} [Ranked κ] (table : MemoTable κ ν) (key : κ) (answer : Unit → ν)
      (session : Session), ((table.recall key answer).run session).2.ledger = session.ledger := by
    intro κ ν _ table key answer session
    rw [run_recall]
    split <;> rfl
  have hasked : ∀ {session session' : Session}, session'.ledger = session.ledger →
      ∃ l : Ledger, l.From P ∧ session'.ledger = session.ledger ++ l := fun h =>
    ⟨{}, Ledger.from_empty, by rw [h, Ledger.append_empty]⟩
  have hafter : ∀ {α β : Type} {x : Act α} {f : α → Act β} {session : Session},
      (∃ l : Ledger, l.From P ∧ (x.run session).2.ledger = session.ledger ++ l) →
      (∃ l : Ledger, l.From P ∧ ((f (x.run session).1).run (x.run session).2).2.ledger =
        (x.run session).2.ledger ++ l) →
      ∃ l : Ledger, l.From P ∧ ((x >>= f).run session).2.ledger = session.ledger ++ l := by
    rintro α β x f session ⟨l, hl, hx⟩ ⟨l', hl', hf⟩
    exact ⟨l ++ l', hl.append hl', by rw [Act.run_bind, hf, hx, Ledger.append_assoc]⟩
  induction h generalizing session with
  | pure => exact hasked rfl
  | bind _ _ ihx ihf => exact hafter (ihx session) (ihf _ _)
  | more _ _ ihx ihf => exact hafter (ihx session) (ihf _ _)
  | askNeeds => exact hasked (hrecall _ _ _ session)
  | askGenericNeeds => exact hasked (hrecall _ _ _ session)
  | askIntrinsic => exact hasked (hrecall _ _ _ session)
  | askTypeName => exact hasked (hrecall _ _ _ session)
  | note d hd =>
      refine ⟨⟨[], [d]⟩, ⟨fun _ h => absurd h List.not_mem_nil, ?_⟩, ?_⟩
      · intro e he
        exact List.mem_singleton.mp he ▸ hd
      · rw [Ledger.append_def, List.append_nil]
        rfl
  | enter m hm =>
      refine ⟨⟨[m], []⟩, ⟨?_, fun _ h => absurd h List.not_mem_nil⟩, ?_⟩
      · intro e he
        exact List.mem_singleton.mp he ▸ hm
      · rw [Ledger.append_def, List.append_nil]
        rfl

/-- An action that may enter nothing leaves the ledger alone. -/
theorem Alike.ledger_eq {α : Type} {x y : Act α} (h : s.Alike M (fun _ => False) x y)
    (session : Session) : (x.run session).2.ledger = session.ledger := by
  obtain ⟨l, hl, hledger⟩ := h.entered session
  rw [hledger, hl.eq_empty, Ledger.append_empty]

/-! ## 3. Answers that do not depend on the memo -/

/-- **An answer and entries that do not depend on what is remembered**, as long as all of it is
    right; and nothing wrong is remembered afterwards. -/
def Gives {α : Type} (s : Store) (x : Act α) (a : α) (l : Ledger) : Prop :=
  ∀ session : Session, session.memo.Faithful s →
    ∃ memo, Memo.Faithful s memo ∧ x.run session = (a, ⟨memo, session.ledger ++ l⟩)

/-- Nothing is remembered, so nothing wrong. -/
theorem faithful_empty (s : Store) : Memo.Faithful s {} := by
  constructor
  · intro _ _ h
    cases h
  · intro _ _ h
    cases h
  · intro _ _ h
    cases h
  · intro _ _ h
    cases h

theorem gives_pure {α : Type} (a : α) : s.Gives (pure a) a {} := by
  intro session hm
  refine ⟨session.memo, hm, ?_⟩
  rw [Ledger.append_empty]
  rfl

theorem Gives.bind {α β : Type} {x : Act α} {f : α → Act β} {a : α} {b : β} {l l' : Ledger}
    (hx : s.Gives x a l) (hf : s.Gives (f a) b l') : s.Gives (x >>= f) b (l ++ l') := by
  intro session hm
  obtain ⟨memo, hmemo, hrun⟩ := hx session hm
  obtain ⟨memo', hmemo', hrun'⟩ := hf ⟨memo, session.ledger ++ l⟩ hmemo
  refine ⟨memo', hmemo', ?_⟩
  rw [Act.run_bind, hrun, hrun', Ledger.append_assoc]

/-- A remembered answer is the right one, and the right one is what is remembered. -/
theorem gives_recall {κ ν : Type} [Ranked κ] {table : MemoTable κ ν} {key : κ} {answer : Unit → ν}
    (hread : ∀ m, Memo.Faithful s m → ∀ x, (table.read m).get? key = some x → x = answer ())
    (hwrite : ∀ m, Memo.Faithful s m →
      Memo.Faithful s (table.replace m ((table.read m).insert key (answer ())))) :
    s.Gives (table.recall key answer) (answer ()) {} := by
  intro session hm
  rw [run_recall]
  cases h : (table.read session.memo).get? key with
  | some found =>
      refine ⟨session.memo, hm, ?_⟩
      rw [hread _ hm found h, Ledger.append_empty]
  | none =>
      refine ⟨_, hwrite _ hm, ?_⟩
      rw [Ledger.append_empty]

theorem forall_get?_insert {κ ν : Type} [Ranked κ] {m : Assoc κ ν} {Q : κ → ν → Prop} {key : κ}
    {x : ν} (h : ∀ k y, m.get? k = some y → Q k y) (hx : Q key x) :
    ∀ k y, (m.insert key x).get? k = some y → Q k y := by
  intro k y hy
  by_cases hk : k = key
  · subst hk
    rw [Assoc.get?_insert_self] at hy
    exact Option.some.inj hy ▸ hx
  · rw [Assoc.get?_insert_of_ne _ _ hk] at hy
    exact h k y hy

theorem gives_askNeeds {m : MethodDef} (hm : s.Defines m) : s.Gives (s.askNeeds m) (s.needs m) {} := by
  refine gives_recall ?_ ?_
  · intro memo hmemo n hn
    obtain ⟨d, hd, rfl⟩ := hmemo.needs _ n hn
    rw [Option.some.inj (hd.symm.trans hm)]
  · intro memo hmemo
    exact { hmemo with needs := forall_get?_insert hmemo.needs ⟨m, hm, rfl⟩ }

theorem gives_askGenericNeeds (owner : Owner) :
    s.Gives (s.askGenericNeeds owner) (s.genericNeedsOf owner) {} :=
  gives_recall (fun _ hmemo => hmemo.generics owner) fun _ hmemo =>
    { hmemo with generics := forall_get?_insert hmemo.generics rfl }

theorem gives_askIntrinsic (t : Token) : s.Gives (s.askIntrinsic t) (s.intrinsicOf? t) {} :=
  gives_recall (fun _ hmemo => hmemo.intrinsics t) fun _ hmemo =>
    { hmemo with intrinsics := forall_get?_insert hmemo.intrinsics rfl }

theorem gives_askTypeName (text : String) :
    s.Gives (s.askTypeName text) (s.resolveName? text) {} :=
  gives_recall (fun _ hmemo => hmemo.typeNames text) fun _ hmemo =>
    { hmemo with typeNames := forall_get?_insert hmemo.typeNames rfl }

theorem gives_note (d : Diagnostic) : s.Gives (Reporter.note d) () ⟨[], [d]⟩ := by
  intro session hm
  refine ⟨session.memo, hm, ?_⟩
  rw [Ledger.append_def, List.append_nil]
  rfl

theorem gives_enter (m : Mark) : s.Gives (Reporter.enter m) () ⟨[m], []⟩ := by
  intro session hm
  refine ⟨session.memo, hm, ?_⟩
  rw [Ledger.append_def, List.append_nil]
  rfl

/-- **Like actions give the same answer**, and it does not depend on what is remembered. -/
theorem Alike.gives {α : Type} {x y : Act α} (h : s.Alike s.Defines P x y) :
    ∃ a l l', s.Gives x a l ∧ s.Gives y a l' := by
  induction h with
  | pure a => exact ⟨a, {}, {}, gives_pure a, gives_pure a⟩
  | bind _ _ ihx ihf =>
      obtain ⟨a, l, l', hx, hy⟩ := ihx
      obtain ⟨b, k, k', hf, hg⟩ := ihf a
      exact ⟨b, _, _, hx.bind hf, hy.bind hg⟩
  | more _ _ ihx ihf =>
      obtain ⟨a, l, _, hx, _⟩ := ihx
      obtain ⟨b, k, k', hf, hy⟩ := ihf a
      exact ⟨b, _, k', hx.bind hf, hy⟩
  | askNeeds m hm => exact ⟨_, _, _, gives_askNeeds hm, gives_askNeeds hm⟩
  | askGenericNeeds owner => exact ⟨_, _, _, gives_askGenericNeeds owner, gives_askGenericNeeds owner⟩
  | askIntrinsic t => exact ⟨_, _, _, gives_askIntrinsic t, gives_askIntrinsic t⟩
  | askTypeName text => exact ⟨_, _, _, gives_askTypeName text, gives_askTypeName text⟩
  | note d => exact ⟨_, _, _, gives_note d, gives_note d⟩
  | enter m => exact ⟨_, _, _, gives_enter m, gives_enter m⟩

/-- An action that may enter nothing gives one answer and enters nothing. -/
theorem Alike.gives_quiet {α : Type} {x : Act α} (h : s.Alike s.Defines (fun _ => False) x x) :
    ∃ a, s.Gives x a {} := by
  obtain ⟨a, l, _, hx, _⟩ := h.gives
  refine ⟨a, fun session hm => ?_⟩
  obtain ⟨memo, hmemo, hrun⟩ := hx session hm
  have hledger := h.ledger_eq session
  refine ⟨memo, hmemo, ?_⟩
  rw [hrun] at hledger ⊢
  rw [show session.ledger ++ l = session.ledger from hledger, Ledger.append_empty]

/-! ## 4. Putting actions together -/

/-- An action whose answer says nothing can be left out. -/
theorem Alike.dropped {x : Act Unit} (h : s.Alike M P x x) : s.Alike M P x (Pure.pure ()) := by
  have := Alike.more h fun _ => Alike.pure ()
  rwa [bind_pure_unit] at this

theorem Alike.forM {α : Type} {f g : α → Act Unit} (h : ∀ a, s.Alike M P (f a) (g a))
    (l : List α) : s.Alike M P (l.forM f) (l.forM g) := by
  induction l with
  | nil => exact .pure _
  | cons a l ih => exact .bind (h a) fun _ => ih

theorem Alike.mapM {α β : Type} {f g : α → Act β} (h : ∀ a, s.Alike M P (f a) (g a))
    (l : List α) : s.Alike M P (l.mapM f) (l.mapM g) := by
  induction l with
  | nil => exact .pure _
  | cons a l ih =>
      rw [List.mapM_cons, List.mapM_cons]
      exact .bind (h a) fun _ => .bind ih fun _ => .pure _

theorem Alike.collectM {f g : Value → Act ValueSet} (h : ∀ v, s.Alike M P (f v) (g v))
    (values : ValueSet) : s.Alike M P (values.collectM f) (values.collectM g) := by
  unfold SetOf.collectM
  generalize SetOf.empty = acc
  induction values.members generalizing acc with
  | nil => exact .pure _
  | cons v l ih =>
      rw [List.foldlM_cons, List.foldlM_cons]
      exact .bind (.bind (h v) fun _ => .pure _) fun _ => ih _

theorem Alike.flatMapM {f g : Value → Act ValueSet} (h : ∀ v, s.Alike M P (f v) (g v))
    (values : ValueSet) : s.Alike M P (values.flatMapM f) (values.flatMapM g) := by
  unfold SetOf.flatMapM
  generalize SetOf.empty = acc
  induction values.members generalizing acc with
  | nil => exact .pure _
  | cons v l ih =>
      refine .bind (h v) fun a => ?_
      show s.Alike M P (if (acc.merge a).isUnknown then _ else _) (if (acc.merge a).isUnknown then _ else _)
      split
      · exact .pure _
      · exact ih _

end Store

/-! ## 5. Reporters -/

namespace Reporter

open Store

/-- A reporter that drops what it is told unless a condition holds. -/
def dimmed (r : Reporter) (b : Bool) : Reporter := { r with live := r.live && b }

@[simp] theorem dimmed_store (r : Reporter) (b : Bool) : (r.dimmed b).store = r.store := rfl

theorem dimmed_true (r : Reporter) : r.dimmed true = r := by
  unfold dimmed
  rw [Bool.and_true]

/-- The reporter looks things up in a store, and what it enters has an origin of a kind. -/
structure Serves (r : Reporter) (s : Store) (P : Origin → Prop) : Prop where
  store : r.store = s
  origin : r.live = true → P r.origin

variable {s : Store} {M : MethodDef → Prop} {P : Origin → Prop} {r : Reporter}

/-- What a reporter that is not live does not do at all, a dimmed one may leave out. -/
theorem alike_dimmed {F : Reporter → Act Unit} (h : s.Alike M P (F r) (F r))
    (hquiet : ∀ r : Reporter, r.live = false → F r = pure ()) (b : Bool) :
    s.Alike M P (F r) (F (r.dimmed b)) := by
  cases b with
  | true =>
      rw [dimmed_true]
      exact h
  | false =>
      rw [hquiet (r.dimmed false) (Bool.and_false _)]
      exact h.dropped

theorem alike_report (hr : r.Serves s P) (f : Finding) (b : Bool) :
    s.Alike M P (r.report f) ((r.dimmed b).report f) := by
  refine alike_dimmed (F := fun r => r.report f) ?_ (fun _ h => report_of_not_live h f) b
  show s.Alike M P (r.report f) (r.report f)
  unfold report
  split
  · next hlive => exact .note _ (hr.origin hlive)
  · exact .pure _

theorem alike_mark (hr : r.Serves s P) (m : Member) (reason : MarkReason) (b : Bool) :
    s.Alike M P (r.mark m reason) ((r.dimmed b).mark m reason) := by
  refine alike_dimmed (F := fun r => r.mark m reason) ?_ (fun _ h => mark_of_not_live h m reason) b
  show s.Alike M P (r.mark m reason) (r.mark m reason)
  unfold mark
  split
  · next hlive => exact .enter _ (hr.origin hlive)
  · exact .pure _

theorem alike_markType (hr : r.Serves s P) (t : Token) (reason : MarkReason) (b : Bool) :
    s.Alike M P (r.markType t reason) ((r.dimmed b).markType t reason) :=
  alike_mark hr _ reason b

theorem alike_markAll (hr : r.Serves s P) (members : List Member) (reason : MarkReason) (b : Bool) :
    s.Alike M P (r.markAll members reason) ((r.dimmed b).markAll members reason) :=
  .forM (fun m => alike_mark hr m reason b) members

theorem alike_markNamed (hr : r.Serves s P) (tokens : List Token) (b : Bool) :
    s.Alike M P (r.markNamed tokens) ((r.dimmed b).markNamed tokens) :=
  .forM (fun t => alike_markType hr t .typeName b) tokens

theorem markMembers_of_not_live (h : r.live = false) (t : Token) (c : Categories) (f : NameFilter)
    (reason : MarkReason) : r.markMembers t c f reason = pure () := by
  simp [markMembers, h]

theorem alike_markMembers (hr : r.Serves s P) (t : Token) (c : Categories) (f : NameFilter)
    (reason : MarkReason) (b : Bool) :
    s.Alike M P (r.markMembers t c f reason) ((r.dimmed b).markMembers t c f reason) := by
  refine alike_dimmed (F := fun r => r.markMembers t c f reason) ?_
    (fun _ h => markMembers_of_not_live h t c f reason) b
  show s.Alike M P (r.markMembers t c f reason) (r.markMembers t c f reason)
  unfold markMembers
  split
  · split
    · refine .bind ?_ fun _ => ?_
      · simpa only [dimmed_true] using alike_markType hr _ reason true
      · simpa only [dimmed_true] using alike_markAll hr _ reason true
    · exact .pure _
  · exact .pure _

theorem alike_requireNamed (hr : r.Serves s P) (text : String) (required : Categories)
    (place : Place) :
    s.Alike M P (r.requireNamed text required place) (r.requireNamed text required place) := by
  unfold requireNamed
  rw [hr.store]
  refine .bind (.askTypeName text) fun found => ?_
  split
  · next named args =>
    refine .bind ?_ fun _ => .bind ?_ fun _ => ?_
    · simpa only [dimmed_true] using alike_markType hr named .typeName true
    · simpa only [dimmed_true] using alike_markMembers hr named required .any .accessedMembers true
    · simpa only [dimmed_true] using alike_markNamed hr args true
  · exact .pure _
  · simpa only [dimmed_true] using alike_report hr (.unresolvedName text place) true

theorem alike_requireOne (hr : r.Serves s P) (required : Categories) (place : Place) (v : Value) :
    s.Alike M P (r.requireOne required place v) (r.requireOne required place v) := by
  have hreport : ∀ f, s.Alike M P (r.report f) (r.report f) := fun f => by
    simpa only [dimmed_true] using alike_report hr f true
  unfold requireOne
  split
  · exact .pure _
  · simpa only [dimmed_true] using alike_markMembers hr _ required .any .accessedMembers true
  · exact alike_requireNamed hr _ required place
  · split
    · split
      · exact .pure _
      · exact hreport _
    · exact hreport _

theorem alike_require (hr : r.Serves s P) (values : ValueSet) (required : Categories)
    (place : Place) (b : Bool) :
    s.Alike M P (r.require values required place) ((r.dimmed b).require values required place) := by
  refine alike_dimmed (F := fun r => r.require values required place) ?_
    (fun _ h => require_of_not_live h values required place) b
  show s.Alike M P (r.require values required place) (r.require values required place)
  unfold require
  split
  · exact .pure _
  · exact .forM (alike_requireOne hr required place) _

end Reporter

/-! ## 6. Values of types -/

namespace Context

open Store

variable {M : MethodDef → Prop} {P : Origin → Prop} (c : Context)

theorem alike_denote (ofVariable : GenericParameter → Value) (ofType : Token → Value)
    (t : TypeSig) :
    c.store.Alike M P (c.denote ofVariable ofType t) (c.denote ofVariable ofType t) := by
  unfold denote
  split
  · exact .bind (.bind (.askGenericNeeds _) fun _ => .pure _) fun _ => .pure _
  · exact .pure _

theorem alike_typeValue (t : TypeSig) : c.store.Alike M P (c.typeValue t) (c.typeValue t) :=
  c.alike_denote _ _ _

theorem alike_handleValue (t : Token) : c.store.Alike M P (c.handleValue t) (c.handleValue t) := by
  unfold handleValue
  split
  · exact c.alike_denote _ _ _
  · exact .pure _

end Context

end ReflectionFlow
