/-
  File:      ReflectionFlow/Proofs/Reflection/Coverage.lean
  Subject:   Actions that enter at least what another action enters.

  A rule that is given more than one value does more than one that is given a single value, and it
  does it in another order and in a session that has learned other things on the way.  What can be
  compared is what is entered: every mark of the one is a mark of the other, and where the one
  reports something, so does the other.

  * `Ledger.Covers`          entries that include others, as far as marks go
  * `Store.Outdoes`          an action enters at least what another one enters
  * `Store.Alike.outdoes`    actions that answer alike
  * `Outdoes.forM_left`, …   a loop enters what one of its rounds enters
  * `Reporter.outdoes_markMembers`, `Reporter.outdoes_require`   wider selections, more requirements
-/
import ReflectionFlow.Proofs.Members.Superset
import ReflectionFlow.Proofs.Reflection.Phases

namespace ReflectionFlow

/-! ## 1. Entries -/

namespace Ledger

/-- **The marks include those of another ledger**, and if that one has a diagnostic there is one
    here too. -/
structure Covers (l k : Ledger) : Prop where
  marks : k.marks ⊆ l.marks
  diagnostics : k.diagnostics ≠ [] → l.diagnostics ≠ []

theorem covers_empty (l : Ledger) : l.Covers {} := ⟨List.nil_subset _, fun h => absurd rfl h⟩

theorem Covers.refl (l : Ledger) : l.Covers l := ⟨List.Subset.refl _, id⟩

theorem Covers.append {l l' k k' : Ledger} (h : l.Covers k) (h' : l'.Covers k') :
    (l ++ l').Covers (k ++ k') := by
  constructor
  · intro e he
    exact List.mem_append.mpr ((List.mem_append.mp he).imp (h.marks ·) (h'.marks ·))
  · intro hne hnil
    obtain ⟨hl, hl'⟩ := List.append_eq_nil_iff.mp hnil
    refine hne (List.append_eq_nil_iff.mpr ⟨?_, ?_⟩)
    · exact not_imp_not.mp h.diagnostics hl
    · exact not_imp_not.mp h'.diagnostics hl'

/-- Entries that cover two ledgers cover both together. -/
theorem Covers.both {l k k' : Ledger} (h : l.Covers k) (h' : l.Covers k') : l.Covers (k ++ k') := by
  constructor
  · exact List.append_subset.mpr ⟨h.marks, h'.marks⟩
  · intro hne hnil
    refine hne (List.append_eq_nil_iff.mpr ⟨?_, ?_⟩)
    · exact not_imp_not.mp h.diagnostics hnil
    · exact not_imp_not.mp h'.diagnostics hnil

theorem append_cancel {l k k' : Ledger} (h : l ++ k = l ++ k') : k = k' := by
  obtain ⟨marks, diagnostics⟩ := k
  obtain ⟨marks', diagnostics'⟩ := k'
  simp only [append_def, Ledger.mk.injEq, List.append_cancel_left_eq] at h
  rw [h.1, h.2]

end Ledger

/-! ## 2. Comparing actions -/

namespace Store

/-- A session after some entries, with all answers as before. -/
structure Enters (s : Store) (m : MethodDef) (σ : Session) (l : Ledger) (σ' : Session) : Prop where
  ledger : σ'.ledger = σ.ledger ++ l
  agree : s.Agree (· = m) σ σ'

/-- **An action enters at least what another one enters**, in sessions that give the same answers;
    the annotations of one method may be asked for. -/
def Outdoes (s : Store) (m : MethodDef) {α β : Type} (x : Act α) (y : Act β) : Prop :=
  ∀ σ τ : Session, s.Agree (· = m) σ τ → ∃ l k : Ledger,
    s.Enters m σ l (x.run σ).2 ∧ s.Enters m τ k (y.run τ).2 ∧ l.Covers k

/-- An action of questions and entries, -/
abbrev Plain (s : Store) (m : MethodDef) {α : Type} (x : Act α) : Prop :=
  s.Alike (· = m) (fun _ => True) x x

/-- and one of questions alone. -/
abbrev Quiet (s : Store) (m : MethodDef) {α : Type} (x : Act α) : Prop :=
  s.Alike (· = m) (fun _ => False) x x

variable {s : Store} {m : MethodDef} {P : Origin → Prop} {α β γ δ : Type}

theorem Enters.trans {σ σ' σ'' : Session} {l k : Ledger} (h : s.Enters m σ l σ')
    (h' : s.Enters m σ' k σ'') : s.Enters m σ (l ++ k) σ'' :=
  ⟨by rw [h'.ledger, h.ledger, Ledger.append_assoc], h.agree.trans h'.agree⟩

theorem Enters.unique {σ σ' : Session} {l k : Ledger} (h : s.Enters m σ l σ')
    (h' : s.Enters m σ k σ') : l = k :=
  Ledger.append_cancel (h.ledger.symm.trans h'.ledger)

/-- Annotations of a single method are asked for. -/
theorem one_method (m₁ m₂ : MethodDef) (h₁ : m₁ = m) (h₂ : m₂ = m) (_ : m₁.token = m₂.token) :
    m₁ = m₂ :=
  h₁.trans h₂.symm

/-- An action that may enter nothing enters nothing. -/
theorem enters_of_quiet {x : Act α} (h : s.Quiet m x) (σ : Session) :
    s.Enters m σ {} (x.run σ).2 :=
  ⟨by rw [h.ledger_eq σ, Ledger.append_empty], (h.agree one_method (.refl σ)).2.1⟩

theorem outdoes_of_quiet {x : Act α} {y : Act β} (hx : s.Quiet m x) (hy : s.Quiet m y) :
    s.Outdoes m x y := fun σ τ _ =>
  ⟨{}, {}, enters_of_quiet hx σ, enters_of_quiet hy τ, .refl _⟩

/-- One action after another; what the first ones answer does not matter. -/
theorem Outdoes.bind {x : Act α} {y : Act β} {f : α → Act γ} {g : β → Act δ}
    (h : s.Outdoes m x y) (hf : ∀ a b, s.Outdoes m (f a) (g b)) :
    s.Outdoes m (x >>= f) (y >>= g) := by
  intro σ τ hagree
  obtain ⟨l, k, hl, hk, hcovers⟩ := h σ τ hagree
  have hagree' := hl.agree.symm.trans (hagree.trans hk.agree)
  obtain ⟨l', k', hl', hk', hcovers'⟩ := hf (x.run σ).1 (y.run τ).1 _ _ hagree'
  rw [Act.run_bind, Act.run_bind]
  exact ⟨l ++ l', k ++ k', hl.trans hl', hk.trans hk', hcovers.append hcovers'⟩

/-- Actions that answer alike go on with the same answer. -/
theorem Outdoes.bind_alike {x y : Act α} {f : α → Act γ} {g : α → Act δ}
    (h : s.Outdoes m x y) (hxy : s.Alike (· = m) P x y) (hf : ∀ a, s.Outdoes m (f a) (g a)) :
    s.Outdoes m (x >>= f) (y >>= g) := by
  intro σ τ hagree
  obtain ⟨l, k, hl, hk, hcovers⟩ := h σ τ hagree
  have hagree' := hl.agree.symm.trans (hagree.trans hk.agree)
  obtain ⟨l', k', hl', hk', hcovers'⟩ := hf (x.run σ).1 _ _ hagree'
  rw [(hxy.agree one_method hagree).1] at hl' hk'
  rw [Act.run_bind, Act.run_bind, (hxy.agree one_method hagree).1]
  exact ⟨l ++ l', k ++ k', hl.trans hl', hk.trans hk', hcovers.append hcovers'⟩

/-- **Actions that answer alike:** the first one enters at least what the second one enters. -/
theorem Alike.outdoes {x y : Act α} (h : s.Alike (· = m) P x y) : s.Outdoes m x y := by
  have hquiet : ∀ {α : Type} {x : Act α}, s.Quiet m x → s.Outdoes m x x := fun h =>
    outdoes_of_quiet h h
  induction h with
  | pure a => exact hquiet (.pure a)
  | bind hx _ ihx ihf => exact ihx.bind_alike hx ihf
  | @more _ _ x f y _ _ ihx ihf =>
      intro σ τ hagree
      obtain ⟨l, _, hl, _⟩ := ihx σ σ (.refl σ)
      obtain ⟨l', k, hl', hk, hcovers⟩ := ihf (x.run σ).1 _ τ (hl.agree.symm.trans hagree)
      rw [Act.run_bind]
      exact ⟨l ++ l', k, hl.trans hl', hk, (Ledger.covers_empty l).append hcovers⟩
  | askNeeds m hm => exact hquiet (.askNeeds m hm)
  | askGenericNeeds owner => exact hquiet (.askGenericNeeds owner)
  | askIntrinsic t => exact hquiet (.askIntrinsic t)
  | askTypeName text => exact hquiet (.askTypeName text)
  | note d =>
      have henters : ∀ σ, s.Enters m σ ⟨[], [d]⟩ ((Reporter.note d).run σ).2 := fun σ =>
        ⟨by rw [Ledger.append_def, List.append_nil]; rfl, agree_of_memo rfl⟩
      exact fun σ τ _ => ⟨_, _, henters σ, henters τ, .refl _⟩
  | enter e =>
      have henters : ∀ σ, s.Enters m σ ⟨[e], []⟩ ((Reporter.enter e).run σ).2 := fun σ =>
        ⟨by rw [Ledger.append_def, List.append_nil]; rfl, agree_of_memo rfl⟩
      exact fun σ τ _ => ⟨_, _, henters σ, henters τ, .refl _⟩

theorem Plain.outdoes {x : Act α} (h : s.Plain m x) : s.Outdoes m x x := Alike.outdoes h

/-- The same question is asked first. -/
theorem Outdoes.ask {x : Act α} {f : α → Act γ} {g : α → Act δ} (hx : s.Plain m x)
    (hf : ∀ a, s.Outdoes m (f a) (g a)) : s.Outdoes m (x >>= f) (x >>= g) :=
  hx.outdoes.bind_alike hx hf

/-- An action that only adds to the ledger enters at least nothing. -/
theorem outdoes_pure {x : Act α} (hx : s.Plain m x) (b : β) : s.Outdoes m x (pure b) := by
  intro σ τ hagree
  obtain ⟨l, _, hl, _⟩ := hx.outdoes σ σ (.refl σ)
  exact ⟨l, {}, hl, enters_of_quiet (.pure b) τ, Ledger.covers_empty l⟩

/-- Something is done before. -/
theorem Outdoes.before {x : Act α} {f : α → Act γ} {y : Act δ} (hx : s.Plain m x)
    (hf : ∀ a, s.Outdoes m (f a) y) : s.Outdoes m (x >>= f) y := by
  have h := (outdoes_pure hx ()).bind (g := fun _ => y) fun a _ => hf a
  rwa [pure_bind] at h

/-- Something is done afterwards. -/
theorem Outdoes.after {x : Act α} {f : α → Act γ} {y : Act β} (h : s.Outdoes m x y)
    (hf : ∀ a, s.Plain m (f a)) : s.Outdoes m (x >>= f) y := by
  have h := h.bind (g := pure) fun a b => outdoes_pure (hf a) b
  rwa [bind_pure] at h

/-- Something quiet is done afterwards. -/
theorem Outdoes.quietly {x : Act α} {y : Act β} {g : β → Act δ} (h : s.Outdoes m x y)
    (hg : ∀ b, s.Quiet m (g b)) : s.Outdoes m x (y >>= g) := by
  have h := h.bind (f := pure) fun a b => outdoes_of_quiet (.pure a) (hg b)
  rwa [bind_pure] at h

/-- **An action that outdoes two others outdoes one after the other.** -/
theorem Outdoes.both {x : Act α} {y : Act β} {z : Act γ} (hy : s.Outdoes m x y)
    (hz : s.Outdoes m x z) : s.Outdoes m x (y >>= fun _ => z) := by
  intro σ τ hagree
  obtain ⟨l, k, hl, hk, hcovers⟩ := hy σ τ hagree
  obtain ⟨l', k', hl', hk', hcovers'⟩ := hz σ _ (hagree.trans hk.agree)
  obtain rfl := hl'.unique hl
  rw [Act.run_bind]
  exact ⟨l', k ++ k', hl, hk.trans hk', hcovers.both hcovers'⟩

/-! ## 3. Loops -/

section Loops

variable {f : γ → Act α} {y : Act β} {l : List γ} {v : γ}

/-- **A loop enters what one of its rounds enters.** -/
theorem Outdoes.forM_left {f : γ → Act Unit} (hf : ∀ a, s.Plain m (f a)) (hv : v ∈ l)
    (h : s.Outdoes m (f v) y) : s.Outdoes m (l.forM f) y := by
  induction l with
  | nil => cases hv
  | cons a l ih =>
      rcases List.mem_cons.mp hv with rfl | hv
      · exact h.after fun _ => .forM hf l
      · exact .before (hf a) fun _ => ih hv

theorem Outdoes.mapM_left (hf : ∀ a, s.Plain m (f a)) (hv : v ∈ l)
    (h : s.Outdoes m (f v) y) : s.Outdoes m (l.mapM f) y := by
  induction l with
  | nil => cases hv
  | cons a l ih =>
      rw [List.mapM_cons]
      rcases List.mem_cons.mp hv with rfl | hv
      · exact h.after fun _ => .bind (.mapM hf l) fun _ => .pure _
      · exact .before (hf a) fun _ => (ih hv).after fun _ => .pure _

theorem Outdoes.collectM_left {f : Value → Act ValueSet} {values : ValueSet} {v : Value}
    (hf : ∀ a, s.Plain m (f a)) (hv : v ∈ values) (h : s.Outdoes m (f v) y) :
    s.Outdoes m (values.collectM f) y := by
  have hround : ∀ (acc : ValueSet) (a : Value),
      s.Plain m (do return acc.merge (← f a)) := fun _ a =>
    .bind (hf a) fun _ => .pure _
  have hrest : ∀ (l : List Value) (acc : ValueSet),
      s.Plain m (l.foldlM (fun acc a => do return acc.merge (← f a)) acc) := by
    intro l
    induction l with
    | nil => exact fun _ => .pure _
    | cons a l ih =>
        intro acc
        rw [List.foldlM_cons]
        exact .bind (hround acc a) fun _ => ih _
  unfold SetOf.collectM
  generalize SetOf.empty = acc
  obtain ⟨l, hl⟩ : ∃ l, values.members = l := ⟨_, rfl⟩
  replace hv : v ∈ l := hl ▸ hv
  rw [hl]
  clear hl
  induction l generalizing acc with
  | nil => cases hv
  | cons a l ih =>
      rw [List.foldlM_cons]
      rcases List.mem_cons.mp hv with rfl | hv
      · exact (h.after fun _ => .pure _).after fun _ => hrest l _
      · exact .before (hround acc a) fun _ => ih _ hv

/-- **An action that outdoes every round outdoes the loop.** -/
theorem Outdoes.forM_right {x : Act α} {g : γ → Act Unit} (hx : s.Plain m x)
    (h : ∀ a ∈ l, s.Outdoes m x (g a)) : s.Outdoes m x (l.forM g) := by
  induction l with
  | nil => exact outdoes_pure hx ()
  | cons a l ih =>
      exact (h a List.mem_cons_self).both (ih fun b hb => h b (List.mem_cons_of_mem a hb))

theorem Outdoes.forM_subset {l' : List γ} {f : γ → Act Unit}
    (hf : ∀ a, s.Plain m (f a)) (h : l' ⊆ l) :
    s.Outdoes m (l.forM f) (l'.forM f) :=
  .forM_right (.forM hf l) fun a ha => .forM_left hf (h ha) (hf a).outdoes

end Loops

end Store

/-! ## 4. Reporters -/

namespace Reporter

open Store

variable {s : Store} {m : MethodDef} {r : Reporter}

/-- One finding is reported in the place of another. -/
theorem outdoes_report (f g : Finding) : s.Outdoes m (r.report f) (r.report g) := by
  unfold report
  cases r.live with
  | false => exact outdoes_of_quiet (.pure ()) (.pure ())
  | true =>
      have henters : ∀ (f : Finding) (σ : Session), s.Enters m σ ⟨[], [f.diagnostic r.origin]⟩
          ((note (f.diagnostic r.origin)).run σ).2 := fun f σ =>
        ⟨by rw [Ledger.append_def, List.append_nil]; rfl, agree_of_memo rfl⟩
      exact fun σ τ _ => ⟨_, _, henters f σ, henters g τ, List.Subset.refl _, fun _ => List.cons_ne_nil _ _⟩

variable (hr : r.Serves s fun _ => True)
include hr

theorem alike_reportSame (f : Finding) : s.Plain m (r.report f) := by
  simpa only [dimmed_true] using alike_report hr f true

theorem outdoes_markAll {members members' : List Member} (reason : MarkReason)
    (h : members' ⊆ members) :
    s.Outdoes m (r.markAll members reason) (r.markAll members' reason) := by
  refine .forM_subset (fun a => ?_) h
  simpa only [dimmed_true] using alike_mark hr a reason true

/-- **A wider selection marks more.** -/
theorem outdoes_markMembers (hs : s.TypesTabled) {c c' : Categories} {f f' : NameFilter}
    (h : Wider c' c f' f) (t : Token) (reason : MarkReason) :
    s.Outdoes m (r.markMembers t c' f' reason) (r.markMembers t c f reason) := by
  unfold markMembers
  rw [hr.store]
  cases r.live with
  | false => exact outdoes_of_quiet (.pure ()) (.pure ())
  | true =>
      cases hd : s.type? t with
      | none => exact outdoes_of_quiet (.pure ()) (.pure ())
      | some d =>
          have htype : s.Plain m (r.markType d.token reason) := by
            simpa only [dimmed_true] using alike_markType hr d.token reason true
          exact htype.outdoes.bind fun _ _ =>
            outdoes_markAll hr reason (hs.select_subset (hs.defines hd) h)

theorem outdoes_requireNamed (hs : s.TypesTabled) {required required' : Categories}
    (h : required'.covers required = true) (text : String) (place : Place) :
    s.Outdoes m (r.requireNamed text required' place) (r.requireNamed text required place) := by
  unfold requireNamed
  rw [hr.store]
  refine .ask (.askTypeName text) fun found => ?_
  cases found with
  | none => exact (alike_reportSame hr _).outdoes
  | some tokens =>
      cases tokens with
      | nil => exact outdoes_of_quiet (.pure ()) (.pure ())
      | cons named args =>
          refine .bind (Plain.outdoes ?_) fun _ _ => .bind ?_ fun _ _ =>
            Plain.outdoes ?_
          · simpa only [dimmed_true] using alike_markType hr named .typeName true
          · exact outdoes_markMembers hr hs ⟨h, fun _ => id⟩ named .accessedMembers
          · simpa only [dimmed_true] using alike_markNamed hr args true

/-- More is required of a value. -/
theorem outdoes_requireOne (hs : s.TypesTabled) {required required' : Categories}
    (h : required'.covers required = true) (place : Place) (v : Value) :
    s.Outdoes m (r.requireOne required' place v) (r.requireOne required place v) := by
  unfold requireOne
  split
  · exact outdoes_of_quiet (.pure ()) (.pure ())
  · exact outdoes_markMembers hr hs ⟨h, fun _ => id⟩ _ _
  · exact outdoes_requireNamed hr hs h _ place
  · cases v.annotation? with
    | none => exact (alike_reportSame hr _).outdoes
    | some promise =>
        obtain ⟨source, available⟩ := promise
        dsimp only
        -- a promise that covers more covers less, so a report is never lost
        by_cases hcovers' : available.covers required' = true
        · rw [if_pos hcovers', if_pos (Categories.covers_trans hcovers' h)]
          exact outdoes_of_quiet (.pure ()) (.pure ())
        · rw [if_neg hcovers']
          split
          · exact outdoes_pure (alike_reportSame hr _) ()
          · exact outdoes_report _ _

/-- **More is required of more values.** -/
theorem outdoes_require (hs : s.TypesTabled) {required required' : Categories}
    (h : required'.covers required = true) {values values' : ValueSet}
    (hvalues : values.members ⊆ values'.members) (place : Place) :
    s.Outdoes m (r.require values' required' place) (r.require values required place) := by
  have hall : s.Plain m (r.require values' required' place) := by
    simpa only [dimmed_true] using alike_require hr values' required' place true
  unfold require at hall ⊢
  by_cases hskip : (required.isEmpty || !r.live) = true
  · rw [if_pos hskip]
    exact outdoes_pure hall ()
  · have hskip' : ¬ (required'.isEmpty || !r.live) = true := by
      intro hskip'
      refine hskip (Bool.or_eq_true_iff.mpr ?_)
      exact (Bool.or_eq_true_iff.mp hskip').imp_left (Categories.isEmpty_of_covers h)
    rw [if_neg hskip'] at hall ⊢
    rw [if_neg hskip]
    exact .forM_right hall fun v hv => .forM_left (alike_requireOne hr required' place) (hvalues hv)
      (outdoes_requireOne hr hs h place v)

end Reporter

end ReflectionFlow
