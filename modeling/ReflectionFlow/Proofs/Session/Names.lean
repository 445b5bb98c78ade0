/-
  File:      ReflectionFlow/Proofs/Session/Names.lean
  Subject:   A type name is answered in full or not at all.

  A name with generic arguments is a tree of names.  The answer to it lists the types of all nodes,
  each node before its arguments.  One node that names nothing, however deep, and there is no
  answer; what was found up to there is dropped.

  A session remembers the answer by the text that was asked for.  Whatever names were asked for
  before, each remembered answer is a full list or none, so it does not matter whether the answer is
  found or remembered.

  * `TypeName.preorder`, `TypeName.Node`    the nodes of a name
  * `Store.tokensOf?_eq_mapM`               the answer goes along the nodes
  * `Store.InFull`                          what an answer to a text has to be
  * `Store.Inquired`                        sessions in which one store was asked for names
  * `Store.askTypeName_in_full`
-/
import Mathlib.Data.List.Forall2
import ReflectionFlow.Proofs.Session.Conduct

namespace ReflectionFlow

/-! ## 1. The nodes of a name -/

namespace TypeName

mutual

/-- The nodes of a name, each before its arguments. -/
def preorder : TypeName → List TypeName
  | ⟨name, assembly, args⟩ => ⟨name, assembly, args⟩ :: preorderAll args

/-- The nodes of a list of names, in order. -/
def preorderAll : List TypeName → List TypeName
  | [] => []
  | n :: r => preorder n ++ preorderAll r

end

/-- **A node of a name:** the name itself, or a node of one of its arguments. -/
inductive Node : TypeName → TypeName → Prop where
  | self (t : TypeName) : Node t t
  | arg {t a node : TypeName} (ha : a ∈ t.args) (h : Node a node) : Node t node

theorem mem_preorderAll {args : List TypeName} {node : TypeName} :
    node ∈ preorderAll args ↔ ∃ a ∈ args, node ∈ a.preorder := by
  induction args with
  | nil => simp [preorderAll]
  | cons a args ih => simp [preorderAll, ih]

theorem mem_preorder_iff {t node : TypeName} :
    node ∈ t.preorder ↔ node = t ∨ ∃ a ∈ t.args, node ∈ a.preorder := by
  obtain ⟨name, assembly, args⟩ := t
  rw [preorder, List.mem_cons, mem_preorderAll]

mutual

theorem node_of_mem : ∀ (t : TypeName) {node : TypeName}, node ∈ t.preorder → t.Node node
  | ⟨name, assembly, args⟩, node, h => by
      rw [preorder, List.mem_cons] at h
      rcases h with rfl | h
      · exact .self _
      · obtain ⟨a, ha, hnode⟩ := node_of_mem_all args h
        exact .arg ha hnode

theorem node_of_mem_all : ∀ (args : List TypeName) {node : TypeName}, node ∈ preorderAll args →
    ∃ a ∈ args, a.Node node
  | [], node, h => by cases h
  | a :: args, node, h => by
      rw [preorderAll, List.mem_append] at h
      rcases h with h | h
      · exact ⟨a, List.mem_cons_self, node_of_mem a h⟩
      · obtain ⟨b, hb, hnode⟩ := node_of_mem_all args h
        exact ⟨b, List.mem_cons_of_mem a hb, hnode⟩

end

/-- **The list has all nodes of the name.** -/
theorem mem_preorder {t node : TypeName} : node ∈ t.preorder ↔ t.Node node := by
  constructor
  · exact node_of_mem t
  · intro h
    induction h with
    | self t => exact mem_preorder_iff.mpr (Or.inl rfl)
    | arg ha _ ih => exact mem_preorder_iff.mpr (Or.inr ⟨_, ha, ih⟩)

end TypeName

/-! ## 2. Answers along the nodes -/

namespace Store

variable {s : Store}

/-- The type a node names by itself, without its arguments. -/
def tokenOf? (s : Store) (node : TypeName) : Option Token :=
  (s.typeCalled? node.assembly node.name).map TypeDef.token

theorem tokensOf?_mk (name : String) (assembly : Option String) (args : List TypeName) :
    s.tokensOf? ⟨name, assembly, args⟩ = (s.typeCalled? assembly name).bind fun d =>
      (s.allTokensOf? args).map (d.token :: ·) := by
  conv => lhs; whnf
  cases s.typeCalled? assembly name <;> rfl

theorem allTokensOf?_cons (t : TypeName) (args : List TypeName) :
    s.allTokensOf? (t :: args) = (s.tokensOf? t).bind fun tokens =>
      (s.allTokensOf? args).map (tokens ++ ·) := by
  conv => lhs; whnf
  cases s.tokensOf? t <;> rfl

mutual

/-- **The answer to a name goes along its nodes** and stops at one that names nothing. -/
theorem tokensOf?_eq_mapM : ∀ t : TypeName, s.tokensOf? t = t.preorder.mapM s.tokenOf?
  | ⟨name, assembly, args⟩ => by
      rw [tokensOf?_mk, TypeName.preorder, List.mapM_cons, ← allTokensOf?_eq_mapM args, tokenOf?]
      cases s.typeCalled? assembly name with
      | none => rfl
      | some d => cases s.allTokensOf? args <;> rfl

theorem allTokensOf?_eq_mapM : ∀ args : List TypeName,
    s.allTokensOf? args = (TypeName.preorderAll args).mapM s.tokenOf?
  | [] => rfl
  | t :: args => by
      rw [allTokensOf?_cons, TypeName.preorderAll, List.mapM_append, ← tokensOf?_eq_mapM t,
        ← allTokensOf?_eq_mapM args]
      cases s.tokensOf? t with
      | none => rfl
      | some tokens => cases s.allTokensOf? args <;> rfl

end

theorem mapM_eq_some_iff {α β : Type} {f : α → Option β} {l : List α} {r : List β} :
    l.mapM f = some r ↔ List.Forall₂ (fun a b => f a = some b) l r := by
  induction l generalizing r with
  | nil =>
      rw [List.mapM_nil, List.forall₂_nil_left_iff]
      constructor
      · exact fun h => (Option.some.inj h).symm
      · exact fun h => congrArg some h.symm
  | cons a l ih =>
      rw [List.mapM_cons]
      constructor
      · intro h
        obtain ⟨b, hb, h⟩ := Option.bind_eq_some_iff.mp h
        obtain ⟨bs, hbs, h⟩ := Option.bind_eq_some_iff.mp h
        obtain rfl := Option.some.inj h
        exact .cons hb (ih.mp hbs)
      · intro h
        cases h with
        | cons hb hbs =>
            rw [hb, ih.mpr hbs]
            rfl

theorem mapM_eq_none_iff {α β : Type} {f : α → Option β} {l : List α} :
    l.mapM f = none ↔ ∃ a ∈ l, f a = none := by
  induction l with
  | nil => simp
  | cons a l ih => cases ha : f a <;> cases hl : l.mapM f <;> simp_all

/-! ## 3. Full answers -/

/-- A node names a type. -/
def Names (s : Store) (node : TypeName) (token : Token) : Prop :=
  ∃ d, s.typeCalled? node.assembly node.name = some d ∧ d.token = token

theorem tokenOf?_eq_some_iff {node : TypeName} {token : Token} :
    s.tokenOf? node = some token ↔ s.Names node token :=
  Option.map_eq_some_iff

/-- **A full answer to a text:** it lists what the nodes of the name stand for, in order, if the
    text is a name and every node stands for something; otherwise there is none. -/
structure InFull (s : Store) (text : String) (answer : Option (List Token)) : Prop where
  lists : ∀ tokens, answer = some tokens ↔
    ∃ tree, TypeName.parse? text = some tree ∧ List.Forall₂ s.Names tree.preorder tokens
  exists_iff : answer.isSome = true ↔
    ∃ tree, TypeName.parse? text = some tree ∧ ∀ node, tree.Node node → ∃ token, s.Names node token
  missing : ∀ tree node, TypeName.parse? text = some tree → tree.Node node →
    s.typeCalled? node.assembly node.name = none → answer = none
  first : ∀ tree tokens, TypeName.parse? text = some tree → answer = some tokens →
    ∃ token rest, tokens = token :: rest ∧ s.Names tree token

/-- **What the store says about a text is a full answer.** -/
theorem inFull_resolveName? (s : Store) (text : String) : s.InFull text (s.resolveName? text) := by
  have hlists : ∀ tokens, s.resolveName? text = some tokens ↔
      ∃ tree, TypeName.parse? text = some tree ∧ List.Forall₂ s.Names tree.preorder tokens := by
    intro tokens
    unfold resolveName?
    rw [Option.bind_eq_some_iff]
    simp only [tokensOf?_eq_mapM, mapM_eq_some_iff, tokenOf?_eq_some_iff]
  have hmissing : ∀ tree node, TypeName.parse? text = some tree → tree.Node node →
      s.typeCalled? node.assembly node.name = none → s.resolveName? text = none := by
    intro tree node htree hnode hnone
    unfold resolveName?
    rw [htree, Option.bind_some, tokensOf?_eq_mapM, mapM_eq_none_iff]
    exact ⟨node, TypeName.mem_preorder.mpr hnode, Option.map_eq_none_iff.mpr hnone⟩
  constructor
  case lists => exact hlists
  case missing => exact hmissing
  case exists_iff =>
      constructor
      · intro hsome
        obtain ⟨tokens, htokens⟩ := Option.isSome_iff_exists.mp hsome
        obtain ⟨tree, htree, hall⟩ := (hlists tokens).mp htokens
        refine ⟨tree, htree, fun node hnode => ?_⟩
        cases hd : s.typeCalled? node.assembly node.name with
        | some d => exact ⟨d.token, d, hd, rfl⟩
        | none =>
            rw [hmissing tree node htree hnode hd] at htokens
            cases htokens
      · rintro ⟨tree, htree, hall⟩
        rw [Option.isSome_iff_ne_none]
        intro hnone
        unfold resolveName? at hnone
        rw [htree, Option.bind_some, tokensOf?_eq_mapM, mapM_eq_none_iff] at hnone
        obtain ⟨node, hnode, hnone⟩ := hnone
        obtain ⟨token, htoken⟩ := hall node (TypeName.mem_preorder.mp hnode)
        rw [tokenOf?_eq_some_iff.mpr htoken] at hnone
        cases hnone
  case first =>
      intro tree tokens htree htokens
      obtain ⟨tree', htree', hall⟩ := (hlists tokens).mp htokens
      obtain rfl := Option.some.inj (htree.symm.trans htree')
      obtain ⟨name, assembly, args⟩ := tree
      rw [TypeName.preorder] at hall
      cases hall with
      | cons htoken _ => exact ⟨_, _, rfl, htoken⟩

/-! ## 4. Sessions -/

/-- **The sessions in which names were asked for in one store**, any names in any order, with
    anything else done in between that does not touch what is remembered of names. -/
inductive Inquired (s : Store) : Session → Prop where
  | start (session : Session) (h : session.memo.typeNames = []) : Inquired s session
  | ask (session : Session) (h : Inquired s session) (text : String) :
      Inquired s ((s.askTypeName text).run session).2
  | other (session session' : Session) (h : Inquired s session)
      (hnames : session'.memo.typeNames = session.memo.typeNames) : Inquired s session'

/-- Asking for a name in a session that remembers right answers to names. -/
theorem run_askTypeName {session : Session} (text : String)
    (h : ∀ x n, session.memo.typeNames.get? x = some n → n = s.resolveName? x) :
    ((s.askTypeName text).run session).1 = s.resolveName? text ∧
      ((s.askTypeName text).run session).2.memo.typeNames.get? text = some (s.resolveName? text) ∧
      ∀ x n, ((s.askTypeName text).run session).2.memo.typeNames.get? x = some n →
        n = s.resolveName? x := by
  unfold askTypeName
  rw [run_recall]
  dsimp only
  cases hfound : session.memo.typeNames.get? text with
  | some found =>
      have hright := h text found hfound
      exact ⟨hright, hright ▸ hfound, h⟩
  | none =>
      exact ⟨rfl, Assoc.get?_insert_self .., forall_get?_insert h rfl⟩

/-- **What such a session remembers of names is right.** -/
theorem Inquired.faithful {session : Session} (h : s.Inquired session) :
    ∀ x n, session.memo.typeNames.get? x = some n → n = s.resolveName? x := by
  induction h with
  | start session h =>
      intro x n hn
      rw [h] at hn
      cases hn
  | ask session _ text ih => exact (run_askTypeName text ih).2.2
  | other session session' _ hnames ih => rwa [hnames]

/-- **A type name is answered in full or not at all**, whatever was asked for before; and so is
    every name that is remembered, before and after. -/
theorem askTypeName_in_full (s : Store) (text : String) {session : Session}
    (h : s.Inquired session) :
    s.InFull text ((s.askTypeName text).run session).1 ∧
    ((s.askTypeName text).run session).2.memo.typeNames.get? text =
      some ((s.askTypeName text).run session).1 ∧
    (∀ other answer, session.memo.typeNames.get? other = some answer → s.InFull other answer) ∧
    ∀ other answer, ((s.askTypeName text).run session).2.memo.typeNames.get? other = some answer →
      s.InFull other answer := by
  obtain ⟨hanswer, hkept, hafter⟩ := run_askTypeName text h.faithful
  refine ⟨?_, ?_, ?_, ?_⟩
  · rw [hanswer]
    exact s.inFull_resolveName? text
  · rw [hkept, hanswer]
  · intro other answer hother
    rw [h.faithful other answer hother]
    exact s.inFull_resolveName? other
  · intro other answer hother
    rw [hafter other answer hother]
    exact s.inFull_resolveName? other

/-! ## 5. A store with three types -/

namespace Boxes

def store : Store :=
  ofList [.type "App" "" "Pair" 0 none, .type "App" "" "Box" 0 none, .type "Core" "" "Leaf" 0 none]

/-- The second argument of the inner name is not there. -/
def gapped : String := "Pair[[Box[Leaf],App],[Box[[Leaf,App]]]]"

def complete : String := "Pair[[Box[Leaf],App],[Box[[Leaf,Core]]]]"

/-- A session that was asked for both names before. -/
def session : Session :=
  ((store.askTypeName complete).run ((store.askTypeName gapped).run {}).2).2

theorem inquired : store.Inquired session := .ask _ (.ask _ (.start _ rfl) _) _

/-- **The tokens of all five nodes, or none.** -/
theorem answers_in_full :
    ((store.askTypeName complete).run session).1 =
      some [⟨0x02000001⟩, ⟨0x02000002⟩, ⟨0x02000003⟩, ⟨0x02000002⟩, ⟨0x02000003⟩] ∧
    store.InFull complete ((store.askTypeName complete).run session).1 ∧
    ((store.askTypeName gapped).run session).1 = none ∧
    store.InFull gapped ((store.askTypeName gapped).run session).1 := by
  refine ⟨by decide +kernel, ?_, by decide +kernel, ?_⟩
  · exact (askTypeName_in_full store complete inquired).1
  · exact (askTypeName_in_full store gapped inquired).1

end Boxes

end Store

end ReflectionFlow
