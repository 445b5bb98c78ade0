/-
  File:      ReflectionFlow/Proofs/Metadata/Substitution.lean
  Subject:   Substitutions one after the other are one substitution.

  The arguments of a reference are written in terms of the variables of the method that refers, so
  along a chain of calls signatures are substituted again and again.  Doing it step by step must
  come to the same as putting the arguments together first.  That is so where every variable of the
  signature has an argument.  A variable without one stays, and the next substitution would take it
  for a variable of its own.

  * `TypeSig.induct`                   induction over signatures, arguments and parameters included
  * `TypeSig.Mentions`, `Supplied`     variables that occur, and that have an argument
  * `TypeSig.substitute_substitute`    two substitutions in one
  * `TypeSig.substitute_of_closed`, `TypeSig.substitute_nil`, `TypeSig.isOpen_substitute`
  * `substitute_composes`              the same along calls
-/
import ReflectionFlow.Session.Context

namespace ReflectionFlow

namespace TypeSig

/-! ## 1. Induction -/

/-- **Induction over signatures.**  A generic type is reached from its arguments, a function from what
    it returns and from its parameters. -/
theorem induct {P : TypeSig → Prop} (prim : ∀ p, P (.prim p)) (classType : ∀ t, P (.classType t))
    (valueType : ∀ t, P (.valueType t)) (inst : ∀ d v args, (∀ a ∈ args, P a) → P (.inst d v args))
    (typeVar : ∀ n, P (.typeVar n)) (methodVar : ∀ n, P (.methodVar n))
    (vector : ∀ t, P t → P (.vector t)) (array : ∀ t n, P t → P (.array t n))
    (pointer : ∀ t, P t → P (.pointer t)) (byRef : ∀ t, P t → P (.byRef t))
    (function : ∀ sig : MethodSig, P sig.ret → (∀ p ∈ sig.params, P p) → P (.function sig))
    (t : TypeSig) : P t :=
  TypeSig.rec (motive_1 := P) (motive_2 := fun l => ∀ a ∈ l, P a)
    (motive_3 := fun sig => P sig.ret ∧ ∀ p ∈ sig.params, P p) prim classType valueType inst typeVar
    methodVar vector array pointer byRef (fun sig h => function sig h.1 h.2) nofun
    (fun _ _ ht hr => List.forall_mem_cons.mpr ⟨ht, hr⟩)
    (fun _ _ _ _ _ hret hparams => ⟨hret, hparams⟩) t

theorem anyOpen_eq_any (l : List TypeSig) : anyOpen l = l.any isOpen := by
  induction l with
  | nil => rfl
  | cons t r ih => rw [anyOpen, List.any_cons, ih]

theorem isOpenMethod_eq (sig : MethodSig) :
    isOpenMethod sig = (sig.ret.isOpen || sig.params.any isOpen) := by
  cases sig with
  | mk => rw [isOpenMethod, anyOpen_eq_any]

theorem substituteMethod_eq (t m : List TypeSig) (sig : MethodSig) : substituteMethod t m sig =
    { sig with ret := sig.ret.substitute t m, params := sig.params.map (substitute t m) } := by
  cases sig with
  | mk => rw [substituteMethod, substituteAll_eq_map]

/-! ## 2. Variables -/

/-- **A signature occurs in another one**: it is the other one, or occurs in one of its parts. -/
inductive Mentions : TypeSig → TypeSig → Prop
  | self {t : TypeSig} : Mentions t t
  | inst {d : Token} {v : Bool} {args : List TypeSig} {a t : TypeSig} (ha : a ∈ args)
      (h : Mentions a t) : Mentions (.inst d v args) t
  | vector {e t : TypeSig} (h : Mentions e t) : Mentions (.vector e) t
  | array {e t : TypeSig} {n : Nat} (h : Mentions e t) : Mentions (.array e n) t
  | pointer {e t : TypeSig} (h : Mentions e t) : Mentions (.pointer e) t
  | byRef {e t : TypeSig} (h : Mentions e t) : Mentions (.byRef e) t
  | ret {sig : MethodSig} {t : TypeSig} (h : Mentions sig.ret t) : Mentions (.function sig) t
  | param {sig : MethodSig} {p t : TypeSig} (hp : p ∈ sig.params) (h : Mentions p t) :
      Mentions (.function sig) t

end TypeSig

/-- A signature occurs in a method signature. -/
def MethodSigOf.Mentions (sig : MethodSig) (t : TypeSig) : Prop :=
  sig.ret.Mentions t ∨ ∃ p ∈ sig.params, p.Mentions t

/-- **Every variable has an argument**, of all variables that occur. -/
structure Supplied (typeArgs methodArgs : List TypeSig) (occurs : TypeSig → Prop) : Prop where
  types : ∀ n, occurs (.typeVar n) → n < typeArgs.length
  methods : ∀ n, occurs (.methodVar n) → n < methodArgs.length

/-- No variable occurs in any of the arguments. -/
def AllClosed (args : List TypeSig) : Prop := ∀ a ∈ args, a.isOpen = false

section Composition

variable {t₁ m₁ : List TypeSig} {occurs occurs' : TypeSig → Prop}

theorem Supplied.mono (h : Supplied t₁ m₁ occurs) (ho : ∀ t, occurs' t → occurs t) :
    Supplied t₁ m₁ occurs' :=
  ⟨fun n hn => h.types n (ho _ hn), fun n hn => h.methods n (ho _ hn)⟩

namespace TypeSig

variable {s : TypeSig}

/-! ## 3. Two substitutions -/

/-- **Two substitutions in one**: the second one is made in the arguments of the first. -/
theorem substitute_substitute (h : Supplied t₁ m₁ s.Mentions) (t₂ m₂ : List TypeSig) :
    (s.substitute t₁ m₁).substitute t₂ m₂ =
      s.substitute (t₁.map (substitute t₂ m₂)) (m₁.map (substitute t₂ m₂)) := by
  induction s using induct with
  | prim | classType | valueType => rfl
  | typeVar n =>
      have hn := h.types n .self
      simp only [substitute, List.getElem?_map, List.getElem?_eq_getElem hn, Option.map_some,
        Option.getD_some]
  | methodVar n =>
      have hn := h.methods n .self
      simp only [substitute, List.getElem?_map, List.getElem?_eq_getElem hn, Option.map_some,
        Option.getD_some]
  | inst d v args ih =>
      simp only [substitute, substituteAll_eq_map, List.map_map]
      congr 1
      refine List.map_congr_left fun a ha => ?_
      exact ih a ha (h.mono fun _ => .inst ha)
  | vector t ih => simp only [substitute, ih (h.mono fun _ => .vector)]
  | array t n ih => simp only [substitute, ih (h.mono fun _ => .array)]
  | pointer t ih => simp only [substitute, ih (h.mono fun _ => .pointer)]
  | byRef t ih => simp only [substitute, ih (h.mono fun _ => .byRef)]
  | function sig hret hparams =>
      simp only [substitute, substituteMethod_eq, List.map_map]
      rw [hret (h.mono fun _ => .ret)]
      congr 2
      refine List.map_congr_left fun p hp => ?_
      exact hparams p hp (h.mono fun _ => .param hp)

/-- **Nothing is put into a signature without variables.** -/
theorem substitute_of_closed (h : s.isOpen = false) (t₂ m₂ : List TypeSig) :
    s.substitute t₂ m₂ = s := by
  induction s using induct with
  | prim | classType | valueType => rfl
  | typeVar | methodVar => cases h
  | inst d v args ih =>
      rw [isOpen, anyOpen_eq_any, List.any_eq_false] at h
      rw [substitute, substituteAll_eq_map]
      congr 1
      refine (List.map_congr_left fun a ha => ?_).trans (List.map_id args)
      exact ih a ha (Bool.eq_false_iff.mpr (h a ha))
  | vector t ih => rw [substitute, ih h]
  | array t n ih => rw [substitute, ih h]
  | pointer t ih => rw [substitute, ih h]
  | byRef t ih => rw [substitute, ih h]
  | function sig hret hparams =>
      rw [isOpen, isOpenMethod_eq, Bool.or_eq_false_iff, List.any_eq_false] at h
      have hmap : sig.params.map (substitute t₂ m₂) = sig.params :=
        (List.map_congr_left fun p hp => hparams p hp (Bool.eq_false_iff.mpr (h.2 p hp))).trans
          (List.map_id sig.params)
      rw [substitute, substituteMethod_eq, hret h.1, hmap]

/-- **Without arguments every signature stays as it is**: there is no need to go through it. -/
theorem substitute_nil (s : TypeSig) : s.substitute [] [] = s := by
  induction s using induct with
  | prim | classType | valueType | typeVar | methodVar => rfl
  | inst d v args ih =>
      rw [substitute, substituteAll_eq_map]
      congr 1
      exact (List.map_congr_left ih).trans (List.map_id args)
  | vector t ih => rw [substitute, ih]
  | array t n ih => rw [substitute, ih]
  | pointer t ih => rw [substitute, ih]
  | byRef t ih => rw [substitute, ih]
  | function sig hret hparams =>
      have hmap : sig.params.map (substitute [] []) = sig.params :=
        (List.map_congr_left hparams).trans (List.map_id sig.params)
      rw [substitute, substituteMethod_eq, hret, hmap]

/-- **Arguments without variables leave none**, if every variable has one. -/
theorem isOpen_substitute (ht : AllClosed t₁) (hm : AllClosed m₁) (h : Supplied t₁ m₁ s.Mentions) :
    (s.substitute t₁ m₁).isOpen = false := by
  induction s using induct with
  | prim | classType | valueType => rfl
  | typeVar n =>
      have hn := h.types n .self
      rw [substitute, List.getElem?_eq_getElem hn]
      exact ht _ (List.getElem_mem hn)
  | methodVar n =>
      have hn := h.methods n .self
      rw [substitute, List.getElem?_eq_getElem hn]
      exact hm _ (List.getElem_mem hn)
  | inst d v args ih =>
      rw [substitute, isOpen, anyOpen_eq_any, substituteAll_eq_map, List.any_map, List.any_eq_false]
      exact fun a ha => Bool.eq_false_iff.mp (ih a ha (h.mono fun _ => .inst ha))
  | vector t ih => rw [substitute, isOpen, ih (h.mono fun _ => .vector)]
  | array t n ih => rw [substitute, isOpen, ih (h.mono fun _ => .array)]
  | pointer t ih => rw [substitute, isOpen, ih (h.mono fun _ => .pointer)]
  | byRef t ih => rw [substitute, isOpen, ih (h.mono fun _ => .byRef)]
  | function sig hret hparams =>
      rw [substitute, substituteMethod_eq, isOpen, isOpenMethod_eq, hret (h.mono fun _ => .ret),
        Bool.false_or, List.any_map, List.any_eq_false]
      exact fun p hp => Bool.eq_false_iff.mp (hparams p hp (h.mono fun _ => .param hp))

end TypeSig

/-! ## 4. Method signatures -/

namespace MethodSigOf

variable {sig : MethodSig}

theorem Mentions.of_function {t : TypeSig} (h : (TypeSig.function sig).Mentions t)
    (hne : t ≠ .function sig) : sig.Mentions t := by
  cases h with
  | self => exact absurd rfl hne
  | ret h => exact .inl h
  | param hp h => exact .inr ⟨_, hp, h⟩

/-- A method signature is the type of a function, so that what holds of types holds of it. -/
theorem supplied_function (h : Supplied t₁ m₁ sig.Mentions) :
    Supplied t₁ m₁ (TypeSig.function sig).Mentions :=
  ⟨fun n hn => h.types n (Mentions.of_function hn nofun),
    fun n hn => h.methods n (Mentions.of_function hn nofun)⟩

theorem substitute_nil (sig : MethodSig) : sig.substitute [] [] = sig :=
  TypeSig.function.inj (TypeSig.function sig).substitute_nil

theorem substitute_substitute (h : Supplied t₁ m₁ sig.Mentions) (t₂ m₂ : List TypeSig) :
    (sig.substitute t₁ m₁).substitute t₂ m₂ =
      sig.substitute (t₁.map (TypeSig.substitute t₂ m₂)) (m₁.map (TypeSig.substitute t₂ m₂)) :=
  TypeSig.function.inj (TypeSig.substitute_substitute (supplied_function h) t₂ m₂)

end MethodSigOf

end Composition

/-! ## 5. Along calls -/

/-- **A callee with the arguments of the caller in place** has the signature that the reference gives
    it, substituted by the caller. -/
theorem Context.instantiated_callee? (c : Context) {token : Token}
    (h : ∀ r, c.store.method? token = some r →
      Supplied r.typeArgs r.methodArgs r.method.sig.Mentions) :
    (c.callee? token).map MethodRef.instantiated =
      (c.store.method? token).map fun r => r.instantiated.substitute c.typeArgs c.methodArgs := by
  unfold callee?
  cases hr : c.store.method? token with
  | none => rfl
  | some r =>
      refine congrArg some ?_
      exact (MethodSigOf.substitute_substitute (h r hr) c.typeArgs c.methodArgs).symm

/-- **Substitution composes along calls.**  Where every variable has an argument, substituting twice is
    substituting once with substituted arguments, in types and in methods, and so the signature of a
    callee does not depend on whether the reference or the caller is substituted first.  If the
    arguments are without variables, so is the result, and it stays as it is. -/
theorem substitute_composes (t₁ m₁ t₂ m₂ : List TypeSig) :
    (∀ s : TypeSig, Supplied t₁ m₁ s.Mentions →
      (s.substitute t₁ m₁).substitute t₂ m₂ =
        s.substitute (t₁.map (TypeSig.substitute t₂ m₂)) (m₁.map (TypeSig.substitute t₂ m₂)) ∧
      (AllClosed t₁ → AllClosed m₁ → (s.substitute t₁ m₁).isOpen = false ∧
        (s.substitute t₁ m₁).substitute t₂ m₂ = s.substitute t₁ m₁)) ∧
    (∀ sig : MethodSig, Supplied t₁ m₁ sig.Mentions →
      (sig.substitute t₁ m₁).substitute t₂ m₂ =
        sig.substitute (t₁.map (TypeSig.substitute t₂ m₂)) (m₁.map (TypeSig.substitute t₂ m₂)) ∧
      (AllClosed t₁ → AllClosed m₁ → TypeSig.isOpenMethod (sig.substitute t₁ m₁) = false ∧
        (sig.substitute t₁ m₁).substitute t₂ m₂ = sig.substitute t₁ m₁)) ∧
    ∀ (c : Context) (token : Token), (∀ r, c.store.method? token = some r →
        Supplied r.typeArgs r.methodArgs r.method.sig.Mentions) →
      (c.callee? token).map MethodRef.instantiated =
        (c.store.method? token).map fun r => r.instantiated.substitute c.typeArgs c.methodArgs := by
  refine ⟨fun s hs => ⟨TypeSig.substitute_substitute hs t₂ m₂, fun ht hm => ?_⟩,
    fun sig hsig => ⟨MethodSigOf.substitute_substitute hsig t₂ m₂, fun ht hm => ?_⟩,
    fun c token h => c.instantiated_callee? h⟩
  · have hclosed := TypeSig.isOpen_substitute ht hm hs
    exact ⟨hclosed, TypeSig.substitute_of_closed hclosed t₂ m₂⟩
  · have hclosed := TypeSig.isOpen_substitute ht hm (MethodSigOf.supplied_function hsig)
    exact ⟨hclosed, TypeSig.function.inj (TypeSig.substitute_of_closed hclosed t₂ m₂)⟩

/-! A method of a generic type that is generic itself, called from a method of that kind. -/
namespace Converting

def box : Token := ⟨0x02000001⟩

/-- From arrays over the variable of the type to boxes over the variable of the method. -/
def sig : MethodSig := ⟨true, false, 1, .inst box false [.methodVar 0], [.vector (.typeVar 0)]⟩

def typeArgs : List TypeSig := [.pointer (.methodVar 1)]

def methodArgs : List TypeSig := [.typeVar 0]

def store : Store := .ofList
  [.type "app" "N" "Box" 1 none, .method box "Convert" 6 sig, .memberRef ⟨0x06000001⟩ typeArgs,
   .methodSpec ⟨0x0A000001⟩ methodArgs]

/-- The caller, with the given arguments for its own variables. -/
def caller : Context :=
  ⟨store, {}, ⟨⟨0x06000002⟩, box, "Run", 6, sig, [], [], none, []⟩, [.prim .string],
    [.prim .char, .prim .int32]⟩

theorem supplied : Supplied typeArgs methodArgs sig.Mentions where
  types := by
    rintro n (h | ⟨p, hp, h⟩)
    · rcases h with _ | ⟨ha, h⟩
      obtain rfl := List.mem_singleton.mp ha
      cases h
    · obtain rfl := List.mem_singleton.mp hp
      rcases h with _ | _ | h
      cases h
      decide
  methods := by
    rintro n (h | ⟨p, hp, h⟩)
    · rcases h with _ | ⟨ha, h⟩
      obtain rfl := List.mem_singleton.mp ha
      cases h
      decide
    · obtain rfl := List.mem_singleton.mp hp
      rcases h with _ | _ | h
      cases h

end Converting

/-- The method is called as one from arrays of pointers to boxes of strings, whichever way round it is
    substituted, and after that nothing is left to substitute. -/
theorem converting_composes :
    (Converting.caller.callee? ⟨0x2B000001⟩).map MethodRef.instantiated =
      some ⟨true, false, 1, .inst Converting.box false [.prim .string],
        [.vector (.pointer (.prim .int32))]⟩ ∧
    (Converting.sig.substitute Converting.typeArgs Converting.methodArgs).substitute
        Converting.caller.typeArgs Converting.caller.methodArgs =
      Converting.sig.substitute [.pointer (.prim .int32)] [.prim .string] ∧
    TypeSig.isOpenMethod (Converting.sig.substitute [.pointer (.prim .int32)] [.prim .string]) = false := by
  obtain ⟨-, hmethods, hcalls⟩ := substitute_composes Converting.typeArgs Converting.methodArgs
    Converting.caller.typeArgs Converting.caller.methodArgs
  have hcallee := hcalls Converting.caller ⟨0x2B000001⟩ fun r hr => by
    obtain rfl := Option.some.inj (hr.symm.trans (by rfl))
    exact Converting.supplied
  refine ⟨hcallee.trans (by decide +kernel), (hmethods _ Converting.supplied).1, ?_⟩
  obtain ⟨-, hclosed, -⟩ := substitute_composes [.pointer (.prim .int32)] [.prim .string] [] []
  refine ((hclosed Converting.sig ?_).2 (by unfold AllClosed; decide) (by unfold AllClosed; decide)).1
  exact ⟨Converting.supplied.types, Converting.supplied.methods⟩

end ReflectionFlow
