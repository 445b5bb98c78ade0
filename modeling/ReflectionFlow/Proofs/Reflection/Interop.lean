/-
  File:      ReflectionFlow/Proofs/Reflection/Interop.lean
  Subject:   Which native methods are reported for passing COM objects.

  Without a declaration of how it is passed, an object of a class is passed as a COM object
  unless the class, or a class it derives from, is one of a list.  The check goes up the base types
  one by one.  It begins with the first base type and ends with the sixty-fifth, so it does not see
  that the class itself is on the list, nor a base type of the list that is further up.

  * `Store.ComClass`              the rule for classes
  * `Store.Overlooked`            the classes for which the check does not follow it
  * `Store.isComClass_iff`        it follows it for all others
  * `checkInterop_follows`        which methods are reported
-/
import ReflectionFlow.Proofs.Members.Inherited
import ReflectionFlow.Reflection.Interop

namespace ReflectionFlow

namespace Store

variable {s : Store} {d e : TypeDef}

/-! ## 1. Distances -/

/-- The type that is reached by a number of base references. -/
def baseAt? (s : Store) : Nat → TypeDef → Option TypeDef
  | 0, d => some d
  | n + 1, d => (d.base.bind s.type?).bind (s.baseAt? n)

/-- A chain has the types at their distances, up to its limit. -/
theorem getElem?_baseChainWithin (steps n : Nat) (d : TypeDef) :
    (s.baseChainWithin steps d)[n]? = if n ≤ steps then s.baseAt? n d else none := by
  induction steps generalizing n d with
  | zero => cases n <;> rfl
  | succ steps ih =>
      cases n with
      | zero => rfl
      | succ n =>
          unfold baseChainWithin baseAt?
          rw [List.getElem?_cons_succ]
          cases d.base.bind s.type? with
          | none => simp
          | some b =>
              rw [ih n b]
              simp only [Nat.add_le_add_iff_right, Option.bind_some]

theorem mem_drop_baseChainWithin {steps : Nat} :
    e ∈ (s.baseChainWithin steps d).drop 1 ↔
      ∃ n, 0 < n ∧ n ≤ steps ∧ s.baseAt? n d = some e := by
  rw [List.mem_iff_getElem?]
  constructor
  · rintro ⟨i, hi⟩
    rw [List.getElem?_drop, getElem?_baseChainWithin] at hi
    split at hi
    · next hle => exact ⟨1 + i, by omega, hle, hi⟩
    · cases hi
  · rintro ⟨n, hpos, hle, he⟩
    refine ⟨n - 1, ?_⟩
    rw [List.getElem?_drop, getElem?_baseChainWithin, show 1 + (n - 1) = n by omega, if_pos hle]
    exact he

/-- Base references lead to the types at all distances. -/
theorem leads_iff_baseAt? : s.Leads baseReference d e ↔ ∃ n, s.baseAt? n d = some e := by
  constructor
  · intro h
    induction h using Relation.ReflTransGen.head_induction_on with
    | refl => exact ⟨0, rfl⟩
    | head hrefers _ ih =>
        obtain ⟨n, hn⟩ := ih
        refine ⟨n + 1, ?_⟩
        unfold baseAt?
        rw [refers_base_iff.mp hrefers]
        exact hn
  · rintro ⟨n, hn⟩
    induction n generalizing d with
    | zero => exact Option.some.inj hn ▸ .refl
    | succ n ih =>
        obtain ⟨b, hb, hn⟩ := Option.bind_eq_some_iff.mp hn
        exact .head (refers_base_iff.mpr hb) (ih hn)

/-! ## 2. Classes -/

/-- **Objects of a class are passed as COM objects**: arrays, interfaces, and classes that are
    passed neither as text nor by their layout and do not derive from a class that is passed by
    handle. -/
def ComClass (s : Store) (d : TypeDef) : Prop :=
  d.fullName = "System.Array" ∨ d.isInterface = true ∨
    (d.fullName ∉ passedAsText ∧ d.hasLayout = false ∧
      ∀ b, s.Leads baseReference d b → b.fullName ∉ passedByHandle)

/-- None of the base types that are looked at is passed by handle. -/
def Unlisted (s : Store) (d : TypeDef) : Prop :=
  ∀ n b, s.baseAt? n d = some b → 0 < n → n ≤ interopDepth → b.fullName ∉ passedByHandle

/-- **A class that is passed by handle only because of itself or of a base type further up than the
    check looks.** -/
structure Overlooked (s : Store) (d : TypeDef) : Prop where
  notArray : d.fullName ≠ "System.Array"
  notInterface : d.isInterface = false
  notText : d.fullName ∉ passedAsText
  noLayout : d.hasLayout = false
  listed : ∃ n b, s.baseAt? n d = some b ∧ (n = 0 ∨ interopDepth < n) ∧ b.fullName ∈ passedByHandle
  unlisted : s.Unlisted d

theorem isComClass_eq_true : s.isComClass d = true ↔
    d.fullName = "System.Array" ∨ d.isInterface = true ∨
      (d.fullName ∉ passedAsText ∧ d.hasLayout = false ∧ s.Unlisted d) := by
  have hwalk : (!((s.baseChainWithin interopDepth d).drop 1).any
      fun b => passedByHandle.contains b.fullName) = true ↔ s.Unlisted d := by
    simp only [Bool.not_eq_true', List.any_eq_false, mem_drop_baseChainWithin, List.contains_iff_mem]
    constructor
    · exact fun hall n b hb hpos hle => hall b ⟨n, hpos, hle, hb⟩
    · rintro hall b ⟨n, hpos, hle, hb⟩
      exact hall n b hb hpos hle
  unfold isComClass
  split
  · next hkind =>
    rw [Bool.or_eq_true, beq_iff_eq] at hkind
    exact iff_of_true rfl (hkind.imp id .inl)
  · next hkind =>
    rw [Bool.or_eq_true, beq_iff_eq, not_or] at hkind
    rw [or_iff_right hkind.1, or_iff_right hkind.2]
    split
    · next hpassed =>
      rw [Bool.or_eq_true, List.contains_iff_mem] at hpassed
      refine iff_of_false (by decide) fun ⟨htext, hlayout, _⟩ => ?_
      exact hpassed.elim htext (by simp [hlayout])
    · next hpassed =>
      rw [Bool.or_eq_true, List.contains_iff_mem, not_or, Bool.not_eq_true] at hpassed
      rw [hwalk, and_iff_right hpassed.1, and_iff_right hpassed.2]

/-- A class that is neither an array nor an interface is excluded by any type of the list on its
    way up. -/
theorem not_comClass {n : Nat} {b : TypeDef} (harray : d.fullName ≠ "System.Array")
    (hinterface : d.isInterface = false) (hb : s.baseAt? n d = some b)
    (hlisted : b.fullName ∈ passedByHandle) : ¬ s.ComClass d := by
  rintro (h | h | ⟨_, _, hbases⟩)
  · exact harray h
  · exact absurd h (by simp [hinterface])
  · exact hbases b (leads_iff_baseAt?.mpr ⟨n, hb⟩) hlisted

theorem Overlooked.not_comClass (h : s.Overlooked d) : ¬ s.ComClass d := by
  obtain ⟨n, b, hb, _, hlisted⟩ := h.listed
  exact Store.not_comClass h.notArray h.notInterface hb hlisted

/-- **The check takes for COM classes those of the rule and those it overlooks.** -/
theorem isComClass_iff : s.isComClass d = true ↔ s.ComClass d ∨ s.Overlooked d := by
  rw [isComClass_eq_true]
  constructor
  · rintro (harray | hinterface | ⟨htext, hlayout, hunlisted⟩)
    · exact .inl (.inl harray)
    · exact .inl (.inr (.inl hinterface))
    · by_cases hcom : s.ComClass d
      · exact .inl hcom
      · -- the list has the class or a base type of it, and that one is not looked at
        unfold ComClass at hcom
        push Not at hcom
        obtain ⟨harray, hinterface, hlisted⟩ := hcom
        obtain ⟨b, hled, hlisted⟩ := hlisted htext hlayout
        obtain ⟨n, hb⟩ := leads_iff_baseAt?.mp hled
        refine .inr ⟨harray, by simpa using hinterface, htext, hlayout, ⟨n, b, hb, ?_, hlisted⟩,
          hunlisted⟩
        by_contra hn
        exact hunlisted n b hb (by omega) (by omega) hlisted
  · rintro ((harray | hinterface | ⟨htext, hlayout, hbases⟩) | hover)
    · exact .inl harray
    · exact .inr (.inl hinterface)
    · exact .inr (.inr ⟨htext, hlayout, fun n b hb _ _ => hbases b (leads_iff_baseAt?.mpr ⟨n, hb⟩)⟩)
    · exact .inr (.inr ⟨hover.notText, hover.noLayout, hover.unlisted⟩)

theorem isComClass_follows_iff : (s.isComClass d = true ↔ s.ComClass d) ↔ ¬ s.Overlooked d := by
  rw [isComClass_iff]
  constructor
  · exact fun h hover => hover.not_comClass (h.mp (.inr hover))
  · exact fun h => or_iff_left h

/-! ## 3. Values -/

/-- A class whose objects are passed, directly or by reference, without a declaration how. -/
def PassesClass (s : Store) (form : Option NativeForm) (t : TypeSig) (d : TypeDef) : Prop :=
  form = none ∧ ∃ u, t.stripByRef = .classType u ∧ s.type? u = some d

/-- **A value is passed as a COM object**: because it is declared to be, or without a declaration
    because of its type. -/
def ComValue (s : Store) (form : Option NativeForm) (t : TypeSig) : Prop :=
  form = some .iUnknown ∨ form = some .iDispatch ∨ (∃ iid, form = some (.comInterface iid)) ∨
    (form = none ∧ t.stripByRef = .prim .object) ∨ ∃ d, s.PassesClass form t d ∧ s.ComClass d

theorem isComInterface_iff {f : NativeForm} : f.isComInterface = true ↔
    f = .iUnknown ∨ f = .iDispatch ∨ ∃ iid, f = .comInterface iid := by
  cases f <;> simp [NativeForm.isComInterface]

theorem isCom_some {f : NativeForm} {t : TypeSig} : s.isCom (some f) t = true ↔
    some f = some .iUnknown ∨ some f = some .iDispatch ∨ ∃ iid, some f = some (.comInterface iid) := by
  simp only [Option.some.injEq]
  exact isComInterface_iff

theorem isCom_none {t : TypeSig} : s.isCom none t = true ↔
    t.stripByRef = .prim .object ∨ ∃ d, s.PassesClass none t d ∧ s.isComClass d = true := by
  unfold isCom PassesClass
  simp only [true_and]
  split
  · next h => simp [h]
  · next u h =>
    rw [h]
    cases hd : s.type? u with
    | none => simp [hd]
    | some d => simp [hd]
  · next hobject hclass =>
    refine iff_of_false (by decide) ?_
    rintro (h | ⟨d, ⟨u, h, _⟩, _⟩)
    · exact hobject h
    · exact hclass u h

theorem isCom_of_passesClass {t : TypeSig} (h : s.PassesClass none t d) :
    s.isCom none t = s.isComClass d := by
  obtain ⟨_, u, ht, hd⟩ := h
  unfold isCom
  simp only [ht, hd]

/-- **The check takes for COM objects those of the rule and objects of classes it overlooks.** -/
theorem isCom_iff {form : Option NativeForm} {t : TypeSig} : s.isCom form t = true ↔
    s.ComValue form t ∨ ∃ d, s.PassesClass form t d ∧ s.Overlooked d := by
  unfold ComValue
  cases form with
  | some f => simp [isCom_some, PassesClass]
  | none =>
      rw [isCom_none]
      simp only [isComClass_iff, and_or_left, exists_or]
      simp [or_assoc]

/-! ## 4. Methods -/

/-- **A method returns or takes a value**, which is declared to be passed in a form or not.  The
    declarations may be fewer than the parameters. -/
inductive Passes (m : MethodDef) : Option NativeForm → TypeSig → Prop
  | result (h : m.sig.ret.isVoid = false) : Passes m m.returnForm m.sig.ret
  | parameter (i : Nat) (t : TypeSig) (h : m.sig.params[i]? = some t) :
      Passes m (m.paramForms[i]?.getD none) t

theorem passesCom_iff {m : MethodDef} : s.passesCom m = true ↔
    ∃ form t, Passes m form t ∧ s.isCom form t = true := by
  unfold passesCom
  rw [Bool.or_eq_true, Bool.and_eq_true, Bool.not_eq_true', List.any_eq_true]
  constructor
  · rintro (⟨hret, hcom⟩ | ⟨⟨t, i⟩, hmem, hcom⟩)
    · exact ⟨_, _, .result hret, hcom⟩
    · exact ⟨_, t, .parameter i t (List.mem_zipIdx_iff_getElem?.mp hmem), hcom⟩
  · rintro ⟨form, t, hpasses, hcom⟩
    cases hpasses with
    | result hret => exact .inl ⟨hret, hcom⟩
    | parameter i t ht => exact .inr ⟨(t, i), List.mem_zipIdx_iff_getElem?.mpr ht, hcom⟩

/-- **A native method that is reported**: it passes a COM object, or an object of a class that is
    overlooked. -/
def Reported (s : Store) (m : MethodDef) : Prop :=
  m.isNative = true ∧ ∃ form t, Passes m form t ∧
    (s.ComValue form t ∨ ∃ d, s.PassesClass form t d ∧ s.Overlooked d)

end Store

/-- The check leaves one diagnostic if the method is reported, and nothing otherwise. -/
theorem Reporter.run_checkInterop (r : Reporter) (hlive : r.live = true) (m : MethodDef)
    (session : Session) :
    (r.store.Reported m → (r.checkInterop m).run session = ((), { session with
      ledger.diagnostics := session.ledger.diagnostics ++
        [(Finding.comInterop m.name).diagnostic r.origin] })) ∧
    (¬ r.store.Reported m → (r.checkInterop m).run session = ((), session)) := by
  have hcheck : (m.isNative && r.store.passesCom m) = true ↔ r.store.Reported m := by
    unfold Store.Reported
    simp only [Bool.and_eq_true, Store.passesCom_iff, Store.isCom_iff]
  unfold checkInterop
  constructor
  · intro h
    rw [if_pos (hcheck.mpr h)]
    unfold report
    rw [if_pos hlive]
    rfl
  · intro h
    rw [if_neg (fun hc => h (hcheck.mp hc))]
    rfl

/-- **Which classes count as COM classes, and which methods are reported.**  In every store, for
    every class that is passed without a declaration how, directly or by reference, the check
    follows the rule exactly if it does not overlook the class; and a method leaves one diagnostic
    if it is native and returns or takes a COM object or an object of an overlooked class, and
    nothing otherwise. -/
theorem checkInterop_follows (s : Store) (origin : Origin) (m : MethodDef) (session : Session) :
    (∀ t d, s.PassesClass none t d →
      ((s.isCom none t = true ↔ s.ComClass d) ↔ ¬ s.Overlooked d)) ∧
    (s.Reported m → ((⟨s, origin, true⟩ : Reporter).checkInterop m).run session = ((), { session with
      ledger.diagnostics := session.ledger.diagnostics ++
        [(Finding.comInterop m.name).diagnostic origin] })) ∧
    (¬ s.Reported m → ((⟨s, origin, true⟩ : Reporter).checkInterop m).run session = ((), session)) := by
  refine ⟨?_, Reporter.run_checkInterop ⟨s, origin, true⟩ rfl m session⟩
  intro t d hd
  rw [Store.isCom_of_passesClass hd]
  exact Store.isComClass_follows_iff

/-- A class of handles, a class without a base, and a native method that takes the latter. -/
def oneHandle : List Store.Declaration :=
  [.type "corlib" "System.Runtime.InteropServices" "SafeHandle" 1 none, .type "app" "N" "C" 1 none,
    .method ⟨0x02000002⟩ "Native" 0x2016
      ⟨false, false, 0, .prim .void, [.byRef (.classType ⟨0x02000002⟩)]⟩]

/-- The class without a base. -/
def plainClass : TypeDef :=
  { token := ⟨0x02000002⟩, assembly := "app", space := "N", name := "C", fullName := "N.C", flags := 1,
    base := none, enclosing := none, methods := [⟨0x06000001⟩] }

/-- The native method. -/
def takesPlain : MethodDef :=
  { token := ⟨0x06000001⟩, declaring := ⟨0x02000002⟩, name := "Native", flags := 0x2016,
    sig := ⟨false, false, 0, .prim .void, [.byRef (.classType ⟨0x02000002⟩)]⟩, paramNames := ["arg0"] }

/-- It is reported, since the class is a COM class. -/
theorem takesPlain_reported :
    (Store.ofList oneHandle).methodDef? ⟨0x06000001⟩ = some takesPlain ∧
    (Store.ofList oneHandle).Reported takesPlain ∧
    ((⟨Store.ofList oneHandle, ⟨⟨0x06000001⟩, none⟩, true⟩ : Reporter).checkInterop takesPlain).run {} =
      ((), { ledger.diagnostics := [(Finding.comInterop "Native").diagnostic ⟨⟨0x06000001⟩, none⟩] }) := by
  have htype : (Store.ofList oneHandle).type? ⟨0x02000002⟩ = some plainClass := by decide +kernel
  have hcom : (Store.ofList oneHandle).ComClass plainClass := by
    refine .inr (.inr ⟨by decide, by decide, fun b hled => ?_⟩)
    obtain ⟨n, hb⟩ := Store.leads_iff_baseAt?.mp hled
    cases n with
    | zero => exact Option.some.inj hb ▸ by decide
    | succ n => cases hb
  have hreported : (Store.ofList oneHandle).Reported takesPlain :=
    ⟨by decide, _, _, .parameter 0 _ rfl,
      .inl (.inr (.inr (.inr (.inr ⟨plainClass, ⟨rfl, _, rfl, htype⟩, hcom⟩))))⟩
  exact ⟨by decide +kernel, hreported, (checkInterop_follows _ _ _ _).2.1 hreported⟩

/-! ## 5. Two overlooked classes -/

namespace Store

theorem exists_not_comClass {s : Store} {u : Token} (n : Nat)
    (hkind : (s.type? u).any (fun d => d.fullName != "System.Array" && !d.isInterface) = true)
    (hbase : ((s.type? u).bind (s.baseAt? n)).any
      (fun b => passedByHandle.contains b.fullName) = true) :
    ∃ d, s.type? u = some d ∧ ¬ s.ComClass d := by
  cases hd : s.type? u with
  | none => simp [hd] at hkind
  | some d =>
      simp only [hd, Option.any_some, Bool.and_eq_true, bne_iff_ne, Bool.not_eq_true'] at hkind
      simp only [hd, Option.bind_some] at hbase
      cases hb : s.baseAt? n d with
      | none => simp [hb] at hbase
      | some b =>
          rw [hb, Option.any_some, List.contains_iff_mem] at hbase
          exact ⟨d, rfl, not_comClass hkind.1 hkind.2 hb hbase⟩

end Store

/-- A class of handles and sixty-six types, each derived from the one before. -/
def manyHandles : List Store.Declaration :=
  .type "corlib" "System.Runtime.InteropServices" "SafeHandle" 1 none ::
    (List.range 66).map fun i => .type "app" "N" "C" 1 (some (Token.ofParts 2 (i + 1)))

/-- **The class of handles itself counts as a COM class, and so does one that derives from it
    sixty-six steps away**, though the rule excludes both. -/
theorem handles_count_as_com :
    ((Store.ofList oneHandle).isCom none (.classType ⟨0x02000001⟩) = true ∧
      ∃ d, (Store.ofList oneHandle).type? ⟨0x02000001⟩ = some d ∧
        ¬ (Store.ofList oneHandle).ComClass d) ∧
    ((Store.ofList manyHandles).isCom none (.classType ⟨0x02000043⟩) = true ∧
      ∃ d, (Store.ofList manyHandles).type? ⟨0x02000043⟩ = some d ∧
        ¬ (Store.ofList manyHandles).ComClass d) := by
  refine ⟨⟨by decide +kernel, ?_⟩, by decide +kernel, ?_⟩
  · exact Store.exists_not_comClass 0 (by decide +kernel) (by decide +kernel)
  · exact Store.exists_not_comClass 66 (by decide +kernel) (by decide +kernel)

end ReflectionFlow
