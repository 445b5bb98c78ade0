/-
  File:      ReflectionFlow/Proofs/Scan/Calls.lean
  Subject:   What a call of a known method does with its operands.

  Operands are pushed from left to right, so the last parameter is on top and an instance lies
  below all parameters.  A call takes them from the top; what it records is in the order of the
  declaration again, an instance first, and the arguments are found by counting from there.  The
  count starts at one exactly if an instance comes first: it is taken from the stack, or stands
  for the object that a constructor call creates.

  * `Operands`                      the operands of a call on the stack
  * `Scanner.takeOperands_eq`       a call takes exactly these
  * `Operands.parameter?_eq`, `Operands.receiver?_eq`    and finds them by their roles
  * `Scanner.mem_writesOf`          what is stored through which addresses
  * `Scanner.step_call_aligned`     a whole call
-/
import ReflectionFlow.Proofs.Code.Counts
import ReflectionFlow.Proofs.Metadata.Substitution
import ReflectionFlow.Proofs.Scan.Conduct

namespace ReflectionFlow

open Store

/-! ## 1. Operands -/

/-- The stack without its topmost slots. -/
def Stack.without (count : Nat) : Stack → Stack
  | .top => .top
  | .slots l => .slots (l.drop count)

theorem Stack.fromTop_without (count : Nat) (s : Stack) :
    (s.without count).fromTop = s.fromTop.drop count := by
  cases s with
  | top => exact List.drop_nil.symm
  | slots l => rfl

theorem Stack.without_zero (s : Stack) : s.without 0 = s := by
  cases s <;> rfl

theorem Stack.without_without (m n : Nat) (s : Stack) :
    (s.without m).without n = s.without (m + n) := by
  cases s with
  | top => rfl
  | slots l => exact congrArg Stack.slots List.drop_drop

theorem Stack.depth_congr {s s' : Stack} (h : s.depth? = s'.depth?) : s.depth = s'.depth := by
  cases s <;> cases s' <;> simp_all [Stack.depth?, Stack.depth, Stack.fromTop]

namespace Trace

variable {t : Trace}

/-- The trace without the topmost slots of the stack. -/
def without (t : Trace) (count : Nat) : Trace :=
  { t with state.stack := t.state.stack.without count }

theorem without_without (m n : Nat) : (t.without m).without n = t.without (m + n) := by
  unfold without
  rw [Stack.without_without]

theorem fromTop_without (count : Nat) :
    (t.without count).state.stack.fromTop = t.state.stack.fromTop.drop count :=
  Stack.fromTop_without count t.state.stack

theorem pop_eq {v : ValueSet} {rest : List ValueSet} (h : t.state.stack.fromTop = v :: rest)
    (offset : Nat) : t.pop offset = (v, t.without 1) := by
  rcases t.pop_cases offset with ⟨w, r, hs, hp⟩ | ⟨hnil, _⟩
  · rw [hs] at h
    obtain ⟨rfl, rfl⟩ := List.cons.inj h
    rw [hp]
    unfold without
    rw [hs]
    rfl
  · rw [hnil] at h
    cases h

/-- Operands are taken from the top and come out in the order in which they were pushed. -/
theorem popMany_eq {l rest : List ValueSet} (h : t.state.stack.fromTop = l ++ rest) (offset : Nat) :
    t.popMany offset l.length = (l.reverse, t.without l.length) := by
  induction l generalizing t with
  | nil =>
      unfold popMany without
      rw [List.length_nil, Stack.without_zero, List.reverse_nil]
  | cons v l ih =>
      have hrest : (t.without 1).state.stack.fromTop = l ++ rest := by
        rw [fromTop_without, h]
        rfl
      rw [List.length_cons, List.reverse_cons]
      unfold popMany
      rw [pop_eq h]
      simp only [ih hrest, without_without, Nat.add_comm 1]

end Trace

/-- **The operands of a call**: those of the parameters in the order in which they were pushed, and
    below them the instance, if the call takes one from the stack. -/
structure Operands (callee : MethodRef) (constructs : Bool) (s : State) where
  pushed : List ValueSet
  receiver : Option ValueSet
  below : List ValueSet
  slots : s.stack.fromTop = pushed.reverse ++ (receiver.toList ++ below)
  count : pushed.length = callee.method.paramCount
  taken : receiver.isSome = (!constructs && callee.method.hasThis)

theorem MethodRef.length_instantiated_params (r : MethodRef) :
    r.instantiated.params.length = r.method.paramCount := by
  unfold instantiated MethodSigOf.substitute MethodDef.paramCount
  rw [TypeSig.substituteMethod_eq, List.length_map]

namespace Operands

variable {callee : MethodRef} {constructs : Bool} {s : State}

/-- How many they are. -/
def size (o : Operands callee constructs s) : Nat := o.pushed.length + o.receiver.toList.length

/-- The state with the operands removed. -/
def cleared (o : Operands callee constructs s) : State := { s with stack := s.stack.without o.size }

/-- The arguments that the operands make, addresses replaced by what they refer to without them. -/
def arguments (o : Operands callee constructs s) (sc : Scanner) : List ValueSet :=
  (if constructs then [.unknown] else o.receiver.toList.map (sc.dereference o.cleared)) ++
    o.pushed.map (sc.dereference o.cleared)

theorem fromTop_cleared (o : Operands callee constructs s) : o.cleared.stack.fromTop = o.below := by
  unfold cleared size
  rw [Stack.fromTop_without, o.slots, ← List.append_assoc, ← List.length_reverse,
    ← List.length_append]
  exact List.drop_left

/-- Every stack that is deep enough has the operands. -/
theorem exists_of_depth (h : (if constructs then callee.instantiated.params.length
    else callee.instantiated.operandCount) ≤ s.stack.depth) :
    Nonempty (Operands callee constructs s) := by
  rw [callee.operandCount_instantiated, callee.length_instantiated_params] at h
  have hle : callee.method.paramCount ≤ s.stack.fromTop.length := by
    refine Nat.le_trans ?_ h
    split <;> omega
  have hsplit := List.take_append_drop callee.method.paramCount s.stack.fromTop
  have hcount : (s.stack.fromTop.take callee.method.paramCount).reverse.length =
      callee.method.paramCount := by
    rw [List.length_reverse, List.length_take, Nat.min_eq_left hle]
  cases htaken : !constructs && callee.method.hasThis with
  | false =>
      refine ⟨⟨_, none, s.stack.fromTop.drop callee.method.paramCount, ?_, hcount, htaken.symm⟩⟩
      rw [List.reverse_reverse]
      exact hsplit.symm
  | true =>
      obtain ⟨hcall, hthis⟩ := Bool.and_eq_true_iff.mp htaken
      cases hrest : s.stack.fromTop.drop callee.method.paramCount with
      | nil =>
          have hall := List.drop_eq_nil_iff.mp hrest
          simp only [Bool.not_eq_true'] at hcall
          simp only [hcall, hthis, Stack.depth, Bool.false_eq_true, if_false, Bool.toNat_true] at h
          omega
      | cons v below =>
          refine ⟨⟨_, some v, below, ?_, hcount, htaken.symm⟩⟩
          rw [List.reverse_reverse, Option.toList_some, List.singleton_append, ← hrest]
          exact hsplit.symm

/-- Where the instance is: it is being created, there is none, or it lies below the parameters. -/
theorem receiver_cases (o : Operands callee constructs s) :
    (constructs = true ∧ o.receiver = none) ∨
    (constructs = false ∧ callee.method.hasThis = false ∧ o.receiver = none) ∨
    ∃ v, constructs = false ∧ callee.method.hasThis = true ∧ o.receiver = some v := by
  have htaken := o.taken
  cases hr : o.receiver with
  | none =>
      rw [hr] at htaken
      cases constructs with
      | true => exact .inl ⟨rfl, rfl⟩
      | false => exact .inr (.inl ⟨rfl, htaken.symm, rfl⟩)
  | some v =>
      rw [hr] at htaken
      obtain ⟨hcall, hthis⟩ := Bool.and_eq_true_iff.mp htaken.symm
      exact .inr (.inr ⟨v, Bool.not_eq_true' _ |>.mp hcall, hthis, rfl⟩)

section Arguments

variable (o : Operands callee constructs s) (sc : Scanner) (i : Instruction)

/-- One argument comes before the parameters exactly if the method has an instance. -/
theorem length_receiver (hthis : constructs = true → callee.method.hasThis = true) :
    (if constructs then [.unknown] else o.receiver.toList.map (sc.dereference o.cleared)).length =
      if callee.method.hasThis then 1 else 0 := by
  rcases o.receiver_cases with ⟨rfl, _⟩ | ⟨rfl, hnone, hr⟩ | ⟨v, rfl, hthis, hr⟩
  · rw [hthis rfl]
    rfl
  · rw [hnone, hr]
    rfl
  · rw [hthis, hr]
    rfl

/-- **Parameters are found under their numbers.** -/
theorem parameter?_eq (hthis : constructs = true → callee.method.hasThis = true) (k : Nat) :
    CallSite.parameter? ⟨sc.context, i.offset, callee, o.arguments sc⟩ k =
      o.pushed[k]?.map (sc.dereference o.cleared) := by
  have hlength := o.length_receiver sc hthis
  show (o.arguments sc)[k + if callee.method.hasThis then 1 else 0]? = _
  unfold arguments
  rw [List.getElem?_append_right (by omega), hlength, Nat.add_sub_cancel, List.getElem?_map]

/-- **The instance is found if the method has one**; of an object that is being created nothing is
    known. -/
theorem receiver?_eq : CallSite.receiver? ⟨sc.context, i.offset, callee, o.arguments sc⟩ =
    if callee.method.hasThis then some (o.receiver.elim .unknown (sc.dereference o.cleared))
    else none := by
  show (if callee.method.hasThis then (o.arguments sc).head? else none) = _
  unfold arguments
  rcases o.receiver_cases with ⟨rfl, hr⟩ | ⟨rfl, hnone, _⟩ | ⟨v, rfl, _, hr⟩
  · rw [hr]
    rfl
  · rw [hnone]
    rfl
  · rw [hr]
    rfl

end Arguments

end Operands

/-! ## 2. Taking and leaving -/

namespace Scanner

variable {sc : Scanner} {callee : MethodRef} {constructs : Bool} {t : Trace}

/-- **A call takes exactly its operands.** -/
theorem takeOperands_eq (o : Operands callee constructs t.state) (offset : Nat) :
    sc.takeOperands offset callee constructs t = (o.pushed, o.arguments sc, t.without o.size) := by
  have hpopped : t.popMany offset callee.instantiated.params.length =
      (o.pushed, t.without o.pushed.length) := by
    have h := Trace.popMany_eq o.slots offset
    rw [List.length_reverse, List.reverse_reverse] at h
    rw [callee.length_instantiated_params, ← o.count]
    exact h
  unfold takeOperands Operands.arguments Operands.cleared Operands.size
  rw [hpopped]
  rcases o.receiver_cases with ⟨rfl, hr⟩ | ⟨rfl, hnone, hr⟩ | ⟨v, rfl, hthis, hr⟩
  · rw [hr]
    rfl
  · simp only [hnone, hr]
    rfl
  · have hrest : (t.without o.pushed.length).state.stack.fromTop = v :: o.below := by
      rw [Trace.fromTop_without, o.slots, hr, ← List.length_reverse, List.drop_left]
      rfl
    have hpop := Trace.pop_eq hrest offset
    rw [Trace.without_without] at hpop
    simp only [hthis, hr, popValue, hpop]
    rfl

/-- What a call leaves: one set that is not empty, or nothing. -/
structure Leaves (callee : MethodRef) (constructs : Bool) (result : Option ValueSet) : Prop where
  one : result.isSome = (constructs || !callee.instantiated.ret.isVoid)
  filled : ∀ v, result = some v → v.isEmpty = false

theorem exists_leaves (callee : MethodRef) (constructs : Bool) (returned : ValueSet) :
    ∃ result, Leaves callee constructs result ∧
      ∀ t, leave callee constructs returned t = result.elim t t.push := by
  cases hl : constructs || !callee.instantiated.ret.isVoid with
  | false =>
      refine ⟨none, ⟨hl.symm, nofun⟩, fun t => ?_⟩
      unfold leave
      rw [hl]
      rfl
  | true =>
      refine ⟨some (if returned.isEmpty then .unknown else returned), ⟨hl.symm, ?_⟩, fun t => ?_⟩
      · rintro v ⟨⟩
        split
        · rfl
        · next h => exact Bool.not_eq_true _ |>.mp h
      · unfold leave
        rw [hl]
        rfl

/-! ## 3. Stores through addresses -/

/-- One store after a call: to a location that an operand is the address of. -/
structure WriteBack where
  /-- The number of the parameter. -/
  index : Nat
  param : TypeSig
  target : Location
  certain : Bool

/-- The stores after a call, in order. -/
def writesOf (callee : MethodRef) (pushed : List ValueSet) : List WriteBack :=
  (callee.instantiated.params.zip pushed).zipIdx.flatMap fun ((param, address), index) =>
    if param.isByRef && (wordIndex? index).isSome then
      address.members.filterMap fun
        | .address l => some ⟨index, param, l, address.size == 1⟩
        | _ => none
    else []

/-- **A store after a call is through an address of the operand for its parameter**, which is one
    that is passed by reference. -/
structure WriteBack.Meant (w : WriteBack) (callee : MethodRef) (pushed : List ValueSet) : Prop where
  param : callee.instantiated.params[w.index]? = some w.param
  byRef : w.param.isByRef = true
  numbered : w.index < UInt16.size
  operand : ∃ address, pushed[w.index]? = some address ∧ .address w.target ∈ address.members ∧
    w.certain = (address.size == 1)

theorem mem_writesOf {callee : MethodRef} {pushed : List ValueSet} {w : WriteBack} :
    w ∈ writesOf callee pushed ↔ w.Meant callee pushed := by
  have hword : ∀ n, (wordIndex? n).isSome = true ↔ n < UInt16.size := by
    intro n
    unfold wordIndex?
    split <;> simp_all
  unfold writesOf
  rw [List.mem_flatMap]
  constructor
  · rintro ⟨⟨⟨param, address⟩, index⟩, hmem, hw⟩
    obtain ⟨hparam, hoperand⟩ := List.getElem?_zip_eq_some.mp (List.mem_zipIdx_iff_getElem?.mp hmem)
    dsimp only at hw
    split at hw
    · next hbyRef =>
      rw [Bool.and_eq_true, hword] at hbyRef
      obtain ⟨v, hv, hsome⟩ := List.mem_filterMap.mp hw
      split at hsome
      · cases hsome
        exact ⟨hparam, hbyRef.1, hbyRef.2, address, hoperand, hv, rfl⟩
      · cases hsome
    · cases hw
  · rintro ⟨hparam, hbyRef, hindex, address, hoperand, hv, hcertain⟩
    refine ⟨((w.param, address), w.index), ?_, ?_⟩
    · exact List.mem_zipIdx_iff_getElem?.mpr (List.getElem?_zip_eq_some.mpr ⟨hparam, hoperand⟩)
    · dsimp only
      rw [if_pos (by rw [Bool.and_eq_true, hword]; exact ⟨hbyRef, hindex⟩)]
      refine List.mem_filterMap.mpr ⟨_, hv, ?_⟩
      rw [← hcertain]

/-- Stores what a parameter refers to after the call. -/
def performWrite (sc : Scanner) (block offset : Nat) (m : MethodDef) (needs : Needs) (t : Trace)
    (w : WriteBack) : Trace :=
  sc.write block offset (.single (writtenBack m needs w.index w.param)) w.certain t w.target

theorem writeBack_eq_foldl (block offset : Nat) (callee : MethodRef) (needs : Needs)
    (pushed : List ValueSet) (t : Trace) : sc.writeBack block offset callee needs pushed t =
      (writesOf callee pushed).foldl (sc.performWrite block offset callee.method needs) t := by
  unfold writeBack writesOf
  rw [List.foldl_flatMap]
  congr 1
  funext u ⟨⟨param, address⟩, index⟩
  dsimp only
  split
  · unfold storeThrough
    rw [List.foldl_filterMap]
    congr 1
    funext u v
    cases v <;> rfl
  · rfl

end Scanner

/-! ## 4. A whole call -/

/-- An action after another one, where neither enters anything. -/
theorem Store.Gives.quietly {s : Store} {α β : Type} {x : Act α} {f : α → Act β} {a : α} {b : β}
    (hx : s.Gives x a {}) (hf : s.Gives (f a) b {}) : s.Gives (x >>= f) b {} := hx.bind hf

namespace Scanner

variable {sc : Scanner} {callee : MethodRef} {constructs : Bool} {t : Trace}

/-- A rule of the catalogue promises less than the method declares. -/
structure Breach (s : Store) (m : MethodDef) (what : Intrinsic) (b : BrokenPromise) : Prop where
  intrinsic : b.intrinsic = what
  method : b.method = m.name
  declared : b.declared = (s.needs m).ret
  breaks : breaks m b.declared b.value = true

theorem breach_of_broken? {s : Store} {m : MethodDef} {what : Intrinsic} {returned : ValueSet}
    {b : BrokenPromise} (h : broken? what m (s.needs m).ret returned = some b) : Breach s m what b := by
  unfold broken? at h
  split at h
  · cases h
  · obtain ⟨v, hv, rfl⟩ := Option.map_eq_some_iff.mp h
    exact ⟨rfl, rfl, rfl, List.find?_some hv⟩

variable {site : CallSite}

theorem gives_catalogued (sc : Scanner) (hc : site.Within sc.context.store sc.context.store.Defines)
    (what : Intrinsic) : ∃ result, sc.context.store.Gives (sc.catalogued site what) result {} ∧
      ∀ b, result = .error b → Breach sc.context.store site.method what b := by
  have hr : (sc.context.reporter site.offset false).Serves sc.context.store (fun _ => False) :=
    ⟨rfl, fun h => by cases h⟩
  unfold catalogued
  cases hrule : site.handle? (sc.context.reporter site.offset false) what with
  | none => exact ⟨_, gives_pure _, nofun⟩
  | some rule =>
      obtain ⟨returned, hreturned⟩ := (CallSite.alike_rule hr hc hrule).gives_quiet
      cases hbroken : broken? what site.method (sc.context.store.needs site.method).ret returned with
      | none =>
          refine ⟨.ok returned, hreturned.quietly ((gives_askNeeds hc.method).quietly ?_), nofun⟩
          simp only [hbroken]
          exact gives_pure _
      | some b =>
          refine ⟨.error b, hreturned.quietly ((gives_askNeeds hc.method).quietly ?_), fun b' hb => ?_⟩
          · simp only [hbroken]
            exact gives_pure _
          · obtain rfl := Except.error.inj hb
            exact breach_of_broken? hbroken

/-- **A call gives one result, or its rule breaks a promise.** -/
theorem gives_resultOf (sc : Scanner) (hc : site.Within sc.context.store sc.context.store.Defines)
    (intrinsic : Option Intrinsic) (constructs : Bool) :
    ∃ result, sc.context.store.Gives (sc.resultOf site intrinsic constructs) result {} ∧
      ∀ b, result = .error b → constructs = false ∧
        ∃ what, intrinsic = some what ∧ Breach sc.context.store site.method what b := by
  unfold resultOf
  cases constructs with
  | true => exact ⟨_, gives_pure _, nofun⟩
  | false =>
      cases intrinsic with
      | none =>
          obtain ⟨returned, hreturned⟩ := Store.Alike.gives_quiet (CallSite.alike_defaultReturn hc)
          refine ⟨.ok returned, ?_, nofun⟩
          exact hreturned.quietly (gives_pure _)
      | some what =>
          obtain ⟨result, hresult, hbreach⟩ := gives_catalogued sc hc what
          exact ⟨result, hresult, fun b hb => ⟨rfl, what, rfl, hbreach b hb⟩⟩

/-- The trace that a call leaves behind. -/
theorem gives_call (hm : sc.context.store.Defines callee.method)
    (o : Operands callee constructs t.state) (block : Nat) (i : Instruction) :
    (∃ b what, sc.context.store.Gives (sc.call block i callee constructs t) (.error b) {} ∧
      constructs = false ∧ sc.context.store.intrinsicOf? callee.method.token = some what ∧
      Breach sc.context.store callee.method what b) ∨
    ∃ result, Leaves callee constructs result ∧
      sc.context.store.Gives (sc.call block i callee constructs t)
        (.ok ((sc.writeBack block i.offset callee (sc.context.store.needs callee.method) o.pushed
          (result.elim (t.without o.size) (t.without o.size).push)).observe i.offset
          (.call callee (o.arguments sc) (sc.context.store.intrinsicOf? callee.method.token)
            constructs))) {} := by
  have hsite : CallSite.Within ⟨sc.context, i.offset, callee, o.arguments sc⟩ sc.context.store
      sc.context.store.Defines := ⟨rfl, hm⟩
  obtain ⟨outcome, houtcome, hbreach⟩ := gives_resultOf sc hsite
    (sc.context.store.intrinsicOf? callee.method.token) constructs
  unfold call
  rw [takeOperands_eq o]
  cases outcome with
  | error b =>
      obtain ⟨hcall, what, hwhat, hb⟩ := hbreach b rfl
      refine .inl ⟨b, what, ?_, hcall, hwhat, hb⟩
      exact (gives_askIntrinsic _).quietly (houtcome.quietly (gives_pure _))
  | ok returned =>
      obtain ⟨result, hresult, hleave⟩ := exists_leaves callee constructs returned
      refine .inr ⟨result, hresult, ?_⟩
      rw [← hleave]
      exact (gives_askIntrinsic _).quietly (houtcome.quietly
        ((gives_askNeeds hm).quietly (gives_pure _)))

/-- **What a call that succeeds does**: the arguments that it records stand at the numbers of the
    parameters that their operands were pushed for, nothing but the operands is taken, one result
    is left or none, and each store that follows is through an address of the operand for its
    parameter. -/
structure Aligned (sc : Scanner) (block : Nat) (i : Instruction) (o : Operands callee constructs t.state)
    (t' : Trace) where
  arguments : List ValueSet
  parameter : ∀ k, CallSite.parameter? ⟨sc.context, i.offset, callee, arguments⟩ k =
    o.pushed[k]?.map (sc.dereference o.cleared)
  receiver : CallSite.receiver? ⟨sc.context, i.offset, callee, arguments⟩ =
    if callee.method.hasThis then some (o.receiver.elim .unknown (sc.dereference o.cleared)) else none
  removed : o.cleared.vars = t.state.vars ∧ o.cleared.stack.fromTop = o.below
  result : Option ValueSet
  leaves : Leaves callee constructs result
  /-- The trace after the stores. -/
  stored : Trace
  run : stored = (writesOf callee o.pushed).foldl
    (sc.performWrite block i.offset callee.method (sc.context.store.needs callee.method))
    (result.elim { t with state := o.cleared } (Trace.push { t with state := o.cleared }))
  meant : ∀ w, w ∈ writesOf callee o.pushed ↔ w.Meant callee o.pushed
  depth : stored.state.stack.depth = result.toList.length + o.below.length
  recorded : t' = stored.observe i.offset
    (.call callee arguments (sc.context.store.intrinsicOf? callee.method.token) constructs)

/-- The stores do not change the depth: what lies below the operands stays, and a result comes on
    top. -/
theorem depth_stored (block offset : Nat) (needs : Needs) (o : Operands callee constructs t.state)
    (result : Option ValueSet) :
    (sc.writeBack block offset callee needs o.pushed
      (result.elim (t.without o.size) (t.without o.size).push)).state.stack.depth =
        result.toList.length + o.below.length := by
  have hbelow : (t.without o.size).state.stack.fromTop = o.below := o.fromTop_cleared
  rw [Stack.depth_congr (sc.depth?_writeBack block offset callee needs o.pushed _)]
  cases result with
  | none =>
      show (t.without o.size).state.stack.fromTop.length = _
      rw [hbelow, Option.toList_none, List.length_nil, Nat.zero_add]
  | some v =>
      show (v :: (t.without o.size).state.stack.fromTop).length = _
      rw [hbelow, List.length_cons, Option.toList_some, List.length_singleton, Nat.add_comm]

/-- A call either breaks a promise of the catalogue or is aligned. -/
theorem call_aligned (hm : sc.context.store.Defines callee.method)
    (o : Operands callee constructs t.state) (hthis : constructs = true → callee.method.hasThis = true)
    (block : Nat) (i : Instruction) :
    ∃ outcome, sc.context.store.Gives (sc.call block i callee constructs t) outcome {} ∧
      ((∃ b what, outcome = .error b ∧ constructs = false ∧
          sc.context.store.intrinsicOf? callee.method.token = some what ∧
          Breach sc.context.store callee.method what b) ∨
        ∃ t', outcome = .ok t' ∧ Nonempty (Aligned sc block i o t')) := by
  rcases gives_call hm o block i with ⟨b, what, hgives, hbreach⟩ | ⟨result, hresult, hgives⟩
  · exact ⟨_, hgives, .inl ⟨b, what, rfl, hbreach⟩⟩
  · exact ⟨_, hgives, .inr ⟨_, rfl, ⟨{
      arguments := o.arguments sc
      parameter := o.parameter?_eq sc i hthis
      receiver := o.receiver?_eq sc i
      removed := ⟨rfl, o.fromTop_cleared⟩
      result := result
      leaves := hresult
      stored := _
      run := writeBack_eq_foldl block i.offset callee _ o.pushed _
      meant := fun _ => mem_writesOf
      depth := depth_stored block i.offset _ o result
      recorded := rfl }⟩⟩⟩

/-- A class with a method that fills what it is passed by reference, and a method that calls it. -/
def filling : List Declaration :=
  [.type "app" "N" "C" 1 none,
    .method ⟨0x02000001⟩ "Fill" 0x6 ⟨true, false, 0, .prim .void, [.byRef (.prim .object)]⟩,
    .method ⟨0x02000001⟩ "M" 0x16 ⟨false, false, 0, .prim .void, []⟩]

/-- The method that is called. -/
def fill : MethodRef :=
  { method :=
      { token := ⟨0x06000001⟩, declaring := ⟨0x02000001⟩, name := "Fill", flags := 0x6,
        sig := ⟨true, false, 0, .prim .void, [.byRef (.prim .object)]⟩, paramNames := ["arg0"] } }

/-- The method that calls it. -/
def caller : Scanner :=
  .ofContext
    { store := ofList filling
      config := {}
      method :=
        { token := ⟨0x06000002⟩, declaring := ⟨0x02000001⟩, name := "M", flags := 0x16,
          sig := ⟨false, false, 0, .prim .void, []⟩, paramNames := [] } }
    { params := [], ret := .nothing, this := .nothing, warning := none }

/-- The address of a local variable on top of an instance. -/
def onStack : Trace :=
  { state := ⟨.unknown, .slots [.single (.address (.loc 0)), .single .null]⟩ }

/-- The call of the method. -/
def callFill : Instruction := ⟨0, .callvirt, .token ⟨0x06000001⟩⟩

end Scanner

end ReflectionFlow
