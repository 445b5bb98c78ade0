/-
  File:      ReflectionFlow/Proofs/Scan/Heap.lean
  Subject:   What straight-line code on arrays does when it runs, and what describes its data.

  The machine of this file has cells in its variables, on its stack and in the arrays of its heap.
  An array is an object: whoever holds a reference to it sees every store.  The machine follows one
  instruction after the other; a fault ends the run.

  A reference remembers whether it was read out of an array.  That changes nothing in what the
  machine does, but a careful run is one that does not store through such a reference.

  * `Opcode.onArrays?`        what an opcode of the fragment does; none for all others
  * `Machine`, `Machine.run`  variables, stack and heap, and what instructions do to them
  * `Machine.Acts`            what one step can be
  * `Value.Pictures`, `SetOf.Pictures`, `State.Pictures`   descriptions of cells and machines
-/
import Mathlib.Data.List.Forall2
import Mathlib.Logic.Function.Basic
import Mathlib.Tactic.Choose
import ReflectionFlow.Code.Instruction
import ReflectionFlow.Code.Role
import ReflectionFlow.State.Basic

namespace ReflectionFlow

/-! ## 1. The fragment -/

/-- What an opcode of the fragment does. -/
inductive ArrayAction where
  | pushInt
  | pushText
  | pushNull
  | duplicate
  | discard
  | loadLocal
  | storeLocal
  | create
  | storeElement
  | loadElement
  deriving DecidableEq, Repr

/-- The opcodes of the fragment. -/
def Opcode.onArrays? : Opcode → Option ArrayAction
  | .ldcI4M1 | .ldcI40 | .ldcI41 | .ldcI42 | .ldcI43 | .ldcI44 | .ldcI45 | .ldcI46 | .ldcI47
  | .ldcI48 | .ldcI4S | .ldcI4 => some .pushInt
  | .ldstr => some .pushText
  | .ldnull => some .pushNull
  | .dup => some .duplicate
  | .pop => some .discard
  | .ldloc0 | .ldloc1 | .ldloc2 | .ldloc3 | .ldlocS | .ldloc => some .loadLocal
  | .stloc0 | .stloc1 | .stloc2 | .stloc3 | .stlocS | .stloc => some .storeLocal
  | .newarr => some .create
  | .stelemRef => some .storeElement
  | .ldelemRef => some .loadElement
  | _ => none

/-- The role of an opcode of the fragment. -/
def ArrayAction.role : ArrayAction → Role
  | .pushInt => .loadInt
  | .pushText => .loadString
  | .pushNull => .loadNull
  | .duplicate => .duplicate
  | .discard => .consume 1 false
  | .loadLocal => .loadLocal
  | .storeLocal => .storeLocal
  | .create => .newArray
  | .storeElement => .storeElement
  | .loadElement => .loadElement

theorem Opcode.role_of_mem_all : ∀ op ∈ Opcode.all, ∀ a ∈ op.onArrays?, op.role = a.role := by
  decide +kernel

theorem Opcode.role_of_onArrays? {op : Opcode} {a : ArrayAction} (h : op.onArrays? = some a) :
    op.role = a.role :=
  Opcode.role_of_mem_all op (Opcode.mem_all op) a h

/-! ## 2. The machine -/

/-- What a variable, a stack slot or an element holds. -/
inductive Cell where
  | null
  | int (n : Int32)
  | text (s : String)
  /-- An integer of the size of an address. -/
  | native (n : Int)
  /-- The array with the given number on the heap; it may have been read out of an array. -/
  | ref (object : Nat) (loaded : Bool)
  /-- Anything else. -/
  | other (n : Nat)
  deriving DecidableEq, Repr

namespace Cell

/-- The integer that an index or a length is. -/
def integer? : Cell → Option Int
  | .int n => some n.toInt
  | .native n => some n
  | _ => none

/-- The cell as it is read out of an array. -/
def read : Cell → Cell
  | .ref object _ => .ref object true
  | x => x

end Cell

/-- An array: where it was created, its length, and its elements. -/
structure ArrayObject where
  offset : Nat
  length : Int
  cells : Int → Cell

namespace ArrayObject

/-- Is there an element at an index? -/
def InBounds (o : ArrayObject) (n : Int) : Prop := 0 ≤ n ∧ n < o.length

instance (o : ArrayObject) (n : Int) : Decidable (o.InBounds n) :=
  inferInstanceAs (Decidable (_ ∧ _))

/-- The array with another element at an index. -/
def put (o : ArrayObject) (n : Int) (x : Cell) : ArrayObject :=
  { o with cells := Function.update o.cells n x }

theorem cells_put_self (o : ArrayObject) (n : Int) (x : Cell) : (o.put n x).cells n = x := by
  simp only [put, Function.update_self]

theorem cells_put_of_ne (o : ArrayObject) {n i : Int} (h : i ≠ n) (x : Cell) :
    (o.put n x).cells i = o.cells i := by
  simp only [put, Function.update_of_ne h]

end ArrayObject

/-- Variables, stack with the topmost cell first, and heap of running code. -/
structure Machine where
  locals : UInt16 → Cell
  stack : List Cell
  heap : List ArrayObject

namespace Machine

/-- Code is entered with any variables, an empty stack and no arrays. -/
def start (locals : UInt16 → Cell) : Machine := ⟨locals, [], []⟩

/-- Leaves a cell on the stack. -/
def push (m : Machine) (x : Cell) : Machine := { m with stack := x :: m.stack }

/-- Creates an array of nulls. -/
def create (m : Machine) (offset : Nat) (length : Int) : Machine :=
  { m with
    stack := .ref m.heap.length false :: m.stack
    heap := m.heap ++ [⟨offset, length, fun _ => .null⟩] }

/-- **What an instruction does**, or nothing if it faults: on a missing operand, a negative length, or
    an index out of bounds.  A careful machine does not store through a reference that was read
    out of an array. -/
def act (careful : Bool) (i : Instruction) (m : Machine) : ArrayAction → Option Machine
  | .pushInt => i.constant?.map fun n => m.push (.int n)
  | .pushText => match i.operand with
    | .string s => some (m.push (.text s))
    | _ => none
  | .pushNull => some (m.push .null)
  | .duplicate => match m.stack with
    | x :: _ => some (m.push x)
    | [] => none
  | .discard => match m.stack with
    | _ :: rest => some { m with stack := rest }
    | [] => none
  | .loadLocal => i.localIndex?.map fun n => m.push (m.locals n)
  | .storeLocal => match m.stack with
    | x :: rest => i.localIndex?.map fun n =>
      { m with locals := Function.update m.locals n x, stack := rest }
    | [] => none
  | .create => match m.stack with
    | size :: rest => do
      let n ← size.integer?
      if 0 ≤ n then some ({ m with stack := rest }.create i.offset n) else none
    | [] => none
  | .loadElement => match m.stack with
    | index :: .ref object _ :: rest => do
      let n ← index.integer?
      let o ← m.heap[object]?
      if o.InBounds n then some { m with stack := (o.cells n).read :: rest } else none
    | _ => none
  | .storeElement => match m.stack with
    | x :: index :: .ref object loaded :: rest => do
      let n ← index.integer?
      let o ← m.heap[object]?
      if o.InBounds n && !(careful && loaded) then
        some { m with stack := rest, heap := m.heap.set object (o.put n x) }
      else none
    | _ => none

/-- **What instructions do**, one after the other. -/
def run (careful : Bool) : List Instruction → Machine → Option Machine
  | [], m => some m
  | i :: rest, m => do
    let m ← m.act careful i (← i.opcode.onArrays?)
    run careful rest m

/-! ## 3. Steps -/

/-- **What a step can be**, action by action. -/
inductive Acts (careful : Bool) (i : Instruction) : ArrayAction → Machine → Machine → Prop where
  | pushInt (m : Machine) (n : Int32) (hn : i.constant? = some n) :
      Acts careful i .pushInt m (m.push (.int n))
  | pushText (m : Machine) (s : String) (hs : i.operand = .string s) :
      Acts careful i .pushText m (m.push (.text s))
  | pushNull (m : Machine) : Acts careful i .pushNull m (m.push .null)
  | duplicate (l : UInt16 → Cell) (x : Cell) (r : List Cell) (heap : List ArrayObject) :
      Acts careful i .duplicate ⟨l, x :: r, heap⟩ ⟨l, x :: x :: r, heap⟩
  | discard (l : UInt16 → Cell) (x : Cell) (r : List Cell) (heap : List ArrayObject) :
      Acts careful i .discard ⟨l, x :: r, heap⟩ ⟨l, r, heap⟩
  | loadLocal (m : Machine) (n : UInt16) (hn : i.localIndex? = some n) :
      Acts careful i .loadLocal m (m.push (m.locals n))
  | storeLocal (l : UInt16 → Cell) (x : Cell) (r : List Cell) (heap : List ArrayObject)
      (n : UInt16) (hn : i.localIndex? = some n) :
      Acts careful i .storeLocal ⟨l, x :: r, heap⟩ ⟨Function.update l n x, r, heap⟩
  | create (l : UInt16 → Cell) (size : Cell) (r : List Cell) (heap : List ArrayObject) (n : Int) :
      Acts careful i .create ⟨l, size :: r, heap⟩ (create ⟨l, r, heap⟩ i.offset n)
  | loadElement (l : UInt16 → Cell) (index : Cell) (k : Nat) (loaded : Bool) (r : List Cell)
      (heap : List ArrayObject) (n : Int) (o : ArrayObject) (hn : index.integer? = some n)
      (ho : heap[k]? = some o) :
      Acts careful i .loadElement ⟨l, index :: .ref k loaded :: r, heap⟩
        ⟨l, (o.cells n).read :: r, heap⟩
  | storeElement (l : UInt16 → Cell) (x index : Cell) (k : Nat) (loaded : Bool) (r : List Cell)
      (heap : List ArrayObject) (n : Int) (o : ArrayObject) (hn : index.integer? = some n)
      (ho : heap[k]? = some o) (hb : o.InBounds n) (hl : careful = true → loaded = false) :
      Acts careful i .storeElement ⟨l, x :: index :: .ref k loaded :: r, heap⟩
        ⟨l, r, heap.set k (o.put n x)⟩

theorem acts_of_act {careful : Bool} {i : Instruction} {m m' : Machine} {a : ArrayAction}
    (h : m.act careful i a = some m') : Acts careful i a m m' := by
  obtain ⟨l, stack, heap⟩ := m
  cases a with
  | pushInt =>
      obtain ⟨n, hn, rfl⟩ := Option.map_eq_some_iff.mp h
      exact .pushInt _ n hn
  | pushText =>
      simp only [act] at h
      split at h
      · next s hs =>
        obtain rfl := Option.some.inj h
        exact .pushText _ s hs
      · cases h
  | pushNull =>
      obtain rfl := Option.some.inj h
      exact .pushNull _
  | duplicate =>
      cases stack with
      | nil => cases h
      | cons x r =>
          obtain rfl := Option.some.inj h
          exact .duplicate l x r heap
  | discard =>
      cases stack with
      | nil => cases h
      | cons x r =>
          obtain rfl := Option.some.inj h
          exact .discard l x r heap
  | loadLocal =>
      obtain ⟨n, hn, rfl⟩ := Option.map_eq_some_iff.mp h
      exact .loadLocal _ n hn
  | storeLocal =>
      cases stack with
      | nil => cases h
      | cons x r =>
          obtain ⟨n, hn, rfl⟩ := Option.map_eq_some_iff.mp h
          exact .storeLocal l x r heap n hn
  | create =>
      cases stack with
      | nil => cases h
      | cons size r =>
          obtain ⟨n, -, h⟩ := Option.bind_eq_some_iff.mp h
          obtain ⟨-, h⟩ := Option.ite_none_right_eq_some.mp h
          obtain rfl := Option.some.inj h
          exact .create l size r heap n
  | loadElement =>
      simp only [act] at h
      split at h
      · next index k loaded r =>
        obtain ⟨n, hn, h⟩ := Option.bind_eq_some_iff.mp h
        obtain ⟨o, ho, h⟩ := Option.bind_eq_some_iff.mp h
        obtain ⟨-, h⟩ := Option.ite_none_right_eq_some.mp h
        obtain rfl := Option.some.inj h
        exact .loadElement l index k loaded r heap n o hn ho
      · cases h
  | storeElement =>
      simp only [act] at h
      split at h
      · next x index k loaded r =>
        obtain ⟨n, hn, h⟩ := Option.bind_eq_some_iff.mp h
        obtain ⟨o, ho, h⟩ := Option.bind_eq_some_iff.mp h
        obtain ⟨hguard, h⟩ := Option.ite_none_right_eq_some.mp h
        obtain rfl := Option.some.inj h
        simp only [Bool.and_eq_true, decide_eq_true_eq, Bool.not_eq_true', Bool.and_eq_false_iff]
          at hguard
        refine .storeElement l x index k loaded r heap n o hn ho hguard.1 fun hc => ?_
        exact hguard.2.resolve_left (by simp [hc])
      · cases h

/-- The offsets at which the arrays were created. -/
def offsets (m : Machine) : List Nat := m.heap.map ArrayObject.offset

theorem offsets_create (m : Machine) (offset : Nat) (length : Int) :
    (m.create offset length).offsets = m.offsets ++ [offset] := List.map_append

theorem offsets_set {l : UInt16 → Cell} {r : List Cell} {heap : List ArrayObject} {k : Nat}
    {o : ArrayObject} (ho : heap[k]? = some o) (n : Int) (x : Cell) :
    (⟨l, r, heap.set k (o.put n x)⟩ : Machine).offsets = heap.map ArrayObject.offset := by
  obtain ⟨hk, rfl⟩ := List.getElem?_eq_some_iff.mp ho
  have hself := List.set_getElem_self (List.length_map ArrayObject.offset ▸ hk)
  rw [List.getElem_map] at hself
  exact List.map_set.trans hself

/-- Only a new array adds an offset. -/
theorem mem_offsets_of_act {careful : Bool} {i : Instruction} {m m' : Machine} {a : ArrayAction}
    (h : m.act careful i a = some m') {n : Nat} (hn : n ∈ m'.offsets) :
    n ∈ m.offsets ∨ n = i.offset := by
  cases acts_of_act h with
  | create l size r heap length =>
      rw [offsets_create] at hn
      rcases List.mem_append.mp hn with hn | hn
      · exact .inl hn
      · exact .inr (List.mem_singleton.mp hn)
  | storeElement l x index k loaded r heap n o _ ho =>
      rw [offsets_set ho] at hn
      exact .inl hn
  | _ => exact .inl hn

/-- A careful run is a run. -/
theorem run_of_careful {code : List Instruction} {m m' : Machine} (h : run true code m = some m') :
    run false code m = some m' := by
  induction code generalizing m with
  | nil => exact h
  | cons i rest ih =>
      obtain ⟨a, ha, h⟩ := Option.bind_eq_some_iff.mp h
      obtain ⟨m₁, hact, h⟩ := Option.bind_eq_some_iff.mp h
      have hact' : m.act false i a = some m₁ := by
        cases a with
        | storeElement =>
            cases acts_of_act hact with
            | storeElement l x index k loaded r heap n o hn ho hb _ => simp [act, hn, ho, hb]
        | _ => exact hact
      exact Option.bind_eq_some_iff.mpr ⟨a, ha, Option.bind_eq_some_iff.mpr ⟨m₁, hact', ih h⟩⟩

end Machine

/-! ## 4. Descriptions -/

/-- **The cells that a value describes.**  An array of the right site describes a reference, if at
    every tracked index its set is unknown or has a value that describes the element there. -/
inductive Value.Pictures (method : Token) (heap : List ArrayObject) : Value → Cell → Prop where
  | null : Pictures method heap .null .null
  | int (n : Int32) : Pictures method heap (.int n) (.int n)
  | text (s : String) : Pictures method heap (.string s) (.text s)
  | array {a : ArrayValue} {object : Nat} {loaded : Bool} {o : ArrayObject}
      (ho : heap[object]? = some o) (hsite : a.site = ⟨method, o.offset⟩)
      (hbounds : ∀ i s, a.slot? i = some s → o.InBounds i.toInt)
      (chosen : Int32 → Value)
      (hchosen : ∀ i s, a.slot? i = some s → s.values ≠ .unknown → chosen i ∈ s.values.members)
      (hpictures : ∀ i s, a.slot? i = some s → s.values ≠ .unknown →
        Pictures method heap (chosen i) (o.cells i.toInt)) :
      Pictures method heap (.array a) (.ref object loaded)

/-- **A set describes a cell**: it is unknown or has a value that describes it. -/
def SetOf.Pictures (method : Token) (heap : List ArrayObject) (v : ValueSet) (x : Cell) : Prop :=
  v = .unknown ∨ ∃ w ∈ v.members, w.Pictures method heap x

/-- **A state describes a machine**: variable by variable, and slot by slot from the top. -/
structure State.Pictures (method : Token) (s : State) (m : Machine) : Prop where
  locals : ∀ n, (s.vars.get (.loc n)).Pictures method m.heap (m.locals n)
  stack : List.Forall₂ (SetOf.Pictures method m.heap) s.stack.fromTop m.stack

theorem Value.Pictures.eq_text {method : Token} {heap : List ArrayObject} {s : String} {x : Cell}
    (h : (Value.string s).Pictures method heap x) : x = .text s := by
  cases h
  rfl

/-- **What it is for an array to describe a reference**: it is one of the site of the object, and at
    every tracked index its set describes the element. -/
theorem Value.pictures_array_iff {method : Token} {heap : List ArrayObject} {a : ArrayValue}
    {object : Nat} {loaded : Bool} :
    (Value.array a).Pictures method heap (.ref object loaded) ↔
      ∃ o, heap[object]? = some o ∧ a.site = ⟨method, o.offset⟩ ∧
        ∀ i s, a.slot? i = some s →
          o.InBounds i.toInt ∧ s.values.Pictures method heap (o.cells i.toInt) := by
  constructor
  · intro h
    cases h with
    | @array _ _ _ o ho hsite hbounds chosen hchosen hpictures =>
        refine ⟨o, ho, hsite, fun i s hs => ⟨hbounds i s hs, ?_⟩⟩
        by_cases hu : s.values = .unknown
        · exact .inl hu
        · exact .inr ⟨chosen i, hchosen i s hs hu, hpictures i s hs hu⟩
  · rintro ⟨o, ho, hsite, hslots⟩
    have hpick : ∀ i, ∃ v : Value, ∀ s, a.slot? i = some s → s.values ≠ .unknown →
        v ∈ s.values.members ∧ v.Pictures method heap (o.cells i.toInt) := by
      intro i
      cases hs : a.slot? i with
      | none => exact ⟨.unknown, nofun⟩
      | some s =>
          rcases (hslots i s hs).2 with hu | ⟨v, hv, hp⟩
          · refine ⟨.unknown, fun s' hs' hne => ?_⟩
            obtain rfl := Option.some.inj hs'
            exact absurd hu hne
          · refine ⟨v, fun s' hs' _ => ?_⟩
            obtain rfl := Option.some.inj hs'
            exact ⟨hv, hp⟩
    choose chosen hchosen using hpick
    exact .array ho hsite (fun i s hs => (hslots i s hs).1) chosen
      (fun i s hs hu => (hchosen i s hs hu).1) fun i s hs hu => (hchosen i s hs hu).2

end ReflectionFlow
