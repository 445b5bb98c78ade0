/-
  File:      ReflectionFlow/Proofs/Scan/Aliases.lean
  Subject:   States describe the arrays of running straight-line code, aliases included.

  A variable or a slot that refers to an array holds a version of it, and a store replaces that
  version wherever it is held.  So all references to one array that were not read out of an array
  hold one and the same version, which keeps up with the array.  An array in an array is kept
  without its contents; read out again, it tells nothing about its elements.

  That is all that is needed as long as nothing is stored through a reference that was read out of
  an array.  Such a store replaces the version without contents alone: the reference from which the
  array was put there keeps what it knew.

  * `SetOf.Shows`                  how sets show cells, up to how they show references
  * `Scanner.Tracks`               what holds at every point of a careful run
  * `Scanner.Tracks.step`          one instruction keeps it
  * `Scanner.transfer_pictures_runs`
-/
import Mathlib.Data.List.Nodup
import ReflectionFlow.Proofs.Scan.Description
import ReflectionFlow.Proofs.Scan.Heap
import ReflectionFlow.Proofs.Scan.Versions

namespace ReflectionFlow

open SetOf

/-! ## 1. Sets of one value -/

theorem SetOf.flatMap_single (v : Value) (f : Value → ValueSet) : (single v).flatMap f = f v := by
  show (if (empty.merge (f v)).isUnknown then empty.merge (f v) else empty.merge (f v)) = f v
  rw [ite_self, empty_merge]

theorem SetOf.map_single (v : Value) (f : Value → Value) : (single v).map f = single (f v) := by
  show empty.insert (f v) = single (f v)
  cases f v <;> rfl

theorem State.replaced_single_self (a u : ArrayValue) :
    replaced [a] u (single (.array a)) = single (.array u) := by
  simp [replaced, replaceIn, isVersion, single, ofList, SetOf.insert, SetOf.empty, SetOf.isUnknown,
    Value.isUnknown, insertSorted]

theorem State.replaced_single_of_ne {a b : ArrayValue} (h : b ≠ a) (u : ArrayValue) :
    replaced [a] u (single (.array b)) = single (.array b) := by
  simp [replaced, replaceIn, isVersion, single, h]

/-- A store by the block that stored last replaces what is there. -/
theorem ArrayOf.slot?_store_self {a : ArrayValue} {n : Int32} {v : ValueSet} {block capacity : Nat}
    (hblock : ∀ s, a.slot? n = some s → s.block = block) {s : Slot Value}
    (hs : (a.store n v block capacity).slot? n = some s) :
    s = ⟨v.map Value.withoutContents, block⟩ := by
  rcases a.store_cases n v block capacity with ⟨hnone, h⟩ | ⟨_, h⟩ | ⟨mine, hmine, hother, _⟩
  · rw [h, hnone] at hs
    cases hs
  · rw [h, slot?_withSlot] at hs
    exact (Option.some.inj hs).symm
  · exact absurd (hblock mine hmine) hother

/-! ## 2. How sets show cells -/

/-- **How a set shows a cell**: constants are shown by themselves.  What shows a reference is left
    open: an array, or nothing if the set is unknown. -/
inductive SetOf.Shows (R : Option ArrayValue → Nat → Bool → Prop) : ValueSet → Cell → Prop where
  | unknown {x : Cell} (hx : ∀ k loaded, x = .ref k loaded → R none k loaded) : Shows R .unknown x
  | null : Shows R (.single .null) .null
  | int (n : Int32) : Shows R (.single (.int n)) (.int n)
  | text (s : String) : Shows R (.single (.string s)) (.text s)
  | array {a : ArrayValue} {k : Nat} {loaded : Bool} (h : R (some a) k loaded) :
      Shows R (.single (.array a)) (.ref k loaded)

/-- The array is one of the site at which an object was created. -/
def ArrayOf.IsAt (method : Token) (offsets : List Nat) (a : ArrayValue) (k : Nat) : Prop :=
  ∃ n, offsets[k]? = some n ∧ a.site = ⟨method, n⟩

/-- How elements show references: by arrays without contents, or not at all. -/
def Bare (method : Token) (offsets : List Nat) : Option ArrayValue → Nat → Bool → Prop
  | none, _, _ => True
  | some a, k, _ => a.IsAt method offsets k ∧ a.slots = []

/-- How variables and slots show references: by the version that keeps up with the object.  Only
    what was read out of an array may be shown without contents, or not at all. -/
def Tied (method : Token) (offsets : List Nat) (current : Nat → ArrayValue) :
    Option ArrayValue → Nat → Bool → Prop
  | none, _, loaded => loaded = true
  | some a, k, loaded => a.IsAt method offsets k ∧ (a = current k ∨ loaded = true ∧ a.slots = [])

/-- **A version keeps up with an object**: what it tracks is there, and was stored by one block. -/
structure ArrayOf.Mirrors (method : Token) (offsets : List Nat) (block : Nat) (a : ArrayValue)
    (o : ArrayObject) : Prop where
  site : a.site = ⟨method, o.offset⟩
  bounds : ∀ i s, a.slot? i = some s → o.InBounds i.toInt
  block : ∀ i s, a.slot? i = some s → s.block = block
  shows : ∀ i s, a.slot? i = some s → s.values.Shows (Bare method offsets) (o.cells i.toInt)

section Shows

variable {R S : Option ArrayValue → Nat → Bool → Prop} {method : Token} {offsets : List Nat}
  {current : Nat → ArrayValue} {block : Nat} {v : ValueSet} {x : Cell} {a : ArrayValue} {k : Nat}

theorem SetOf.Shows.mono (h : v.Shows R x) (hRS : ∀ a k loaded, R a k loaded → S a k loaded) :
    v.Shows S x := by
  cases h with
  | unknown hx => exact .unknown fun k loaded heq => hRS _ _ _ (hx k loaded heq)
  | null => exact .null
  | int n => exact .int n
  | text s => exact .text s
  | array h => exact .array (hRS _ _ _ h)

/-- Addresses do not come up. -/
theorem SetOf.Shows.direct (h : v.Shows R x) : v.Within Value.Direct := by
  cases h <;> exact within_single rfl

theorem SetOf.Shows.integer (h : v.Shows R x) {n : Int} (hn : x.integer? = some n) {i : Int32}
    (hi : v.constant? = some i) : i.toInt = n := by
  cases h with
  | int m =>
      obtain rfl := Option.some.inj hi
      exact Option.some.inj hn
  | _ => cases hi

theorem Cell.loaded_of_read {loaded : Bool} (h : x.read = .ref k loaded) : loaded = true := by
  cases x with
  | ref => exact (Cell.ref.inj h).2.symm
  | _ => cases h

/-- A reference that was not read out of an array is shown by the version that keeps up. -/
theorem SetOf.Shows.eq_current (h : v.Shows (Tied method offsets current) (.ref k false)) :
    v = .single (.array (current k)) := by
  cases h with
  | unknown hx => exact absurd (hx k false rfl) Bool.false_ne_true
  | array h =>
      rcases h.2 with rfl | ⟨hloaded, -⟩
      · rfl
      · exact absurd hloaded Bool.false_ne_true

/-- What is stored is shown without contents. -/
theorem SetOf.Shows.stored (h : v.Shows (Tied method offsets current) x) :
    (v.map Value.withoutContents).Shows (Bare method offsets) x := by
  cases h with
  | array h =>
      rw [map_single]
      exact .array ⟨h.1, rfl⟩
  | unknown => exact .unknown fun _ _ _ => trivial
  | null => exact .null
  | int n => exact .int n
  | text s => exact .text s

/-- What is read was stored without contents. -/
theorem SetOf.Shows.read (h : v.Shows (Bare method offsets) x) :
    v.Shows (Tied method offsets current) x.read := by
  cases h with
  | unknown => exact .unknown fun _ _ heq => Cell.loaded_of_read heq
  | array h => exact .array ⟨h.1, .inr ⟨rfl, h.2⟩⟩
  | null => exact .null
  | int n => exact .int n
  | text s => exact .text s

theorem ArrayOf.IsAt.append (h : a.IsAt method offsets k) (n : Nat) :
    a.IsAt method (offsets ++ [n]) k := by
  obtain ⟨m, hm, hsite⟩ := h
  exact ⟨m, List.getElem?_append_left (List.getElem?_eq_some_iff.mp hm).1 ▸ hm, hsite⟩

theorem ArrayOf.IsAt.lt (h : a.IsAt method offsets k) : k < offsets.length := by
  obtain ⟨_, hm, _⟩ := h
  exact (List.getElem?_eq_some_iff.mp hm).1

theorem Bare.append {a : Option ArrayValue} {loaded : Bool} (h : Bare method offsets a k loaded)
    (n : Nat) : Bare method (offsets ++ [n]) a k loaded := by
  cases a with
  | none => trivial
  | some a => exact ⟨h.1.append n, h.2⟩

theorem Tied.append {a : Option ArrayValue} {loaded : Bool}
    (h : Tied method offsets current a k loaded) (n : Nat) (u : ArrayValue) :
    Tied method (offsets ++ [n]) (Function.update current offsets.length u) a k loaded := by
  cases a with
  | none => exact h
  | some a =>
      refine ⟨h.1.append n, ?_⟩
      rw [Function.update_of_ne (Nat.ne_of_lt h.1.lt)]
      exact h.2

/-- **Objects differ in their sites.** -/
theorem ArrayOf.IsAt.unique (hd : offsets.Nodup) {j : Nat} (hj : a.IsAt method offsets j)
    (hk : a.IsAt method offsets k) : j = k := by
  obtain ⟨n, hn, hsite⟩ := hj
  obtain ⟨n', hn', hsite'⟩ := hk
  obtain rfl : n = n' := congrArg Site.offset (hsite.symm.trans hsite')
  exact (List.getElem?_inj (List.getElem?_eq_some_iff.mp hn).1 hd).mp (hn.trans hn'.symm)

/-- **A replacement reaches every reference to the object**, and no other. -/
theorem SetOf.Shows.replaced (hd : offsets.Nodup) (hk : (current k).IsAt method offsets k)
    {u : ArrayValue} (hu : u.site = (current k).site) (h : v.Shows (Tied method offsets current) x) :
    (State.replaced [current k] u v).Shows
      (Tied method offsets (Function.update current k u)) x := by
  cases h with
  | @array a j loaded h =>
      obtain ⟨hat, h⟩ := h
      by_cases heq : a = current k
      · obtain rfl : j = k := (heq ▸ hat).unique hd hk
        rw [heq, State.replaced_single_self]
        obtain ⟨n, hn, hsite⟩ := hk
        refine .array ⟨⟨n, hn, hu.trans hsite⟩, .inl ?_⟩
        rw [Function.update_self]
      · rw [State.replaced_single_of_ne heq]
        refine .array ⟨hat, h.imp_left fun hcurrent => ?_⟩
        have hne : j ≠ k := fun hjk => heq (hjk ▸ hcurrent)
        rw [Function.update_of_ne hne]
        exact hcurrent
  | unknown hx => exact .unknown hx
  | null => exact .null
  | int n => exact .int n
  | text s => exact .text s

theorem ArrayOf.Mirrors.fresh (method : Token) (offsets : List Nat) (block : Nat) (size : ValueSet)
    (offset : Nat) (length : Int) (cells : Int → Cell) :
    (ArrayOf.fresh ⟨method, offset⟩ size).Mirrors method offsets block ⟨offset, length, cells⟩ :=
  ⟨rfl, nofun, nofun, nofun⟩

/-- **A store keeps the version up with the object.** -/
theorem ArrayOf.Mirrors.updated {sc : Scanner} {o : ArrayObject}
    (h : a.Mirrors method offsets block o) {n : Int} (hn : o.InBounds n) {index : Option Int32}
    (hindex : ∀ i, index = some i → i.toInt = n) (hv : v.Shows (Tied method offsets current) x) :
    (sc.updated block index v a).Mirrors method offsets block (o.put n x) := by
  have hsite := (sc.site_updated block index v a).trans h.site
  cases index with
  | none => exact ⟨hsite, nofun, nofun, nofun⟩
  | some i =>
      obtain rfl := hindex i rfl
      -- at the index itself the stored set is shown, elsewhere nothing changes
      have hslot : ∀ j s, (sc.updated block (some i) v a).slot? j = some s →
          (j = i ∧ s = ⟨v.map Value.withoutContents, block⟩) ∨ (j ≠ i ∧ a.slot? j = some s) := by
        intro j s hs
        by_cases hj : j = i
        · subst hj
          exact .inl ⟨rfl, ArrayOf.slot?_store_self (h.block j) hs⟩
        · exact .inr ⟨hj, (ArrayOf.slot?_store_of_ne hj v block _).symm.trans hs⟩
      refine ⟨hsite, fun j s hs => ?_, fun j s hs => ?_, fun j s hs => ?_⟩
      · rcases hslot j s hs with ⟨rfl, -⟩ | ⟨-, hs⟩
        · exact hn
        · exact h.bounds j s hs
      · rcases hslot j s hs with ⟨-, rfl⟩ | ⟨-, hs⟩
        · rfl
        · exact h.block j s hs
      · rcases hslot j s hs with ⟨rfl, rfl⟩ | ⟨hj, hs⟩
        · rw [o.cells_put_self]
          exact hv.stored
        · rw [o.cells_put_of_ne fun heq => hj (Int32.toInt_inj.mp heq)]
          exact h.shows j s hs

end Shows

/-! ## 3. States and machines -/

namespace Scanner

/-- **What holds at every point of a careful run**: each object has a version that keeps up with it,
    and variables and slots show cells with these versions. -/
structure Tracks (sc : Scanner) (block : Nat) (current : Nat → ArrayValue) (s : State)
    (m : Machine) : Prop where
  keyed : s.vars.entries.Keyed
  default : s.vars.default = .unknown
  locals : ∀ n, (s.vars.get (.loc n)).Shows (Tied sc.method.token m.offsets current) (m.locals n)
  stack : List.Forall₂ (SetOf.Shows (Tied sc.method.token m.offsets current)) s.stack.fromTop m.stack
  objects : ∀ k o, m.heap[k]? = some o →
    (current k).Mirrors sc.method.token m.offsets block o
  distinct : m.offsets.Nodup

/-- Nothing is known when code is entered, and there is nothing to know of arrays. -/
theorem tracks_start (sc : Scanner) (block : Nat) (current : Nat → ArrayValue)
    {locals : UInt16 → Cell} (hlocals : ∀ n k loaded, locals n ≠ .ref k loaded) :
    sc.Tracks block current .unknown (.start locals) where
  keyed := List.Pairwise.nil
  default := rfl
  locals n := .unknown fun k loaded heq => absurd heq (hlocals n k loaded)
  stack := .nil
  objects := nofun
  distinct := List.nodup_nil

namespace Tracks

variable {sc : Scanner} {block : Nat} {current : Nat → ArrayValue} {s : State} {t : Trace}
  {m : Machine} {l : UInt16 → Cell} {r : List Cell} {heap : List ArrayObject} {x : Cell}
  {v : ValueSet} {k : Nat} {o : ArrayObject}

theorem push (h : sc.Tracks block current t.state m)
    (hv : v.Shows (Tied sc.method.token m.offsets current) x) :
    sc.Tracks block current (t.push v).state (m.push x) :=
  ⟨h.keyed, h.default, h.locals, .cons hv h.stack, h.objects, h.distinct⟩

theorem pop (h : sc.Tracks block current t.state ⟨l, x :: r, heap⟩) (offset : Nat) :
    (t.pop offset).1.Shows
      (Tied sc.method.token (heap.map ArrayObject.offset) current) x ∧
    sc.Tracks block current (t.pop offset).2.state ⟨l, r, heap⟩ := by
  have hstack := h.stack
  rcases t.pop_cases offset with ⟨w, q, hs, hp⟩ | ⟨hnil, _⟩
  · rw [hs] at hstack
    obtain ⟨hx, hr⟩ := List.forall₂_cons.mp hstack
    rw [hp]
    exact ⟨hx, h.keyed, h.default, h.locals, hr, h.objects, h.distinct⟩
  · rw [hnil] at hstack
    cases hstack

theorem popValue (h : sc.Tracks block current t.state ⟨l, x :: r, heap⟩) (offset : Nat) :
    (sc.popValue t offset).1.Shows
      (Tied sc.method.token (heap.map ArrayObject.offset) current) x ∧
    sc.Tracks block current (sc.popValue t offset).2.state ⟨l, r, heap⟩ := by
  obtain ⟨hx, hr⟩ := h.pop offset
  refine ⟨?_, hr⟩
  show (sc.dereference _ (t.pop offset).1).Shows _ x
  rw [dereference_eq _ hx.direct]
  exact hx

theorem set (h : sc.Tracks block current t.state ⟨l, r, heap⟩)
    (hv : v.Shows (Tied sc.method.token (heap.map ArrayObject.offset) current) x) (n : UInt16) :
    sc.Tracks block current (t.set (.loc n) v).state ⟨Function.update l n x, r, heap⟩ := by
  refine ⟨Variables.keyed_set h.keyed _ v, h.default, fun j => ?_, h.stack, h.objects, h.distinct⟩
  rw [Trace.get_set h.keyed]
  by_cases hj : j = n
  · subst hj
    rw [if_pos rfl]
    show v.Shows _ (Function.update l j x j)
    rw [Function.update_self]
    exact hv
  · rw [if_neg fun heq => hj (VarKey.loc.inj heq)]
    show (t.state.vars.get (.loc j)).Shows _ (Function.update l n x j)
    rw [Function.update_of_ne hj]
    exact h.locals j

/-- The version of an object is one of its site. -/
theorem isAt (h : sc.Tracks block current s m) (ho : m.heap[k]? = some o) :
    (current k).IsAt sc.method.token m.offsets k := by
  refine ⟨o.offset, ?_, (h.objects k o ho).site⟩
  unfold Machine.offsets
  rw [List.getElem?_map, ho]
  rfl

/-- **A new array has a version of its own.** -/
theorem create (h : sc.Tracks block current t.state m) {offset : Nat} (hfresh : offset ∉ m.offsets)
    (size : ValueSet) (length : Int) :
    sc.Tracks block
      (Function.update current m.heap.length (.fresh ⟨sc.method.token, offset⟩ size))
      (t.push (.single (.array (.fresh ⟨sc.method.token, offset⟩ size)))).state
      (m.create offset length) := by
  have hoffsets := m.offsets_create offset length
  have hlength : m.offsets.length = m.heap.length := List.length_map _
  have htied : ∀ a k loaded, Tied sc.method.token m.offsets current a k loaded → _ :=
    fun _ _ _ hk => hk.append offset (.fresh ⟨sc.method.token, offset⟩ size)
  rw [hlength] at htied
  refine ⟨h.keyed, h.default, ?_, ?_, ?_, ?_⟩
  · rw [hoffsets]
    exact fun n => (h.locals n).mono htied
  · rw [hoffsets]
    refine .cons (.array ⟨⟨offset, ?_, rfl⟩, .inl ?_⟩) (h.stack.imp fun _ _ hv => hv.mono htied)
    · rw [← hlength, List.getElem?_concat_length]
    · rw [Function.update_self]
  · rw [hoffsets]
    intro k o ho
    rcases Nat.lt_or_ge k m.heap.length with hk | hk
    · have hold : m.heap[k]? = some o := (List.getElem?_append_left hk).symm.trans ho
      have hmirrors := h.objects k o hold
      rw [Function.update_of_ne (Nat.ne_of_lt hk)]
      exact ⟨hmirrors.site, hmirrors.bounds, hmirrors.block, fun i s hs =>
        (hmirrors.shows i s hs).mono fun _ _ _ hk => hk.append offset⟩
    · have hlt : k < m.heap.length + 1 := by
        simpa [Machine.create] using (List.getElem?_eq_some_iff.mp ho).1
      obtain rfl : k = m.heap.length := by omega
      obtain rfl := Option.some.inj (List.getElem?_concat_length.symm.trans ho)
      rw [Function.update_self]
      exact .fresh _ _ _ _ _ _ _
  · rw [hoffsets, ← List.concat_eq_append]
    exact List.Nodup.concat hfresh h.distinct

/-- **A store reaches every alias.** -/
theorem store (h : sc.Tracks block current s ⟨l, r, heap⟩) (ho : heap[k]? = some o) {n : Int}
    (hn : o.InBounds n) {index : Option Int32} (hindex : ∀ i, index = some i → i.toInt = n)
    (hv : v.Shows (Tied sc.method.token (heap.map ArrayObject.offset) current) x) :
    sc.Tracks block (Function.update current k (sc.updated block index v (current k)))
      (s.replaceArray [current k] (sc.updated block index v (current k)))
      ⟨l, r, heap.set k (o.put n x)⟩ := by
  have hoffsets : (⟨l, r, heap.set k (o.put n x)⟩ : Machine).offsets =
      (⟨l, r, heap⟩ : Machine).offsets := Machine.offsets_set ho n x
  have hreplaced {w : ValueSet} {y : Cell}
      (hw : w.Shows (Tied sc.method.token (heap.map ArrayObject.offset) current) y) :=
    hw.replaced h.distinct (h.isAt ho) (sc.site_updated block index v (current k))
  obtain ⟨hkeyed, hdefault⟩ := State.keyed_replaceArray h.keyed [current k]
    (sc.updated block index v (current k))
  refine ⟨hkeyed, hdefault.trans h.default, ?_, ?_, ?_, ?_⟩
  · rw [hoffsets]
    intro j
    rw [State.get_replaceArray h.keyed h.default]
    exact hreplaced (h.locals j)
  · rw [hoffsets, State.fromTop_replaceArray, List.forall₂_map_left_iff]
    exact h.stack.imp fun _ _ hw => hreplaced hw
  · rw [hoffsets]
    intro j o' ho'
    by_cases hj : j = k
    · subst hj
      have hlt := (List.getElem?_eq_some_iff.mp ho).1
      obtain rfl := Option.some.inj ((List.getElem?_set_self hlt).symm.trans ho')
      rw [Function.update_self]
      exact (h.objects j o ho).updated hn hindex hv
    · rw [Function.update_of_ne hj]
      exact h.objects j o' ((List.getElem?_set_ne (Ne.symm hj)).symm.trans ho')
  · rw [hoffsets]
    exact h.distinct

/-- **A read gives what was stored**, without contents if it is an array. -/
theorem load (h : sc.Tracks block current s m) (ho : m.heap[k]? = some o) {loaded : Bool}
    (hv : v.Shows (Tied sc.method.token m.offsets current) (.ref k loaded)) {index : Option Int32}
    {n : Int} (hindex : ∀ i, index = some i → i.toInt = n) :
    (elementOf v index).Shows (Tied sc.method.token m.offsets current) (o.cells n).read := by
  have hunknown : SetOf.unknown.Shows (Tied sc.method.token m.offsets current) (o.cells n).read :=
    .unknown fun _ _ heq => Cell.loaded_of_read heq
  cases hv with
  | unknown => exact hunknown
  | @array a _ _ hv =>
      unfold elementOf
      rw [flatMap_single]
      cases index with
      | none => exact hunknown
      | some i =>
          obtain rfl := hindex i rfl
          show (a.element i).Shows _ _
          unfold ArrayOf.element
          cases hs : a.slot? i with
          | none => exact hunknown
          | some slot =>
              rcases hv.2 with rfl | ⟨-, hslots⟩
              · exact ((h.objects k o ho).shows i slot hs).read
              · unfold ArrayOf.slot? at hs
                rw [hslots] at hs
                cases hs

end Tracks

theorem state_storeElement (sc : Scanner) (block : Nat) (a : ArrayValue) (index v : ValueSet)
    (t : Trace) : (sc.storeElement block (.single (.array a)) index v t).state =
      t.state.replaceArray [a] (sc.updated block index.constant? v a) := by
  have hversions : (arraysOf (.single (.array a))).filter (·.site = a.site) = [a] := by
    simp [arraysOf, SetOf.single]
  show (sc.storeVersions block ((arraysOf (.single (.array a))).filter (·.site = a.site))
    index.constant? v t).state = _
  rw [hversions]
  rfl

/-- **One instruction keeps it.** -/
theorem Tracks.step {sc : Scanner} {block : Nat} {current : Nat → ArrayValue} {t : Trace}
    {m m' : Machine} (h : sc.Tracks block current t.state m) {i : Instruction} {a : ArrayAction}
    (hfresh : i.offset ∉ m.offsets) (hact : m.act true i a = some m') :
    ∃ current', sc.Tracks block current' (sc.stepLocal block i t a.role).state m' := by
  cases Machine.acts_of_act hact with
  | pushInt _ n hn =>
      refine ⟨current, h.push ?_⟩
      rw [hn]
      exact .int n
  | pushText _ s hs =>
      refine ⟨current, h.push ?_⟩
      unfold textOf?
      rw [hs]
      exact .text s
  | pushNull => exact ⟨current, h.push .null⟩
  | duplicate l x r heap =>
      obtain ⟨hx, hr⟩ := h.pop i.offset
      exact ⟨current, (hr.push hx).push hx⟩
  | discard l x r heap => exact ⟨current, (h.pop i.offset).2⟩
  | loadLocal _ n hn =>
      refine ⟨current, h.push ?_⟩
      rw [hn]
      exact h.locals n
  | storeLocal l x r heap n hn =>
      obtain ⟨hx, hr⟩ := h.popValue i.offset
      refine ⟨current, ?_⟩
      show sc.Tracks block current (sc.stepStoreLocal i t).state _
      rw [stepStoreLocal_eq, hn]
      exact hr.set hx n
  | create l size r heap n => exact ⟨_, (h.popValue i.offset).2.create hfresh _ n⟩
  | loadElement l index k loaded r heap n o hn ho =>
      obtain ⟨hindex, h₁⟩ := h.popValue i.offset
      obtain ⟨hv, h₂⟩ := h₁.popValue i.offset
      exact ⟨current, h₂.push (h₂.load ho hv fun _ => hindex.integer hn)⟩
  | storeElement l x index k loaded r heap n o hn ho hb hl =>
      obtain rfl := hl rfl
      obtain ⟨hx, h₁⟩ := h.popValue i.offset
      obtain ⟨hindex, h₂⟩ := h₁.popValue i.offset
      obtain ⟨hv, h₃⟩ := h₂.popValue i.offset
      have hstore := h₃.store ho hb (fun _ => hindex.integer hn) hx
      rw [← state_storeElement, ← hv.eq_current] at hstore
      exact ⟨_, hstore⟩

/-! ## 4. Runs -/

/-- Instructions of the fragment ask the session nothing. -/
theorem step_onArrays (sc : Scanner) (block : Nat) {i : Instruction} {a : ArrayAction}
    (ha : i.opcode.onArrays? = some a) (t : Trace) :
    sc.step block i t = pure (.ok (sc.stepLocal block i t a.role)) := by
  unfold step
  rw [Opcode.role_of_onArrays? ha]
  cases a <;> rfl

/-- **A careful run keeps it.**  Offsets ascend along the code, so every array gets a site of its
    own. -/
theorem Tracks.run {sc : Scanner} {block : Nat} {code : List Instruction}
    (hcode : (code.map Instruction.offset).Pairwise (· < ·)) {current : Nat → ArrayValue}
    {t : Trace} {m m' : Machine} (hpast : ∀ n ∈ m.offsets, ∀ i ∈ code, n < i.offset)
    (h : sc.Tracks block current t.state m) (hrun : Machine.run true code m = some m')
    (session : Session) : ∃ t' current', (sc.steps block code t).run session = (.ok t', session) ∧
      sc.Tracks block current' t'.state m' := by
  induction code generalizing current t m with
  | nil =>
      obtain rfl := Option.some.inj hrun
      exact ⟨t, current, rfl, h⟩
  | cons i rest ih =>
      obtain ⟨a, ha, hrun⟩ := Option.bind_eq_some_iff.mp hrun
      obtain ⟨m₁, hact, hrun⟩ := Option.bind_eq_some_iff.mp hrun
      rw [List.map_cons, List.pairwise_cons] at hcode
      have hfresh : i.offset ∉ m.offsets := fun hmem =>
        Nat.lt_irrefl _ (hpast _ hmem i List.mem_cons_self)
      obtain ⟨current₁, h₁⟩ := h.step hfresh hact
      have hpast₁ : ∀ n ∈ m₁.offsets, ∀ j ∈ rest, n < j.offset := by
        intro n hn j hj
        rcases Machine.mem_offsets_of_act hact hn with hn | rfl
        · exact hpast n hn j (List.mem_cons_of_mem _ hj)
        · exact hcode.1 _ (List.mem_map_of_mem hj)
      obtain ⟨t', current', hsteps, h'⟩ := ih hcode.2 hpast₁ h₁ hrun
      refine ⟨t', current', ?_, h'⟩
      unfold steps
      rw [step_onArrays sc block ha, Act.run_bind, Act.run_pure]
      exact hsteps

end Scanner

/-! ## 5. Descriptions -/

section Pictures

variable {R : Option ArrayValue → Nat → Bool → Prop} {method : Token} {heap : List ArrayObject}
  {v : ValueSet} {x : Cell} {a : ArrayValue} {k : Nat} {loaded : Bool}

theorem SetOf.Shows.pictures (h : v.Shows R x) (hR : ∀ a k loaded, R (some a) k loaded →
    (Value.array a).Pictures method heap (.ref k loaded)) : v.Pictures method heap x := by
  cases h with
  | unknown => exact .inl rfl
  | null => exact .inr ⟨_, List.mem_cons_self, .null⟩
  | int n => exact .inr ⟨_, List.mem_cons_self, .int n⟩
  | text s => exact .inr ⟨_, List.mem_cons_self, .text s⟩
  | array h => exact .inr ⟨_, List.mem_cons_self, hR _ _ _ h⟩

theorem ArrayOf.IsAt.exists_object (h : a.IsAt method (heap.map ArrayObject.offset) k) :
    ∃ o, heap[k]? = some o ∧ a.site = ⟨method, o.offset⟩ := by
  obtain ⟨n, hn, hsite⟩ := h
  rw [List.getElem?_map] at hn
  obtain ⟨o, ho, rfl⟩ := Option.map_eq_some_iff.mp hn
  exact ⟨o, ho, hsite⟩

/-- An array without contents describes every array of its site. -/
theorem Value.pictures_bare (h : a.IsAt method (heap.map ArrayObject.offset) k)
    (hslots : a.slots = []) : (Value.array a).Pictures method heap (.ref k loaded) := by
  obtain ⟨o, ho, hsite⟩ := h.exists_object
  refine pictures_array_iff.mpr ⟨o, ho, hsite, fun i s hs => ?_⟩
  unfold ArrayOf.slot? at hs
  rw [hslots] at hs
  cases hs

end Pictures

namespace Scanner

/-- **A state that keeps track describes the machine.** -/
theorem Tracks.pictures {sc : Scanner} {block : Nat} {current : Nat → ArrayValue} {s : State}
    {m : Machine} (h : sc.Tracks block current s m) : s.Pictures sc.method.token m := by
  have htied : ∀ a k loaded, Tied sc.method.token m.offsets current (some a) k loaded →
      (Value.array a).Pictures sc.method.token m.heap (.ref k loaded) := by
    rintro a k loaded ⟨hat, rfl | ⟨-, hslots⟩⟩
    · obtain ⟨o, ho, hsite⟩ := hat.exists_object
      have hmirrors := h.objects k o ho
      refine Value.pictures_array_iff.mpr ⟨o, ho, hsite, fun i s hs => ⟨hmirrors.bounds i s hs, ?_⟩⟩
      exact (hmirrors.shows i s hs).pictures fun b j _ hb => Value.pictures_bare hb.1 hb.2
    · exact Value.pictures_bare hat hslots
  exact ⟨fun n => (h.locals n).pictures htied, h.stack.imp fun _ _ hv => hv.pictures htied⟩

/-- **A visit describes what the code of the block does to arrays**: after every prefix of a careful
    run, and at the end of the block. -/
theorem transfer_pictures_runs (sc : Scanner) (g : FlowGraph) {body : Body} (hbody : body.Increasing)
    (block : Nat) (p : Progress) {locals : UInt16 → Cell}
    (hlocals : ∀ n k loaded, locals n ≠ .ref k loaded) :
    (∀ j m, Machine.run true ((g.codeOf body block).take j) (.start locals) = some m →
      ∃ t, (sc.steps block ((g.codeOf body block).take j) { state := .unknown }).run p.session =
          (.ok t, p.session) ∧ t.state.Pictures sc.method.token m) ∧
    ∀ m, Machine.run true (g.codeOf body block) (.start locals) = some m →
      ∃ s, (sc.transfer g body block .unknown p).1 = .ok s ∧ s.Pictures sc.method.token m := by
  have hoffsets := FlowGraph.offsets_pairwise (g := g) hbody block
  have hstart := sc.tracks_start block (fun _ => .fresh ⟨⟨0⟩, 0⟩ .unknown) hlocals
  have hnone {code : List Instruction} : ∀ n ∈ (Machine.start locals).offsets, ∀ i ∈ code,
      n < i.offset := fun _ hn => absurd hn List.not_mem_nil
  constructor
  · intro j m hrun
    have hprefix : (((g.codeOf body block).take j).map Instruction.offset).Pairwise (· < ·) :=
      hoffsets.sublist ((List.take_sublist j _).map _)
    obtain ⟨t, _, hsteps, ht⟩ := Tracks.run (t := { state := .unknown }) hprefix hnone hstart hrun
      p.session
    exact ⟨t, hsteps, ht.pictures⟩
  · intro m hrun
    unfold transfer
    cases hcode : g.codeOf body block with
    | nil =>
        rw [hcode] at hrun
        obtain rfl := Option.some.inj hrun
        exact ⟨_, rfl, hstart.pictures⟩
    | cons i rest =>
        rw [hcode] at hrun hoffsets
        obtain ⟨t, _, hsteps, ht⟩ := Tracks.run (t := { state := .unknown }) hoffsets hnone hstart
          hrun (p.forget i.offset ((i :: rest).getLastD i).offset).session
        have hentered : State.unknown.entered = .unknown := rfl
        refine ⟨t.state, ?_, ht.pictures⟩
        simp only [hentered, hsteps]


namespace Nested

def method : MethodDef where
  token := ⟨0x06000001⟩
  declaring := ⟨0x02000001⟩
  name := "M"
  flags := 0x16
  sig := ⟨false, false, 0, .prim .void, []⟩
  paramNames := []

def scanner : Scanner := .ofContext ⟨{}, {}, method, [], []⟩ ⟨[], .nothing, .nothing, none⟩

/-- An array with a text is put into another array, read out again, and given another text. -/
def body : Body where
  maxStack := 3
  initLocals := true
  locals := [.prim .object, .prim .object]
  instructions :=
    [⟨0, .ldcI41, .empty⟩, ⟨1, .newarr, .token ⟨0x02000001⟩⟩, ⟨6, .stloc0, .empty⟩,
     ⟨7, .ldcI41, .empty⟩, ⟨8, .newarr, .token ⟨0x02000001⟩⟩, ⟨13, .stloc1, .empty⟩,
     ⟨14, .ldloc1, .empty⟩, ⟨15, .ldcI40, .empty⟩, ⟨16, .ldstr, .string "v"⟩,
     ⟨21, .stelemRef, .empty⟩,
     ⟨22, .ldloc0, .empty⟩, ⟨23, .ldcI40, .empty⟩, ⟨24, .ldloc1, .empty⟩, ⟨25, .stelemRef, .empty⟩,
     ⟨26, .ldloc0, .empty⟩, ⟨27, .ldcI40, .empty⟩, ⟨28, .ldelemRef, .empty⟩,
     ⟨29, .ldcI40, .empty⟩, ⟨30, .ldstr, .string "w"⟩, ⟨35, .stelemRef, .empty⟩]
  clauses := []

def graph : FlowGraph :=
  ⟨{ nodes := [.entry, .code ⟨none, 0, 0, 20⟩, .exit] }, [], [(0, 1)]⟩

theorem codeOf_graph : graph.codeOf body 1 = body.instructions := by decide +kernel

/-- What is known of the second array in the end. -/
def known : ArrayValue :=
  ⟨⟨method.token, 8⟩, .single (.int 1), [(0, ⟨.single (.string "v"), 1⟩)]⟩

theorem increasing_body : body.Increasing := by
  unfold Body.Increasing
  decide

end Nested

/-- Before the second text is stored, the state describes all arrays. -/
theorem nested_pictures : ∃ m t,
    Machine.run false ((Nested.graph.codeOf Nested.body 1).take 17) (.start fun _ => .null) = some m ∧
    m.stack = [.ref 1 true] ∧
    ((Nested.scanner.steps 1 ((Nested.graph.codeOf Nested.body 1).take 17)
      { state := .unknown }).run {}).1 = .ok t ∧
    t.state.Pictures Nested.method.token m := by
  have hrun : ∃ m, Machine.run true ((Nested.graph.codeOf Nested.body 1).take 17)
      (.start fun _ => .null) = some m ∧ m.stack = [.ref 1 true] := by
    rw [Nested.codeOf_graph]
    exact ⟨_, rfl, rfl⟩
  obtain ⟨m, hrun, hstack⟩ := hrun
  obtain ⟨t, hsteps, ht⟩ := (transfer_pictures_runs Nested.scanner Nested.graph
    Nested.increasing_body 1 { session := {} } fun _ _ _ => by simp).1 17 m hrun
  exact ⟨m, t, Machine.run_of_careful hrun, hstack, congrArg Prod.fst hsteps, ht⟩

/-- **A store through the reference that was read out is not seen**: the variable that holds the same
    array is described with the old text. -/
theorem nested_differs : ∃ m s,
    Machine.run false (Nested.graph.codeOf Nested.body 1) (.start fun _ => .null) = some m ∧
    (Nested.scanner.transfer Nested.graph Nested.body 1 .unknown { session := {} }).1 = .ok s ∧
    ¬ (s.vars.get (.loc 1)).Pictures Nested.method.token m.heap (m.locals 1) := by
  have hrun : ∃ m o,
      Machine.run false (Nested.graph.codeOf Nested.body 1) (.start fun _ => .null) = some m ∧
      m.locals 1 = .ref 1 false ∧ m.heap[1]? = some o ∧ o.cells 0 = .text "w" := by
    rw [Nested.codeOf_graph]
    exact ⟨_, _, rfl, rfl, rfl, rfl⟩
  have htransfer : ((Nested.scanner.transfer Nested.graph Nested.body 1 .unknown
      { session := {} }).1.toOption.map fun s => s.vars.get (.loc 1)) =
        some (single (.array Nested.known)) := by decide +kernel
  obtain ⟨m, o, hrun, hlocal, ho, hcell⟩ := hrun
  refine ⟨m, ?_⟩
  cases hs : (Nested.scanner.transfer Nested.graph Nested.body 1 .unknown { session := {} }).1 with
  | error b =>
      rw [hs] at htransfer
      cases htransfer
  | ok s =>
      rw [hs] at htransfer
      have hget : s.vars.get (.loc 1) = single (.array Nested.known) := Option.some.inj htransfer
      refine ⟨s, hrun, rfl, ?_⟩
      rw [hget, hlocal]
      rintro (h | ⟨v, hv, hpictures⟩)
      · cases h
      · obtain rfl := List.mem_singleton.mp hv
        obtain ⟨o', ho', -, hslots⟩ := Value.pictures_array_iff.mp hpictures
        obtain rfl := Option.some.inj (ho.symm.trans ho')
        have helement : (single (.string "v")).Pictures Nested.method.token m.heap (o.cells 0) :=
          (hslots 0 _ rfl).2
        rw [hcell] at helement
        rcases helement with h | ⟨w, hw, hpictures⟩
        · cases h
        · obtain rfl := List.mem_singleton.mp hw
          exact absurd hpictures.eq_text (by decide)

end Scanner

end ReflectionFlow
