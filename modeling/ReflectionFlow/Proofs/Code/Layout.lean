/-
  File:      ReflectionFlow/Proofs/Code/Layout.lean
  Subject:   The offsets the assembler gives are the encoded layout of the body.

  Two sizes meet here: the room the assembler leaves for an instruction while its labels are
  still open, and the encoded size of the finished instruction.  They agree for every opcode and
  operand but one: a jump table that was emitted with its offsets already resolved gets room for
  its count and none for its entries.

  * `PendingInstruction.room`         what the assembler leaves for an instruction
  * `Assembler.orderly_run`           every position is the end of the room before it
  * `Assembler.size_of_finish`        the encoded size is the room and the entries left out
  * `assemble_laidOut_iff`            when a finished body is its encoded layout
-/
import Mathlib.Data.List.Forall2
import ReflectionFlow.Code.Assembler
import ReflectionFlow.Proofs.Flow.Blocks

namespace ReflectionFlow

/-! ## 1. Layout -/

/-- The first instruction stands at zero and every other one right after its predecessor. -/
structure Body.LaidOut (b : Body) : Prop where
  first : ∀ i, b.instructions.head? = some i → i.offset = 0
  next : b.instructions.IsChain fun i j => j.offset = i.next

/-- The bytes that instructions take together. -/
def totalSize : List Instruction → Nat
  | [] => 0
  | i :: rest => i.size + totalSize rest

/-- Instructions that follow each other without a gap from `start` to `stop`. -/
def Adjoin : Nat → List Instruction → Nat → Prop
  | start, [], stop => stop = start
  | start, i :: rest, stop => i.offset = start ∧ Adjoin i.next rest stop

theorem adjoin_cons_iff {i : Instruction} {rest : List Instruction} {start stop : Nat} :
    Adjoin start (i :: rest) stop ↔ i.offset = start ∧
      (i :: rest).IsChain (fun i j => j.offset = i.next) ∧
      stop = ((i :: rest).getLast (List.cons_ne_nil i rest)).next := by
  induction rest generalizing i start with
  | nil => simp [Adjoin]
  | cons j rest ih =>
      rw [List.isChain_cons_cons, List.getLast_cons (List.cons_ne_nil j rest), and_assoc]
      exact and_congr_right fun _ => ih

/-- **A layout without gaps starts at zero and stops at the size of the code.** -/
theorem Body.laidOut_iff (b : Body) (stop : Nat) :
    b.LaidOut ∧ stop = b.codeSize ↔ Adjoin 0 b.instructions stop := by
  unfold codeSize
  cases hb : b.instructions with
  | nil =>
      have hl : b.LaidOut := ⟨by simp [hb], by simp [hb]⟩
      simp [hl, Adjoin]
  | cons i rest =>
      have hl : b.LaidOut ↔ i.offset = 0 ∧ (i :: rest).IsChain fun i j => j.offset = i.next :=
        ⟨fun h => ⟨h.first i (by simp [hb]), hb ▸ h.next⟩,
          fun h => ⟨fun j hj => by simp_all, hb ▸ h.2⟩⟩
      rw [adjoin_cons_iff, hl, List.getLast?_eq_some_getLast (List.cons_ne_nil i rest), and_assoc]

/-! ## 2. Room for an instruction -/

namespace PendingInstruction

/-- The bytes the assembler leaves for an instruction. -/
def room (p : PendingInstruction) : Nat :=
  p.opcode.size + match p.operand with
    | .labels names => 4 + names.length * 4
    | _ => p.opcode.operandKind.size

/-- The entries of a jump table for which no room is left. -/
def leftOut (p : PendingInstruction) : List Nat :=
  match p.operand with
  | .ready (.switch targets) => targets
  | _ => []

/-- An operand that is there already is of the kind the opcode takes. -/
def Fits (p : PendingInstruction) : Prop :=
  ∀ operand, p.operand = .ready operand → p.opcode.operandKind.fits operand = true

end PendingInstruction

/-- What a statement emits. -/
def Statement.emitted? : Statement → Option (Opcode × PendingOperand)
  | .emit op operand => some (op, .ready operand)
  | .branch op name => some (op, .label name)
  | .switch names => some (.switch, .labels names)
  | _ => none

/-- Each instruction stands where the room before it ends. -/
def Packed : Nat → List PendingInstruction → Nat → Prop
  | start, [], stop => stop = start
  | start, p :: rest, stop => p.offset = start ∧ Packed (wrapOffset (start + p.room)) rest stop

theorem Packed.append {start stop : Nat} {l : List PendingInstruction} {p : PendingInstruction}
    (h : Packed start l stop) (hp : p.offset = stop) :
    Packed start (l ++ [p]) (wrapOffset (stop + p.room)) := by
  induction l generalizing start with
  | nil =>
      obtain rfl : stop = start := h
      exact ⟨hp, rfl⟩
  | cons q rest ih => exact ⟨h.1, ih h.2⟩

/-! ## 3. What a program leaves behind -/

namespace Assembler

/-- **What holds of the assembler after the statements of a program.** -/
structure Orderly (program : List Statement) (a : Assembler) : Prop where
  packed : Packed 0 a.instructions a.position
  emitted : a.instructions.map (fun p => (p.opcode, p.operand)) =
    program.filterMap Statement.emitted?
  fits : a.faults = [] → ∀ p ∈ a.instructions, p.Fits

theorem check_eq {a : Assembler} {ok : Bool} {fault : AssemblyFault}
    (h : (a.check ok fault).faults = []) : ok = true ∧ a.check ok fault = a := by
  unfold check at h ⊢
  cases ok with
  | true => exact ⟨rfl, rfl⟩
  | false => exact absurd h (by simp)

section

variable {program : List Statement} {a : Assembler}

/-- Noting a fault changes nothing else. -/
theorem Orderly.check (h : a.Orderly program) (ok : Bool) (fault : AssemblyFault) :
    (a.check ok fault).Orderly program := by
  cases ok with
  | true => exact h
  | false => exact ⟨h.packed, h.emitted, fun hf => absurd hf (by simp [Assembler.check])⟩

/-- A statement that emits nothing leaves instructions, position and earlier faults alone. -/
theorem Orderly.skip {a' : Assembler} {s : Statement} (h : a.Orderly program)
    (hs : s.emitted? = none) (hi : a'.instructions = a.instructions)
    (hp : a'.position = a.position) (hf : a'.faults = [] → a.faults = []) :
    a'.Orderly (program ++ [s]) := by
  refine ⟨?_, ?_, fun hn => ?_⟩
  · rw [hi, hp]; exact h.packed
  · rw [hi, h.emitted]; simp [hs]
  · rw [hi]; exact h.fits (hf hn)

/-- A statement that emits puts its instruction at the current position. -/
theorem Orderly.push {s : Statement} {op : Opcode} {operand : PendingOperand}
    (h : a.Orderly program) (hs : s.emitted? = some (op, operand))
    (hfits : a.faults = [] → PendingInstruction.Fits ⟨a.position, op, operand⟩) :
    (a.push op operand).Orderly (program ++ [s]) := by
  refine ⟨?_, ?_, fun hn p hp => ?_⟩
  · exact h.packed.append (p := ⟨a.position, op, operand⟩) rfl
  · simp [Assembler.push, h.emitted, hs]
  · rcases List.mem_append.mp hp with hp | hp
    · exact h.fits hn p hp
    · obtain rfl := List.mem_singleton.mp hp
      exact hfits hn

/-- **One statement keeps the layout.** -/
theorem Orderly.step (h : a.Orderly program) (s : Statement) :
    (a.step s).Orderly (program ++ [s]) := by
  cases s with
  | emit op operand =>
      refine (h.check _ _).push rfl fun hf o ho => ?_
      obtain rfl := PendingOperand.ready.inj ho
      exact (check_eq hf).1
  | branch op label => exact (h.check _ _).push rfl fun _ o ho => by cases ho
  | switch labels => exact h.push rfl fun _ o ho => by cases ho
  | label name =>
      simp only [Assembler.step]
      cases (a.labels.lookup name).isNone with
      | true => exact h.skip rfl rfl rfl id
      | false => exact h.skip rfl rfl rfl (by simp [Assembler.check])
  | clause c => exact h.skip rfl rfl rfl id
  | declare sig => exact h.skip rfl rfl rfl id
  | maxStack n => exact h.skip rfl rfl rfl id

theorem Orderly.foldl (h : a.Orderly program) (rest : List Statement) :
    (rest.foldl Assembler.step a).Orderly (program ++ rest) := by
  induction rest generalizing program a with
  | nil => simpa using h
  | cons s rest ih => simpa using ih (h.step s)

end

/-- **Every program keeps the layout.** -/
theorem orderly_run (program : List Statement) : (run program).Orderly program := by
  have hstart : Orderly [] {} := ⟨rfl, rfl, fun _ _ hp => by cases hp⟩
  exact hstart.foldl program

/-! ## 4. Finishing -/

variable {a : Assembler}

theorem forall₂_of_mapM {α β ε : Type} {f : α → Except ε β} {l : List α} {r : List β}
    (h : l.mapM f = .ok r) : List.Forall₂ (fun x y => f x = .ok y) l r := by
  induction l generalizing r with
  | nil =>
      obtain rfl : [] = r := Except.ok.inj h
      exact .nil
  | cons x l ih =>
      rw [List.mapM_cons] at h
      obtain ⟨y, hy, h⟩ := FlowGraph.ok_of_bind h
      obtain ⟨ys, hys, h⟩ := FlowGraph.ok_of_bind h
      obtain rfl := Except.ok.inj h
      exact .cons hy (ih hys)

/-- **The encoded size is the room that was left and the entries that were left out.** -/
theorem size_of_finish {p : PendingInstruction} {i : Instruction} (hp : p.Fits)
    (h : a.finishInstruction p = .ok i) :
    i.offset = p.offset ∧ i.size = p.room + p.leftOut.length * 4 := by
  obtain ⟨offset, op, operand⟩ := p
  obtain ⟨o, ho, h⟩ := FlowGraph.ok_of_bind h
  obtain rfl := Except.ok.inj h
  refine ⟨rfl, ?_⟩
  cases operand with
  | ready operand =>
      obtain rfl : operand = o := Except.ok.inj ho
      cases operand with
      | switch targets =>
          -- only one opcode takes a jump table, and the table's count has its four bytes
          have hkind : op.operandKind = .switch := by
            have hfits := hp _ rfl
            cases hk : op.operandKind <;> simp_all [OperandKind.fits]
          simp only [Instruction.size, PendingInstruction.room, PendingInstruction.leftOut, hkind]
          rw [show OperandKind.switch.size = 4 from rfl]
          omega
      | _ => rfl
  | label name =>
      obtain ⟨t, _, ho⟩ := FlowGraph.ok_of_bind ho
      obtain rfl := Except.ok.inj ho
      rfl
  | labels names =>
      obtain ⟨ts, hts, ho⟩ := FlowGraph.ok_of_bind ho
      obtain rfl := Except.ok.inj ho
      have hlen := (forall₂_of_mapM hts).length_eq
      simp only [Instruction.size, PendingInstruction.room, PendingInstruction.leftOut, hlen]
      rfl

/-- A layout without gaps starts where the room starts. -/
theorem start_eq_of_adjoin {ps : List PendingInstruction} {is : List Instruction}
    {start start' stop : Nat} (hp : Packed start ps stop) (hi : Adjoin start' is stop)
    (h : List.Forall₂ (fun p i => i.offset = p.offset) ps is) : start' = start := by
  cases h with
  | nil => exact hi.symm.trans hp
  | cons hpi _ => exact hi.1.symm.trans (hpi.trans hp.1)

/-- **A finished row has no gaps exactly if no entry was left out of its room.** -/
theorem adjoin_iff {ps : List PendingInstruction} {is : List Instruction} {start stop : Nat}
    (hp : Packed start ps stop)
    (h : List.Forall₂ (fun p i => i.offset = p.offset ∧ i.size = p.room + p.leftOut.length * 4) ps is)
    (hsize : start + totalSize is < UInt32.size) :
    Adjoin start is stop ↔ ∀ p ∈ ps, p.leftOut = [] := by
  induction h generalizing start with
  | nil => exact ⟨fun _ _ hq => (List.not_mem_nil hq).elim, fun _ => hp⟩
  | @cons p i ps is hpi hrest ih =>
      obtain ⟨hoffset, hroom⟩ := hpi
      rw [totalSize] at hsize
      have hstart : i.offset = start := hoffset.trans hp.1
      have hend : wrapOffset (start + p.room) = start + p.room :=
        Nat.mod_eq_of_lt (by omega)
      have hnext : i.next = start + i.size := by
        unfold Instruction.next
        rw [hstart]
        exact Nat.mod_eq_of_lt (by omega)
      have hp' : Packed (start + p.room) ps stop := hend ▸ hp.2
      rw [List.forall_mem_cons, Adjoin, and_iff_right hstart, hnext]
      constructor
      · intro hadj
        -- the next instruction can only stand at the end of the room
        have heq := start_eq_of_adjoin hp' hadj (hrest.imp fun _ _ h => h.1)
        have hnil : p.leftOut = [] := List.eq_nil_of_length_eq_zero (by omega)
        rw [heq] at hadj
        exact ⟨hnil, (ih hp' (by omega)).mp hadj⟩
      · intro ⟨hnil, hall⟩
        rw [hroom, hnil]
        exact (ih hp' (by omega)).mpr hall

end Assembler

/-! ## 5. Assembled bodies -/

/-- Jump tables with resolved offsets are what a program can leave out. -/
theorem leftOut_iff {program : List Statement} {a : Assembler} (h : a.Orderly program) :
    (∀ p ∈ a.instructions, p.leftOut = []) ↔
      ∀ op targets, Statement.emit op (.switch targets) ∈ program → targets = [] := by
  have hmem : ∀ op operand, (∃ p ∈ a.instructions, (p.opcode, p.operand) = (op, operand)) ↔
      ∃ s ∈ program, s.emitted? = some (op, operand) := by
    intro op operand
    rw [← List.mem_filterMap, ← h.emitted, List.mem_map]
  constructor
  · intro hall op targets hs
    obtain ⟨p, hp, he⟩ := (hmem op (.ready (.switch targets))).mpr ⟨_, hs, rfl⟩
    have hnil := hall p hp
    rw [Prod.mk.injEq] at he
    simpa [PendingInstruction.leftOut, he.2] using hnil
  · intro hall p hp
    obtain ⟨s, hs, he⟩ := (hmem p.opcode p.operand).mp ⟨p, hp, rfl⟩
    cases s with
    | emit op operand =>
        simp only [Statement.emitted?, Option.some.injEq, Prod.mk.injEq] at he
        unfold PendingInstruction.leftOut
        rw [← he.2]
        cases operand with
        | switch targets => exact hall op targets hs
        | _ => rfl
    | branch op label | switch labels =>
        simp only [Statement.emitted?, Option.some.injEq, Prod.mk.injEq] at he
        unfold PendingInstruction.leftOut
        rw [← he.2]
    | _ => cases he

/-- **The offsets of an assembled body are its encoded layout exactly if no jump table with
    entries was emitted with resolved offsets.** -/
theorem assemble_laidOut_iff {program : List Statement} {body : Body}
    (h : assemble program = .ok body)
    (hsize : totalSize body.instructions < UInt32.size) :
    (body.LaidOut ∧ (Assembler.run program).position = body.codeSize) ↔
      ∀ op targets, Statement.emit op (.switch targets) ∈ program → targets = [] := by
  have horderly := Assembler.orderly_run program
  unfold assemble Assembler.body at h
  split at h
  next => cases h
  next hfaults =>
    obtain ⟨is, his, h⟩ := FlowGraph.ok_of_bind h
    obtain ⟨clauses, _, h⟩ := FlowGraph.ok_of_bind h
    obtain rfl := Except.ok.inj h
    have hfinish := (List.forall₂_and_left _ _).mpr
      ⟨horderly.fits hfaults, Assembler.forall₂_of_mapM his⟩
    rw [Body.laidOut_iff, ← leftOut_iff horderly]
    exact Assembler.adjoin_iff horderly.packed
      (hfinish.imp fun _ _ h => Assembler.size_of_finish h.1 h.2) (by simpa using hsize)

/-- A program with a jump table over labels. -/
def tabled : List Statement :=
  [.constant 300, .switch ["end", "end"], .branch .brS "end", .emit .br (.target 0),
    .label "end", .plain .ret]

theorem tabled_laidOut : ∃ body, assemble tabled = .ok body ∧ body.LaidOut ∧
    (Assembler.run tabled).position = body.codeSize ∧ body.codeSize = 26 := by
  have hbody : assemble tabled = .ok
      ⟨8, true, [], [⟨0, .ldcI4, .int32 300⟩, ⟨5, .switch, .switch [25, 25]⟩,
        ⟨18, .brS, .target 25⟩, ⟨20, .br, .target 0⟩, ⟨25, .ret, .empty⟩], []⟩ := by rfl
  have htables : ∀ op targets, Statement.emit op (.switch targets) ∈ tabled → targets = [] := by
    intro op targets h
    have hlong : Statement.constant 300 = .emit .ldcI4 (.int32 300) := by decide
    simp [tabled, hlong, Statement.plain] at h
  obtain ⟨hlaid, hposition⟩ := (assemble_laidOut_iff hbody (by decide)).mpr htables
  exact ⟨_, hbody, hlaid, hposition, by decide⟩

/-- **A jump table with a resolved offset gets no room for it:** the next instruction stands inside
    the table. -/
theorem resolved_overlaps : ∃ body, assemble [.emit .switch (.switch [0]), .plain .ret] = .ok body ∧
    totalSize body.instructions = 10 ∧ ¬ body.LaidOut := by
  refine ⟨⟨8, true, [], [⟨0, .switch, .switch [0]⟩, ⟨5, .ret, .empty⟩], []⟩, rfl, by decide, ?_⟩
  intro hlaid
  have hnext := hlaid.next
  rw [List.isChain_cons_cons] at hnext
  exact absurd hnext.1 (by decide)

end ReflectionFlow
