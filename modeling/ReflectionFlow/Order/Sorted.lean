/-
  File:      ReflectionFlow/Order/Sorted.lean
  Subject:   Sets and finite maps as ascending lists.

  Value sets, variable maps, pattern logs and mark sets are compared for equality and
  listed in order, so they are kept in one canonical form: a list that ascends strictly
  in the order of `rankCompare`.

  Main definitions:
  * `Ascending`                    the canonical form
  * `insertSorted`                 adds a member to a set
  * `Assoc`, `Assoc.get?`, `Assoc.insert`, `Assoc.erase`
                                   a map as a list of entries that ascends by key
-/
import ReflectionFlow.Order.Rank

namespace ReflectionFlow

universe u v

/-! ## 1. Sets -/

section Sets

variable {α : Type u} [Ranked α]

/-- Each member precedes every later one. -/
def Ascending (l : List α) : Prop := l.Pairwise fun a b => rankCompare a b = .lt

/-- Puts a value at its place; a value that is already there stays as it is. -/
def insertSorted (a : α) : List α → List α
  | [] => [a]
  | b :: r =>
    match rankCompare a b with
    | .lt => a :: b :: r
    | .eq => b :: r
    | .gt => b :: insertSorted a r

/-- Insertion adds the value and nothing else. -/
theorem mem_insertSorted {a c : α} {l : List α} :
    c ∈ insertSorted a l ↔ c = a ∨ c ∈ l := by
  induction l with
  | nil => simp [insertSorted]
  | cons b r ih =>
    simp only [insertSorted]
    split
    · simp
    · next h => grind [rankCompare_eq_iff.1 h]
    · grind

/-- Insertion keeps a list ascending. -/
theorem ascending_insertSorted {a : α} {l : List α} (h : Ascending l) :
    Ascending (insertSorted a l) := by
  induction l with
  | nil => simp [Ascending, insertSorted]
  | cons b r ih =>
    obtain ⟨hb, hr⟩ := List.pairwise_cons.1 h
    simp only [insertSorted]
    split
    · next hlt =>
      refine List.pairwise_cons.2 ⟨fun c hc => ?_, h⟩
      rcases List.mem_cons.1 hc with rfl | hc
      · exact hlt
      · exact Std.TransCmp.lt_trans hlt (hb c hc)
    · exact h
    · next hgt =>
      refine List.pairwise_cons.2 ⟨fun c hc => ?_, ih hr⟩
      rcases mem_insertSorted.1 hc with rfl | hc
      · exact Std.OrientedCmp.lt_of_gt hgt
      · exact hb c hc

/-- The union of two sets. -/
def unionSorted (l r : List α) : List α := r.foldl (fun acc a => insertSorted a acc) l

/-- The union has the members of both sides. -/
theorem mem_unionSorted {l r : List α} {c : α} : c ∈ unionSorted l r ↔ c ∈ l ∨ c ∈ r := by
  induction r generalizing l with
  | nil => simp [unionSorted]
  | cons b r ih =>
    have := ih (l := insertSorted b l)
    simp only [unionSorted, List.foldl_cons] at this ⊢
    rw [this, mem_insertSorted]
    grind

/-- The union of ascending lists ascends. -/
theorem ascending_unionSorted {l : List α} (r : List α) (h : Ascending l) :
    Ascending (unionSorted l r) := by
  induction r generalizing l with
  | nil => exact h
  | cons b r ih => exact ih (ascending_insertSorted h)

/-- Any list brought into canonical form. -/
def sortedOf (l : List α) : List α := unionSorted [] l

/-- Any list in ascending order, repeated members kept. -/
def sortedByRank (l : List α) : List α := l.mergeSort fun a b => (rankCompare a b).isLE

end Sets

/-! ## 2. Maps -/

/-- A finite map: entries in ascending order of their keys. -/
abbrev Assoc (κ : Type u) (ν : Type v) := List (κ × ν)

namespace Assoc

variable {κ : Type u} {ν : Type v} [Ranked κ]

/-- The entry of a key, if there is one. -/
def get? (m : Assoc κ ν) (k : κ) : Option ν :=
  match m with
  | [] => none
  | (j, x) :: r =>
    match rankCompare k j with
    | .lt => none
    | .eq => some x
    | .gt => get? r k

/-- Sets the entry of a key, replacing an earlier one. -/
def insert (m : Assoc κ ν) (k : κ) (x : ν) : Assoc κ ν :=
  match m with
  | [] => [(k, x)]
  | (j, y) :: r =>
    match rankCompare k j with
    | .lt => (k, x) :: (j, y) :: r
    | .eq => (k, x) :: r
    | .gt => (j, y) :: insert r k x

/-- Drops the entry of a key. -/
def erase (m : Assoc κ ν) (k : κ) : Assoc κ ν := m.filter fun e => rankCompare e.1 k != .eq

/-- A key that was just set holds the value it was set to. -/
theorem get?_insert_self (m : Assoc κ ν) (k : κ) (x : ν) : (m.insert k x).get? k = some x := by
  induction m with
  | nil => simp [insert, get?, Std.ReflCmp.compare_self]
  | cons e r ih =>
    obtain ⟨j, y⟩ := e
    simp only [insert]
    split
    · simp [get?, Std.ReflCmp.compare_self]
    · simp [get?, Std.ReflCmp.compare_self]
    · next h => simp [get?, h, ih]

/-- Setting a key leaves every other key alone. -/
theorem get?_insert_of_ne (m : Assoc κ ν) {k l : κ} (x : ν) (hne : l ≠ k) :
    (m.insert k x).get? l = m.get? l := by
  have hlk : rankCompare l k ≠ .eq := fun h => hne (rankCompare_eq_iff.1 h)
  induction m with
  | nil => simp only [insert, get?]; split <;> simp_all
  | cons e r ih =>
    obtain ⟨j, y⟩ := e
    simp only [insert]
    split
    · next h =>
      simp only [get?]
      split
      · next hl => rw [Std.TransCmp.lt_trans hl h]
      · simp_all
      · rfl
    · next h =>
      obtain rfl := rankCompare_eq_iff.1 h
      simp only [get?]
      split <;> simp_all
    · simp only [get?]
      split <;> simp_all

end Assoc

end ReflectionFlow
