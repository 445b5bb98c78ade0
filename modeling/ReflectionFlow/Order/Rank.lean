/-
  File:      ReflectionFlow/Order/Rank.lean
  Subject:   One total order for every value that is listed, sorted or kept in a set.

  A type is `Ranked` when each of its values has a rank, a list of numbers, such that
  no rank is the beginning of another.  Ranks are compared lexicographically.  Because
  ranks can be cancelled from the left, ranks of parts can simply be written one after
  the other, and the order of a compound value is the order of its parts in sequence.

  Main definitions:
  * `Ranked`           the class, with left cancellation as its only law
  * `Ranked.via`       a rank borrowed through an injective view
  * `rankCompare`      the order itself
  * `decEqOfRank`      equality decided by comparing ranks
-/

namespace ReflectionFlow

universe u v

/-- Values with a rank.  The law says that a rank followed by anything determines both
    the value and what follows: ranks are injective and prefix-free. -/
class Ranked (α : Type u) where
  rank : α → List Nat
  rank_cancel : ∀ {a b : α} {s t : List Nat}, rank a ++ s = rank b ++ t → a = b ∧ s = t

/-! ## 1. The order -/

section Order

variable {α : Type u} [Ranked α]

/-- Compares two values by their ranks. -/
def rankCompare (a b : α) : Ordering := compare (Ranked.rank a) (Ranked.rank b)

/-- Two values of equal rank are equal. -/
theorem eq_of_rank_eq {a b : α} (h : Ranked.rank a = Ranked.rank b) : a = b :=
  (Ranked.rank_cancel (s := []) (t := []) (by rw [h])).1

instance : Std.TransCmp (rankCompare (α := α)) :=
  inferInstanceAs (Std.TransCmp (compareOn Ranked.rank))

instance : Std.LawfulEqCmp (rankCompare (α := α)) where
  eq_of_compare h := eq_of_rank_eq (Std.LawfulEqOrd.eq_of_compare h)

/-- The order identifies exactly equal values. -/
theorem rankCompare_eq_iff {a b : α} : rankCompare a b = .eq ↔ a = b :=
  Std.LawfulEqCmp.compare_eq_iff_eq

/-- Equality is decided by comparing ranks. -/
def decEqOfRank (a b : α) : Decidable (a = b) :=
  decidable_of_iff (Ranked.rank a = Ranked.rank b) ⟨eq_of_rank_eq, fun h => h ▸ rfl⟩

end Order

/-! ## 2. Ranks of the basic types -/

namespace Ranked

/-- A rank borrowed from another type through an injective view. -/
@[reducible]
def via {α : Type u} {β : Type v} [Ranked β] (view : α → β)
    (inj : ∀ {a b : α}, view a = view b → a = b) : Ranked α where
  rank a := rank (view a)
  rank_cancel h := ⟨inj (rank_cancel h).1, (rank_cancel h).2⟩

instance : Ranked Nat where
  rank n := [n]
  rank_cancel h := by simpa using h

instance : Ranked Bool := via Bool.toNat fun {a b} h => by
  cases a <;> cases b <;> simp_all

instance : Ranked UInt8 := via UInt8.toNat UInt8.toNat_inj.1

instance : Ranked UInt16 := via UInt16.toNat UInt16.toNat_inj.1

instance : Ranked UInt32 := via UInt32.toNat UInt32.toNat_inj.1

/-- Signed words are ranked by their distance from the least one. -/
instance : Ranked Int32 := via (fun n => (n.toInt + 2147483648).toNat) fun {a b} h => by
  have ha := a.le_toInt
  have hb := b.le_toInt
  apply Int32.toInt_inj.1
  omega

/-! ## 3. Ranks of compound values -/

/-- A pair is ranked by its first part, then by its second. -/
instance {α : Type u} {β : Type v} [Ranked α] [Ranked β] : Ranked (α × β) where
  rank p := rank p.1 ++ rank p.2
  rank_cancel {a b s t} h := by
    rw [List.append_assoc, List.append_assoc] at h
    obtain ⟨h₁, h'⟩ := rank_cancel h
    obtain ⟨h₂, h₃⟩ := rank_cancel h'
    exact ⟨Prod.ext h₁ h₂, h₃⟩

/-- An absent value precedes every present one. -/
instance {α : Type u} [Ranked α] : Ranked (Option α) where
  rank
    | none => [0]
    | some a => 1 :: rank a
  rank_cancel {a b s t} h := by
    cases a <;> cases b <;> simp at h
    · exact ⟨rfl, h⟩
    · obtain ⟨h₁, h₂⟩ := rank_cancel h
      exact ⟨congrArg some h₁, h₂⟩

/-- The rank of a sequence: its members one after the other, each announced by a one,
    and a zero at the end.  A proper beginning of a sequence therefore precedes it. -/
def listRank {α : Type u} (f : α → List Nat) : List α → List Nat
  | [] => [0]
  | a :: r => 1 :: (f a ++ listRank f r)

/-- Left cancellation for sequences. -/
theorem listRank_cancel {α : Type u} {f : α → List Nat}
    (hf : ∀ {a b : α} {s t : List Nat}, f a ++ s = f b ++ t → a = b ∧ s = t) :
    ∀ {x y : List α} {s t : List Nat}, listRank f x ++ s = listRank f y ++ t → x = y ∧ s = t
  | [], [], _, _, h => ⟨rfl, by simpa [listRank] using h⟩
  | [], _ :: _, _, _, h => by simp [listRank] at h
  | _ :: _, [], _, _, h => by simp [listRank] at h
  | a :: x, b :: y, s, t, h => by
    simp only [listRank, List.cons_append, List.append_assoc, List.cons.injEq, true_and] at h
    obtain ⟨h₁, h'⟩ := hf h
    obtain ⟨h₂, h₃⟩ := listRank_cancel hf h'
    exact ⟨by rw [h₁, h₂], h₃⟩

instance {α : Type u} [Ranked α] : Ranked (List α) where
  rank := listRank rank
  rank_cancel := listRank_cancel rank_cancel

/-- Texts are ordered by code points, which is also their order as encoded bytes. -/
instance : Ranked Char := via Char.toNat fun {a b} h => by
  apply Char.ext
  exact UInt32.toNat_inj.1 h

instance : Ranked String := via String.toList String.toList_inj.1

end Ranked

end ReflectionFlow
