/-
  File:      ReflectionFlow/Proofs/State/Variables.lean
  Subject:   Maps of variables are equal as data exactly if they read the same.

  An iteration has come to its end when no state changes, and states are compared as data.  That is
  right only if a map has one form: an entry that says what the default says must not be stored.
  Every operation sees to it.  Storing drops such an entry, rewriting stores, and a meet, which
  changes the default and the entries at once, builds its result by storing.

  * `Variables.Built`         what operations build, one map from another
  * `Variables.Built.over`    no such map stores its default
  * `Variables.built_reads`   equality and meet, read variable by variable
-/
import ReflectionFlow.Proofs.State.Order

namespace ReflectionFlow

namespace Variables

variable {m n : Variables}

/-- **What operations build, one map from another**, out of sets in canonical form.  A rewriting is
    any function of such sets.  One that treats equal sets differently is a sequence of stores. -/
inductive Built : Variables → Prop where
  | ofDefault {s : ValueSet} (hs : s.Canonical) : Built (ofDefault s)
  | unknown : Built unknown
  | top : Built top
  | set {m : Variables} (hm : Built m) (k : VarKey) {s : ValueSet} (hs : s.Canonical) :
      Built (m.set k s)
  | update {m : Variables} (hm : Built m) (f : ValueSet → Option ValueSet)
      (hf : ∀ s s', s.Canonical → f s = some s' → s'.Canonical) : Built (m.update f)
  | meet {m n : Variables} (hm : Built m) (hn : Built n) : Built (m.meet n)

/-- **No map that operations build stores its default.** -/
theorem Built.over (hm : m.Built) : m.Over SetOf.Canonical := by
  induction hm with
  | ofDefault hs => exact over_ofDefault hs
  | unknown => exact over_ofDefault SetOf.canonical_unknown
  | top => exact over_ofDefault SetOf.canonical_empty
  | set _ k hs ih => exact ih.set k hs
  | update _ f hf ih => exact (ih.update hf).1
  | meet _ _ ihm ihn => exact ihm.meet (fun _ _ hs ht => hs.merge ht) ihn

/-- **Maps that operations build, read variable by variable.**  None stores its default.  So two
    maps with one default are equal if and only if every variable reads the same in both, and in a
    meet every variable reads the union of what it reads on both sides, whether it is stored or
    not. -/
theorem built_reads (hm : m.Built) (hn : n.Built) :
    (∀ e ∈ m.entries, e.2 ≠ m.default) ∧
      (m.default = n.default → (m = n ↔ ∀ k, m.get k = n.get k)) ∧
      ∀ k, (m.meet n).get k = (m.get k).merge (n.get k) := by
  have hm' : m.Over SetOf.Canonical := hm.over
  have hn' : n.Over SetOf.Canonical := hn.over
  refine ⟨hm'.sparse, fun hdefault => ⟨?_, hm'.ext hn' hdefault⟩, get_meet hm' hn'⟩
  rintro rfl k
  rfl

/-- A map with a known variable, about which a rewriting forgets what was known. -/
def forgotten : Variables :=
  (Variables.unknown.set (.loc 0) (.single (.string "a"))).update fun _ => some .unknown

/-- Every variable is null but one. -/
def nulls : Variables := (ofDefault (.single .null)).set (.arg 1) (.single (.int 7))

/-- The rewritten map stores nothing and is the map that knows nothing; it meets a map with another
    default. -/
theorem forgotten_reads : forgotten.entries = [] ∧ nulls.entries ≠ [] ∧
    (forgotten = unknown ↔ ∀ k, forgotten.get k = unknown.get k) ∧
    ∀ k, (nulls.meet forgotten).get k = (nulls.get k).merge (forgotten.get k) := by
  have hforgotten : forgotten.Built := by
    refine (Built.unknown.set (.loc 0) (SetOf.canonical_single _)).update _ fun s s' _ h => ?_
    exact Option.some.inj h ▸ SetOf.canonical_unknown
  have hnulls : nulls.Built :=
    (Built.ofDefault (SetOf.canonical_single _)).set (.arg 1) (SetOf.canonical_single _)
  obtain ⟨_, hequal, _⟩ := built_reads hforgotten Built.unknown
  obtain ⟨_, _, hmeet⟩ := built_reads hnulls hforgotten
  exact ⟨by decide, by decide, hequal rfl, hmeet⟩

end Variables

end ReflectionFlow
