/-
  File:      ReflectionFlow/Proofs/Scan/Indirect.lean
  Subject:   A store through more addresses forgets no more.

  A store through one address replaces what is at its target.  Through several it adds to each
  target, since any one of them may be the one that is hit.  So whatever a location holds after a
  store through some addresses, it holds after a store through more of them.

  That is so of variables, up to the contents of arrays that are stored into.  Of elements it is so
  if the element is not itself a target: an element takes a store from the block that stored last
  as if the address were certain.  And a version of an array must not be lost because the variable
  that holds it becomes unknown, or is unknown already.

  * `Scanner.Effect`            what a store to one location does to the state
  * `SetOf.CoversBut`           the order of sets up to the contents of arrays
  * `Scanner.Spared`            elements that are no targets and of which no version is lost
  * `Scanner.storeThrough_keeps`
-/
import ReflectionFlow.Proofs.Scan.Versions

namespace ReflectionFlow

open SetOf

/-! ## 1. Sets up to the contents of arrays -/

/-- The same value, or arrays of one of the given sites with other contents. -/
def Value.SameBut (K : Site → Prop) (v w : Value) : Prop :=
  v = w ∨ ∃ a b, v = .array a ∧ w = .array b ∧ a.site = b.site ∧ K b.site

/-- **One set covers another up to the contents of arrays of the given sites**: it is unknown, or
    it has all values of the other one. -/
def SetOf.CoversBut (K : Site → Prop) (s t : ValueSet) : Prop :=
  ∀ v ∈ t.members, s.isUnknown = true ∨ ∃ w ∈ s.members, w.SameBut K v

section CoversBut

variable {K : Site → Prop} {s t u : ValueSet} {v w x : Value}

theorem Value.SameBut.refl (v : Value) : v.SameBut K v := .inl rfl

theorem Value.SameBut.trans (h : v.SameBut K w) (h' : w.SameBut K x) : v.SameBut K x := by
  rcases h with rfl | ⟨a, b, rfl, rfl, hab, hb⟩
  · exact h'
  · rcases h' with rfl | ⟨b', c, heq, rfl, hbc, hc⟩
    · exact .inr ⟨a, b, rfl, rfl, hab, hb⟩
    · obtain rfl := Value.array.inj heq
      exact .inr ⟨a, c, rfl, rfl, hab.trans hbc, hc⟩

theorem Value.SameBut.symm (h : v.SameBut K w) : w.SameBut K v := by
  rcases h with rfl | ⟨a, b, rfl, rfl, hsite, hK⟩
  · exact .refl v
  · exact .inr ⟨b, a, rfl, rfl, hsite.symm, hsite ▸ hK⟩

theorem Value.SameBut.eq_unknown (h : v.SameBut K .unknown) : v = .unknown := by
  rcases h with rfl | ⟨_, _, _, heq, _⟩
  · rfl
  · cases heq

theorem Value.SameBut.array_inv {a : ArrayValue} (h : (Value.array a).SameBut K v) :
    ∃ b, v = .array b ∧ a.site = b.site := by
  rcases h with rfl | ⟨a', b, heq, rfl, hsite, _⟩
  · exact ⟨a, rfl, rfl⟩
  · obtain rfl := Value.array.inj heq
    exact ⟨b, rfl, hsite⟩

theorem SetOf.Covers.but (h : s.Covers t) : s.CoversBut K t := fun v hv =>
  (h v (.inr hv)).imp id fun hv => ⟨v, hv, .refl v⟩

theorem SetOf.CoversBut.trans (h : s.CoversBut K t) (h' : t.CoversBut K u) : s.CoversBut K u := by
  intro v hv
  rcases h' v hv with hunknown | ⟨w, hw, hwv⟩
  · refine .inl ?_
    rcases h .unknown (isUnknown_iff.mp hunknown) with hs | ⟨w, hw, hsame⟩
    · exact hs
    · exact isUnknown_iff.mpr (hsame.eq_unknown ▸ hw)
  · rcases h w hw with hs | ⟨x, hx, hxw⟩
    · exact .inl hs
    · exact .inr ⟨x, hx, hxw.trans hwv⟩

theorem SetOf.CoversBut.same (h : s.CoversBut K t) (hw : w ∈ t.members) (hv : v.SameBut K w) :
    s.isUnknown = true ∨ ∃ x ∈ s.members, x.SameBut K v :=
  (h w hw).imp id fun ⟨x, hx, hsame⟩ => ⟨x, hx, hsame.trans hv.symm⟩

end CoversBut

/-- The state holds an array of a site. -/
def State.HoldsAt (s : State) (site : Site) : Prop := ∃ a, s.Holds a ∧ a.site = site

/-- A held array of a site admits a value at an index. -/
def State.Reads (s : State) (site : Site) (i : Int32) (w : Value) : Prop :=
  ∃ a, s.Holds a ∧ a.site = site ∧ (a.element i).Admits w

/-- An array of the set and of a site admits a value at an index. -/
def SetOf.Reads (v : ValueSet) (site : Site) (i : Int32) (w : Value) : Prop :=
  ∃ a, Value.array a ∈ v.members ∧ a.site = site ∧ (a.element i).Admits w

/-! ## 2. Stores to one location -/

/-- The variable that a location is. -/
def Location.key? : Location → Option VarKey
  | .loc n => some (.loc n)
  | .arg n => some (.arg n)
  | .this => some (.arg 0)
  | _ => none

namespace Scanner

/-- What a variable holds after a store that is certain or may miss. -/
def assigned (certain : Bool) (old v : ValueSet) : ValueSet := if certain then v else old.merge v

/-- **What a store to a location does to the state.** -/
inductive Effect (sc : Scanner) (block : Nat) (v : ValueSet) (certain : Bool) (s : State) :
    Location → State → Prop where
  /-- Fields and the like are not part of the state, and an array that is not held stays unknown. -/
  | nothing {l : Location} (hkey : l.key? = none)
      (hheld : ∀ site index, l = .element site index → ∀ a, s.Holds a → a.site ≠ site) :
      Effect sc block v certain s l s
  | assignment {l : Location} {k : VarKey} (hl : l.key? = some k) :
      Effect sc block v certain s l
        { s with vars := s.vars.set k (assigned certain (s.vars.get k) v) }
  | array {site : Site} {index : Option Int32} {a : ArrayValue}
      (ha : mergeVersions? (s.versions site) = some a) :
      Effect sc block v certain s (.element site index)
        (s.replaceArray (s.versions site) (sc.updated block index v a))

variable {sc : Scanner} {block offset : Nat} {v : ValueSet} {certain : Bool} {s s' : State}
  {t : Trace} {l : Location}

theorem effect_storeArgument (n : UInt16) (hl : l.key? = some (.arg n)) :
    sc.Effect block v certain t.state l (sc.storeArgument offset n v certain t).state := by
  have hstate := sc.state_observeArgument offset n v t
  have hassigned : (sc.storeArgument offset n v certain t).state =
      { t.state with
        vars := t.state.vars.set (.arg n) (assigned certain (t.state.vars.get (.arg n)) v) } := by
    unfold storeArgument Trace.assign Trace.set Trace.get assigned
    rw [hstate]
  rw [hassigned]
  exact .assignment hl

/-- **Every store has one of these effects.** -/
theorem effect_write (sc : Scanner) (block offset : Nat) (v : ValueSet) (certain : Bool) (t : Trace)
    (l : Location) :
    sc.Effect block v certain t.state l (sc.write block offset v certain t l).state := by
  cases l with
  | loc n => exact .assignment rfl
  | arg n => exact effect_storeArgument n rfl
  | this => exact effect_storeArgument 0 rfl
  | field f =>
      rw [show (sc.write block offset v certain t (.field f)).state = t.state from
        state_storeField offset f v t]
      exact .nothing rfl nofun
  | element site index =>
      unfold write storeVersions
      dsimp only
      cases ha : mergeVersions? (t.state.versions site) with
      | none =>
          refine .nothing rfl fun site' index' heq a hheld hsite => ?_
          obtain ⟨rfl, rfl⟩ := Location.element.inj heq
          have hmem := State.mem_versions_iff.mpr ⟨hsite, hheld⟩
          rw [mergeVersions?_eq_none.mp ha] at hmem
          cases hmem
      | some a => exact .array ha
  | parameterTarget n =>
      rw [show (sc.write block offset v certain t (.parameterTarget n)).state = t.state from
        t.state_observeFlow _ _ _ _]
      exact .nothing rfl nofun
  | returnSlot m => exact .nothing rfl nofun

/-! ## 3. One store -/

/-- A well-formed state in which the tracked indices of arrays ascend. -/
structure Orderly (s : State) : Prop where
  wellFormed : s.WellFormed
  keyed : ∀ a, s.Holds a → a.Keyed

/-- A set that can be stored, in which the tracked indices of arrays ascend. -/
structure OrderlySet (v : ValueSet) : Prop where
  stored : v.Stored
  keyed : ∀ a, Value.array a ∈ v.members → a.Keyed

/-- **No array of a site is lost when a set is added to a variable**: where one of the two is unknown,
    the other has none. -/
structure Lossless (s : State) (v : ValueSet) (site : Site) (k : VarKey) : Prop where
  held : v.isUnknown = true → ∀ a, Value.array a ∈ (s.vars.get k).members → a.site ≠ site
  stored : (s.vars.get k).isUnknown = true → ∀ a, Value.array a ∈ v.members → a.site ≠ site

theorem Orderly.unites (hs : Orderly s) {site : Site} {a : ArrayValue}
    (ha : mergeVersions? (s.versions site) = some a) : a.Unites site (s.versions site) :=
  unites_mergeVersions? (fun _ hb => (State.mem_versions_iff.mp hb).1)
    (fun _ hb => hs.keyed _ (State.mem_versions_iff.mp hb).2) ha

/-- An array that is held admits something at every index. -/
theorem Orderly.reads_something (hs : Orderly s) {site : Site} (h : s.HoldsAt site) (i : Int32) :
    ∃ w, s.Reads site i w := by
  obtain ⟨a, ha, hsite⟩ := h
  have hsound := hs.wellFormed.versions site a (State.mem_versions_iff.mpr ⟨hsite, ha⟩)
  obtain ⟨w, hw⟩ := isEmpty_eq_false_iff.mp (hsound.element i).nonempty
  exact ⟨w, a, ha, hsite, hw⟩

namespace Effect

variable (hs : Orderly s)
include hs

theorem wellFormed (hv : OrderlySet v) (h : sc.Effect block v certain s l s') : s'.WellFormed := by
  cases h with
  | nothing => exact hs.wellFormed
  | assignment hl =>
      refine hs.wellFormed.withVars (hs.wellFormed.vars.set _ ?_) rfl
      unfold assigned
      split
      · exact hv.stored
      · exact (hs.wellFormed.get _).merge hv.stored
  | @array site index a ha =>
      have hsound := sound_mergeVersions? (hs.wellFormed.versions site) ha
      refine hs.wellFormed.replaceArray _ ?_
      cases index with
      | some n => exact hsound.store n hv.stored block _
      | none => exact hsound.cleared

theorem get_set (k j : VarKey) (u : ValueSet) :
    (s.vars.set k u).get j = if j = k then u else s.vars.get j :=
  Variables.get_set hs.wellFormed.vars.keyed k j u

/-- **What a variable holds after a store** it held before, or it was stored. -/
theorem get_from (h : sc.Effect block v certain s l s') {K : Site → Prop}
    (hK : ∀ site index, l = .element site index → K site) {k : VarKey} {w : Value}
    (hw : w ∈ (s'.vars.get k).members) :
    (∃ x ∈ (s.vars.get k).members, w.SameBut K x) ∨ l.key? = some k ∧ w ∈ v.members := by
  cases h with
  | nothing => exact .inl ⟨w, hw, .refl w⟩
  | @assignment _ j hl =>
      rw [get_set hs] at hw
      split at hw
      · next hk =>
        subst hk
        unfold assigned at hw
        split at hw
        · exact .inr ⟨hl, hw⟩
        · exact (mem_of_mem_merge hw).imp (fun hw => ⟨w, hw, .refl w⟩) fun hw => ⟨hl, hw⟩
      · exact .inl ⟨w, hw, .refl w⟩
  | @array site index a ha =>
      rw [State.get_replaceArray hs.wellFormed.vars.keyed hs.wellFormed.default] at hw
      rcases (State.mem_replaced (hs.wellFormed.get k).absorbing).mp hw with
        ⟨hw, _⟩ | ⟨rfl, x, hx, hversion⟩
      · exact .inl ⟨w, hw, .refl w⟩
      · obtain ⟨b, hb, rfl⟩ := State.array_of_isVersion hversion
        have hsite : b.site = site := (State.mem_versions_iff.mp hb).1
        refine .inl ⟨_, hx, .inr ⟨_, b, rfl, rfl, ?_, hsite ▸ hK site index rfl⟩⟩
        rw [site_updated, (hs.unites ha).site, hsite]

/-- **A store that may miss keeps what variables hold**, -/
theorem get_keeps (h : sc.Effect block v false s l s') {K : Site → Prop}
    (hK : ∀ site index, l = .element site index → K site) (k : VarKey) :
    (s'.vars.get k).CoversBut K (s.vars.get k) := by
  cases h with
  | nothing => exact (Covers.refl _).but
  | @assignment _ j hl =>
      rw [get_set hs]
      split
      · next hk =>
        subst hk
        exact (merge_covers_left _ _).but
      · exact (Covers.refl _).but
  | @array site index a ha =>
      rw [State.get_replaceArray hs.wellFormed.vars.keyed hs.wellFormed.default]
      intro w hw
      have hmem (x : Value) : x ∈ (State.replaced (s.versions site) (sc.updated block index v a)
          (s.vars.get k)).members ↔ _ := State.mem_replaced (hs.wellFormed.get k).absorbing
      right
      cases hversion : State.isVersion (s.versions site) w with
      | false => exact ⟨w, (hmem w).mpr (.inl ⟨hw, hversion⟩), .refl w⟩
      | true =>
          obtain ⟨b, hb, rfl⟩ := State.array_of_isVersion hversion
          have hsite : b.site = site := (State.mem_versions_iff.mp hb).1
          refine ⟨_, (hmem _).mpr (.inr ⟨rfl, _, hw, hversion⟩), .inr ⟨_, b, rfl, rfl, ?_,
            hsite ▸ hK site index rfl⟩⟩
          rw [site_updated, (hs.unites ha).site, hsite]

/-- **and adds to its target.** -/
theorem get_adds (h : sc.Effect block v false s l s') {K : Site → Prop} {k : VarKey}
    (hk : l.key? = some k) : (s'.vars.get k).CoversBut K v := by
  cases h with
  | nothing hnone =>
      rw [hnone] at hk
      cases hk
  | @assignment _ j hl =>
      rw [get_set hs, if_pos (Option.some.inj (hk.symm.trans hl))]
      exact (merge_covers_right _ _).but
  | array => cases hk

/-! ## 4. Elements after one store -/

theorem holds_assigned_iff (k : VarKey) (u : ValueSet) (a : ArrayValue) :
    State.Holds { s with vars := s.vars.set k u } a ↔
      (∃ x ∈ s.stack.fromTop, Value.array a ∈ x.members) ∨
        ∃ j, Value.array a ∈ (if j = k then u else s.vars.get j).members := by
  rw [State.holds_iff (s := { s with vars := s.vars.set k u })
    (Variables.keyed_set hs.wellFormed.vars.keyed k u) hs.wellFormed.default]
  simp only [get_set hs]

/-- An assignment brings no arrays but those of the stored set. -/
theorem holds_of_assigned {k : VarKey} {a : ArrayValue}
    (h : State.Holds { s with vars := s.vars.set k (assigned certain (s.vars.get k) v) } a) :
    s.Holds a ∨ Value.array a ∈ v.members := by
  have hget : ∀ j, Value.array a ∈ (s.vars.get j).members → s.Holds a := fun j hj =>
    hs.wellFormed.holds_iff.mpr (.inr ⟨j, hj⟩)
  rcases (holds_assigned_iff hs _ _ a).mp h with hstack | ⟨j, hj⟩
  · exact .inl (hs.wellFormed.holds_iff.mpr (.inl hstack))
  · split at hj
    · unfold assigned at hj
      split at hj
      · exact .inr hj
      · exact (mem_of_mem_merge hj).imp (hget k) id
    · exact .inl (hget j hj)

theorem keyed (hv : OrderlySet v) (h : sc.Effect block v certain s l s') :
    ∀ a, s'.Holds a → a.Keyed := by
  intro b hb
  cases h with
  | nothing => exact hs.keyed b hb
  | assignment => exact (holds_of_assigned hs hb).elim (hs.keyed b) (hv.keyed b)
  | @array site index a ha =>
      rcases hs.wellFormed.holds_replaceArray.mp hb with ⟨hb, _⟩ | ⟨rfl, _⟩
      · exact hs.keyed b hb
      · exact keyed_updated sc block index v (hs.unites ha).keyed

/-- A store keeps states orderly. -/
theorem orderly (hv : OrderlySet v) (h : sc.Effect block v certain s l s') : Orderly s' :=
  ⟨h.wellFormed hs hv, h.keyed hs hv⟩

variable {site : Site} {i : Int32} {w : Value}

/-- **What an element may hold after a store** it may have held before, or it was stored, or the
    index of the store is not known. -/
theorem reads_from (h : sc.Effect block v certain s l s') (hl : l ≠ .element site (some i))
    (hr : s'.Reads site i w) : s.Reads site i w ∨
      (∃ k, l.key? = some k) ∧ v.Reads site i w ∨ l = .element site none := by
  obtain ⟨b, hb, hsite, hw⟩ := hr
  cases h with
  | nothing => exact .inl ⟨b, hb, hsite, hw⟩
  | @assignment _ k hk =>
      rcases holds_of_assigned hs hb with hb | hb
      · exact .inl ⟨b, hb, hsite, hw⟩
      · exact .inr (.inl ⟨⟨k, hk⟩, b, hb, hsite, hw⟩)
  | @array site' index a ha =>
      rcases hs.wellFormed.holds_replaceArray.mp hb with ⟨hb, _⟩ | ⟨rfl, _⟩
      · exact .inl ⟨b, hb, hsite, hw⟩
      · have hunites := hs.unites ha
        rw [site_updated, hunites.site] at hsite
        subst hsite
        cases index with
        | none => exact .inr (.inr rfl)
        | some n =>
            have hne : i ≠ n := fun heq => hl (heq ▸ rfl)
            rw [show sc.updated block (some n) v a = a.store n v block sc.context.config.maxTracked
              from rfl, ArrayOf.element_store_of_ne hne] at hw
            obtain ⟨c, hc, hw⟩ := (hunites.element i w).mp hw
            obtain ⟨hsite, hheld⟩ := State.mem_versions_iff.mp hc
            exact .inl ⟨c, hheld, hsite, hw⟩

/-- A store keeps variables from losing arrays of a site. -/
theorem lossless (hv : OrderlySet v) (h : sc.Effect block v certain s l s') {k : VarKey}
    (hk : Lossless s v site k) : Lossless s' v site k := by
  have hfrom := fun w hw =>
    h.get_from hs (K := fun _ => True) (fun _ _ _ => trivial) (k := k) (w := w) hw
  have hnone : v.isUnknown = true → ∀ a, Value.array a ∉ v.members := by
    intro hu a ha
    rw [hv.stored.absorbing hu] at ha
    cases List.mem_singleton.mp ha
  constructor
  · intro hu a ha
    rcases hfrom _ ha with ⟨x, hx, hsame⟩ | ⟨_, ha⟩
    · obtain ⟨b, rfl, hsite⟩ := hsame.array_inv
      rw [hsite]
      exact hk.held hu b hx
    · exact absurd ha (hnone hu a)
  · intro hu a ha
    rcases hfrom _ (isUnknown_iff.mp hu) with ⟨x, hx, hsame⟩ | ⟨_, hx⟩
    · rcases hsame with rfl | ⟨_, _, heq, _⟩
      · exact hk.stored (isUnknown_iff.mpr hx) a ha
      · cases heq
    · exact absurd ha (hnone (isUnknown_iff.mpr hx) a)

/-- **A store that may miss keeps what an element may hold**, if it is not the target, -/
theorem reads_keeps (h : sc.Effect block v false s l s') (hl : l ≠ .element site (some i))
    (hk : ∀ k, l.key? = some k → Lossless s v site k) (hr : s.Reads site i w) :
    s'.Reads site i w := by
  obtain ⟨b, hb, hsite, hw⟩ := hr
  cases h with
  | nothing => exact ⟨b, hb, hsite, hw⟩
  | @assignment _ k hkey =>
      refine ⟨b, (holds_assigned_iff hs _ _ b).mpr ?_, hsite, hw⟩
      rcases hs.wellFormed.holds_iff.mp hb with hb | ⟨j, hb⟩
      · exact .inl hb
      · refine .inr ⟨j, ?_⟩
        split
        · next hj =>
          subst hj
          refine mem_merge_of_known ?_ ?_ (.inl hb)
          · intro hu
            rw [(hs.wellFormed.get j).absorbing (isUnknown_iff.mpr hu)] at hb
            cases List.mem_singleton.mp hb
          · exact fun hu => (hk j hkey).held (isUnknown_iff.mpr hu) b hb hsite
        · exact hb
  | @array site' index a ha =>
      have hunites := hs.unites ha
      by_cases hversion : b ∈ s.versions site'
      · have hsites : site' = site := (State.mem_versions_iff.mp hversion).1.symm.trans hsite
        subst hsites
        refine ⟨_, hs.wellFormed.holds_replaceArray.mpr (.inr ⟨rfl, b, hversion, hb⟩), ?_, ?_⟩
        · rw [site_updated, hunites.site]
        · cases index with
          | none => exact admits_unknown w
          | some n =>
              have hne : i ≠ n := fun heq => hl (heq ▸ rfl)
              rw [show sc.updated block (some n) v a = a.store n v block sc.context.config.maxTracked
                from rfl, ArrayOf.element_store_of_ne hne]
              exact (hunites.element i w).mpr ⟨b, hversion, hw⟩
      · exact ⟨b, hs.wellFormed.holds_replaceArray.mpr (.inl ⟨hb, hversion⟩), hsite, hw⟩

/-- **adds the arrays that are stored**, -/
theorem reads_adds (hv : OrderlySet v) (h : sc.Effect block v false s l s') {k : VarKey}
    (hk : l.key? = some k) (hlossless : Lossless s v site k) (hr : v.Reads site i w) :
    s'.Reads site i w := by
  obtain ⟨b, hb, hsite, hw⟩ := hr
  cases h with
  | nothing hnone =>
      rw [hnone] at hk
      cases hk
  | @assignment _ j hj =>
      obtain rfl := Option.some.inj (hk.symm.trans hj)
      refine ⟨b, (holds_assigned_iff hs _ _ b).mpr (.inr ⟨k, ?_⟩), hsite, hw⟩
      rw [if_pos rfl]
      refine mem_merge_of_known ?_ ?_ (.inr hb)
      · exact fun hu => hlossless.stored (isUnknown_iff.mpr hu) b hb hsite
      · intro hu
        rw [hv.stored.absorbing (isUnknown_iff.mpr hu)] at hb
        cases List.mem_singleton.mp hb
  | array => cases hk

/-- **and forgets what is at an index that is not known.** -/
theorem reads_cleared (h : sc.Effect block v certain s (.element site none) s')
    (hheld : s.HoldsAt site) : s'.Reads site i w := by
  obtain ⟨b, hb, hsite⟩ := hheld
  cases h with
  | nothing _ hnone => exact absurd hsite (hnone site none rfl b hb)
  | assignment hk => cases hk
  | array ha =>
      have hversion := State.mem_versions_iff.mpr ⟨hsite, hb⟩
      refine ⟨_, hs.wellFormed.holds_replaceArray.mpr (.inr ⟨rfl, b, hversion, hb⟩), ?_,
        admits_unknown w⟩
      rw [site_updated, (hs.unites ha).site]

end Effect

/-! ## 5. Stores through several addresses -/

/-- The locations that a set of addresses refers to. -/
def targets (address : ValueSet) : List Location :=
  address.members.filterMap fun
    | .address l => some l
    | _ => none

theorem mem_targets {address : ValueSet} :
    l ∈ targets address ↔ Value.address l ∈ address.members := by
  unfold targets
  rw [List.mem_filterMap]
  constructor
  · rintro ⟨u, hu, hl⟩
    split at hl
    · exact Option.some.inj hl ▸ hu
    · cases hl
  · intro h
    exact ⟨_, h, rfl⟩

/-- **What stores to several locations do to the state**, one after the other. -/
inductive Effects (sc : Scanner) (block : Nat) (v : ValueSet) (certain : Bool) :
    List Location → State → State → Prop where
  | nil (s : State) : Effects sc block v certain [] s s
  | cons {l : Location} {rest : List Location} {s s₁ s' : State}
      (h : sc.Effect block v certain s l s₁) (hrest : Effects sc block v certain rest s₁ s') :
      Effects sc block v certain (l :: rest) s s'

/-- **A store through addresses stores to all their targets.** -/
theorem effects_storeThrough (sc : Scanner) (block offset : Nat) (address v : ValueSet) (t : Trace) :
    sc.Effects block v (address.size == 1) (targets address) t.state
      (sc.storeThrough block offset address v t).state := by
  unfold storeThrough targets
  generalize (address.size == 1) = certain
  induction address.members generalizing t with
  | nil => exact .nil _
  | cons u rest ih =>
      rw [List.foldl_cons]
      cases u with
      | address l => exact .cons (effect_write sc block offset v certain t l) (ih _)
      | _ => exact ih t

namespace Effects

variable {ls : List Location} {site : Site} {i : Int32} {w : Value} {K : Site → Prop} {k : VarKey}

theorem get_from (h : sc.Effects block v certain ls s s') (hs : Orderly s) (hv : OrderlySet v)
    (hK : ∀ l ∈ ls, ∀ site index, l = .element site index → K site)
    (hw : w ∈ (s'.vars.get k).members) : (∃ x ∈ (s.vars.get k).members, w.SameBut K x) ∨
      (∃ l ∈ ls, l.key? = some k) ∧ ∃ x ∈ v.members, w.SameBut K x := by
  induction h with
  | nil => exact .inl ⟨w, hw, .refl w⟩
  | @cons l rest s s₁ s' h _ ih =>
      have hlater := ih (h.orderly hs hv) (fun l hl => hK l (List.mem_cons_of_mem _ hl)) hw
      rcases hlater with ⟨x, hx, hsame⟩ | ⟨⟨l', hl', hkey⟩, hx⟩
      · rcases h.get_from hs (hK l List.mem_cons_self) hx with ⟨y, hy, hsame'⟩ | ⟨hkey, hx⟩
        · exact .inl ⟨y, hy, hsame.trans hsame'⟩
        · exact .inr ⟨⟨l, List.mem_cons_self, hkey⟩, x, hx, hsame⟩
      · exact .inr ⟨⟨l', List.mem_cons_of_mem _ hl', hkey⟩, hx⟩

theorem get_keeps (h : sc.Effects block v false ls s s') (hs : Orderly s) (hv : OrderlySet v)
    (hK : ∀ l ∈ ls, ∀ site index, l = .element site index → K site) (k : VarKey) :
    (s'.vars.get k).CoversBut K (s.vars.get k) := by
  induction h with
  | nil => exact (Covers.refl _).but
  | @cons l rest s s₁ s' h _ ih =>
      have hlater := ih (h.orderly hs hv) fun l hl => hK l (List.mem_cons_of_mem _ hl)
      exact hlater.trans (h.get_keeps hs (hK l List.mem_cons_self) k)

theorem get_adds (h : sc.Effects block v false ls s s') (hs : Orderly s) (hv : OrderlySet v)
    (hK : ∀ l ∈ ls, ∀ site index, l = .element site index → K site) (hl : l ∈ ls)
    (hk : l.key? = some k) : (s'.vars.get k).CoversBut K v := by
  induction h with
  | nil => cases hl
  | @cons l' rest s s₁ s' h hrest ih =>
      have hK' := fun l hl => hK l (List.mem_cons_of_mem l' hl)
      rcases List.mem_cons.mp hl with rfl | hl
      · exact (hrest.get_keeps (h.orderly hs hv) hv hK' k).trans (h.get_adds hs hk)
      · exact ih (h.orderly hs hv) hK' hl

theorem reads_from (h : sc.Effects block v certain ls s s') (hs : Orderly s) (hv : OrderlySet v)
    (hls : Location.element site (some i) ∉ ls) (hr : s'.Reads site i w) : s.Reads site i w ∨
      (∃ l ∈ ls, ∃ k, l.key? = some k) ∧ v.Reads site i w ∨ Location.element site none ∈ ls := by
  induction h with
  | nil => exact .inl hr
  | @cons l rest s s₁ s' h _ ih =>
      obtain ⟨hl, hrest⟩ := List.ne_and_not_mem_of_not_mem_cons hls
      rcases ih (h.orderly hs hv) hrest hr with hr | ⟨⟨l', hl', hkey⟩, hr⟩ | hnone
      · rcases h.reads_from hs hl.symm hr with hr | ⟨hkey, hr⟩ | rfl
        · exact .inl hr
        · exact .inr (.inl ⟨⟨l, List.mem_cons_self, hkey⟩, hr⟩)
        · exact .inr (.inr List.mem_cons_self)
      · exact .inr (.inl ⟨⟨l', List.mem_cons_of_mem _ hl', hkey⟩, hr⟩)
      · exact .inr (.inr (List.mem_cons_of_mem _ hnone))

theorem reads_keeps (h : sc.Effects block v false ls s s') (hs : Orderly s) (hv : OrderlySet v)
    (hls : Location.element site (some i) ∉ ls)
    (hk : ∀ l ∈ ls, ∀ k, l.key? = some k → Lossless s v site k) (hr : s.Reads site i w) :
    s'.Reads site i w := by
  induction h with
  | nil => exact hr
  | @cons l rest s s₁ s' h _ ih =>
      obtain ⟨hl, hrest⟩ := List.ne_and_not_mem_of_not_mem_cons hls
      refine ih (h.orderly hs hv) hrest (fun l' hl' k hkey => ?_)
        (h.reads_keeps hs hl.symm (hk l List.mem_cons_self) hr)
      exact h.lossless hs hv (hk l' (List.mem_cons_of_mem _ hl') k hkey)

theorem reads_adds (h : sc.Effects block v false ls s s') (hs : Orderly s) (hv : OrderlySet v)
    (hls : Location.element site (some i) ∉ ls)
    (hk : ∀ l ∈ ls, ∀ k, l.key? = some k → Lossless s v site k) (hl : l ∈ ls)
    (hkey : l.key? = some k) (hr : v.Reads site i w) : s'.Reads site i w := by
  induction h with
  | nil => cases hl
  | @cons l' rest s s₁ s' h hrest ih =>
      have hnot := (List.ne_and_not_mem_of_not_mem_cons hls).2
      have hk' : ∀ l ∈ rest, ∀ k, l.key? = some k → Lossless s₁ v site k := fun l hl k hkey =>
        h.lossless hs hv (hk l (List.mem_cons_of_mem _ hl) k hkey)
      rcases List.mem_cons.mp hl with rfl | hl
      · exact hrest.reads_keeps (h.orderly hs hv) hv hnot hk'
          (h.reads_adds hs hv hkey (hk l hl k hkey) hr)
      · exact ih (h.orderly hs hv) hnot hk' hl

theorem reads_cleared (h : sc.Effects block v false ls s s') (hs : Orderly s) (hv : OrderlySet v)
    (hls : Location.element site (some i) ∉ ls)
    (hk : ∀ l ∈ ls, ∀ k, l.key? = some k → Lossless s v site k)
    (hl : Location.element site none ∈ ls) (hheld : s.HoldsAt site) : s'.Reads site i w := by
  induction h with
  | nil => cases hl
  | @cons l' rest s s₁ s' h hrest ih =>
      obtain ⟨hne, hnot⟩ := List.ne_and_not_mem_of_not_mem_cons hls
      have hk' : ∀ l ∈ rest, ∀ k, l.key? = some k → Lossless s₁ v site k := fun l hl k hkey =>
        h.lossless hs hv (hk l (List.mem_cons_of_mem _ hl) k hkey)
      rcases List.mem_cons.mp hl with rfl | hl
      · exact hrest.reads_keeps (h.orderly hs hv) hv hnot hk' (h.reads_cleared hs hheld)
      · obtain ⟨x, hx⟩ := hs.reads_something hheld i
        obtain ⟨a, ha, hsite, _⟩ := h.reads_keeps hs hne.symm (hk l' List.mem_cons_self) hx
        exact ih (h.orderly hs hv) hnot hk' hl ⟨a, ha, hsite⟩

theorem orderly (h : sc.Effects block v certain ls s s') (hs : Orderly s) (hv : OrderlySet v) :
    Orderly s' := by
  induction h with
  | nil => exact hs
  | cons h _ ih => exact ih (h.orderly hs hv)

end Effects

/-! ## 6. The comparison -/

/-- **An element that is no target, and of whose array no version is lost.** -/
structure Spared (s : State) (v address : ValueSet) (site : Site) (i : Int32) : Prop where
  target : Location.element site (some i) ∉ targets address
  lossless : ∀ l ∈ targets address, ∀ k, l.key? = some k → Lossless s v site k

/-- A single address is all there is of it. -/
theorem eq_of_subset_single {fewer more : ValueSet} (hfewer : fewer.Canonical)
    (hnonempty : fewer.isEmpty = false) (hsubset : fewer.members ⊆ more.members)
    (hsize : more.size = 1) : fewer = more := by
  obtain ⟨l⟩ := fewer
  obtain ⟨m⟩ := more
  obtain ⟨b, rfl⟩ := List.length_eq_one_iff.mp hsize
  have hall : ∀ u ∈ l, u = b := fun u hu => List.mem_singleton.mp (hsubset hu)
  cases l with
  | nil => cases hnonempty
  | cons u rest =>
      obtain rfl := hall u List.mem_cons_self
      cases rest with
      | nil => rfl
      | cons x rest =>
          obtain rfl := hall x (List.mem_cons_of_mem _ List.mem_cons_self)
          have hlt := (List.pairwise_cons.mp hfewer.ascending).1 x List.mem_cons_self
          exact absurd rfl (ne_of_rankCompare_lt hlt)

/-- **A store through more addresses forgets no more.**  Every variable holds whatever it holds after
    a store through some of the addresses, up to the contents of arrays that are stored into; and
    so do the elements of an array that is held before and still after the store through fewer
    addresses, if they are spared or the addresses are the same. -/
theorem storeThrough_keeps (sc : Scanner) (block offset : Nat) {t : Trace} (ht : Orderly t.state)
    {v : ValueSet} (hv : OrderlySet v) {fewer more : ValueSet} (hfewer : fewer.Canonical)
    (hnonempty : fewer.isEmpty = false) (hsubset : fewer.members ⊆ more.members) :
    let less := (sc.storeThrough block offset fewer v t).state
    let all := (sc.storeThrough block offset more v t).state
    (∀ k, (all.vars.get k).CoversBut (fun site => ∃ index, .element site index ∈ targets more)
      (less.vars.get k)) ∧
    ∀ site i, t.state.HoldsAt site → less.HoldsAt site →
      fewer = more ∨ Spared t.state v more site i →
      (sc.read all (.element site (some i))).Covers (sc.read less (.element site (some i))) := by
  intro less all
  by_cases heq : fewer = more
  · subst heq
    exact ⟨fun _ => (Covers.refl _).but, fun _ _ _ _ _ => Covers.refl _⟩
  -- with another address the store may miss
  have hcertain : (more.size == 1) = false := by
    rw [beq_eq_false_iff_ne]
    exact fun hsize => heq (eq_of_subset_single hfewer hnonempty hsubset hsize)
  have hless := effects_storeThrough sc block offset fewer v t
  have hall := effects_storeThrough sc block offset more v t
  rw [hcertain] at hall
  have htargets : ∀ l ∈ targets fewer, l ∈ targets more := fun l hl =>
    mem_targets.mpr (hsubset (mem_targets.mp hl))
  constructor
  · intro k w hw
    have hK : ∀ l ∈ targets more, ∀ site index, l = .element site index →
        ∃ index, .element site index ∈ targets more := by
      rintro l hl site index rfl
      exact ⟨index, hl⟩
    rcases hless.get_from ht hv (fun l hl => hK l (htargets l hl)) hw with
      ⟨x, hx, hsame⟩ | ⟨⟨l, hl, hkey⟩, x, hx, hsame⟩
    · exact (hall.get_keeps ht hv hK k).same hx hsame
    · exact (hall.get_adds ht hv hK (htargets l hl) hkey).same hx hsame
  · intro site i hheld hstill hspared w hw
    obtain ⟨htarget, hlossless⟩ := hspared.resolve_left heq
    have hkeyed := (hless.orderly ht hv).keyed
    rcases (admits_read_element hkeyed).mp hw with hnone | hr
    · obtain ⟨a, ha, hsite⟩ := hstill
      exact absurd hsite (hnone a ha)
    · refine (admits_read_element (hall.orderly ht hv).keyed).mpr (.inr ?_)
      rcases hless.reads_from ht hv (fun h => htarget (htargets _ h)) hr with
        hr | ⟨⟨l, hl, k, hkey⟩, hr⟩ | hcleared
      · exact hall.reads_keeps ht hv htarget hlossless hr
      · exact hall.reads_adds ht hv htarget hlossless (htargets l hl) hkey hr
      · exact hall.reads_cleared ht hv htarget hlossless (htargets _ hcleared) hheld

namespace Pointed

def method : MethodDef where
  token := ⟨0x06000001⟩
  declaring := ⟨0x02000001⟩
  name := "M"
  flags := 0x16
  sig := ⟨false, false, 0, .prim .void, []⟩
  paramNames := []

def scanner : Scanner := .ofContext ⟨{}, {}, method, [], []⟩ ⟨[], .nothing, .nothing, none⟩

/-- An array with a text that the first block stored at its only index. -/
def filled : ArrayValue :=
  ⟨⟨method.token, 1⟩, .single (.int 1), [(0, ⟨.single (.string "old"), 1⟩)]⟩

/-- An array of which no element is known. -/
def blank : ArrayValue := ⟨⟨method.token, 8⟩, .single (.int 1), []⟩

/-- A text and two arrays in variables. -/
def state : State :=
  ⟨⟨.unknown, [(.loc 0, .single (.string "old")), (.loc 1, .single (.array filled)),
    (.loc 2, .single (.array blank))]⟩, .slots []⟩

def text : Value := .address (.loc 0)

def filledElement : Value := .address (.element filled.site (some 0))

def blankElement : Value := .address (.element blank.site (some 0))

/-- The variables after a store of another text from the first block. -/
def after (address : ValueSet) : State :=
  (scanner.storeThrough 1 20 address (.single (.string "new")) { state := state }).state

theorem holds_state {a : ArrayValue} : state.Holds a ↔ a = filled ∨ a = blank := by
  simp [State.Holds, state, State.sets, Stack.fromTop, single]

theorem orderly_state : Orderly state := by
  have htext : ∀ t, (single (.string t)).Stored := fun t => stored_single nofun rfl
  have hone : (single (.int 1)).Stored := stored_single nofun rfl
  have hfilled : filled.Sound := by
    refine ⟨hone, fun e he => ?_⟩
    obtain rfl := List.mem_singleton.mp he
    exact htext "old"
  have hblank : blank.Sound := ⟨hone, nofun⟩
  have hkeyed : state.vars.entries.Keyed := show List.Pairwise _ _ by decide
  refine ⟨⟨⟨hkeyed, by decide, stored_unknown, fun e he => ?_⟩, rfl, rfl, nofun⟩, fun a ha => ?_⟩
  · simp only [state, List.mem_cons, List.not_mem_nil, or_false] at he
    rcases he with rfl | rfl | rfl
    · exact htext "old"
    · exact stored_array hfilled
    · exact stored_array hblank
  · rcases holds_state.mp ha with rfl | rfl
    · exact List.pairwise_singleton _ _
    · exact List.Pairwise.nil

theorem orderlySet_text : OrderlySet (.single (.string "new")) :=
  ⟨stored_single nofun rfl, fun _ h => nomatch List.mem_singleton.mp h⟩

end Pointed

/-- A store that may go to the text or to an element keeps the text, and the element of the other
    array. -/
theorem pointed_keeps :
    ((Pointed.after ⟨[Pointed.text, Pointed.blankElement]⟩).vars.get (.loc 0)).CoversBut
      (fun site => ∃ index, .element site index ∈ targets ⟨[Pointed.text, Pointed.blankElement]⟩)
      ((Pointed.after ⟨[Pointed.text]⟩).vars.get (.loc 0)) ∧
    (Pointed.scanner.read (Pointed.after ⟨[Pointed.text, Pointed.blankElement]⟩)
      (.element Pointed.filled.site (some 0))).Covers
      (Pointed.scanner.read (Pointed.after ⟨[Pointed.text]⟩)
        (.element Pointed.filled.site (some 0))) := by
  have hsubset : (single Pointed.text).members ⊆
      (⟨[Pointed.text, Pointed.blankElement]⟩ : ValueSet).members := fun u hu =>
    List.mem_singleton.mp hu ▸ List.mem_cons_self
  obtain ⟨hvars, helements⟩ := storeThrough_keeps Pointed.scanner 1 20
    (t := { state := Pointed.state }) Pointed.orderly_state Pointed.orderlySet_text
    (canonical_single Pointed.text) rfl hsubset
  have hheld : (Pointed.after ⟨[Pointed.text]⟩).Holds Pointed.filled :=
    ⟨single (.array Pointed.filled), by decide +kernel, List.mem_cons_self⟩
  refine ⟨hvars (.loc 0), helements _ 0 ⟨_, Pointed.holds_state.mpr (.inl rfl), rfl⟩
    ⟨_, hheld, rfl⟩ (.inr ⟨by decide, fun l hl k hk => ⟨nofun, fun hu => ?_⟩⟩)⟩
  -- the only variable among the targets holds the text
  rcases List.mem_cons.mp (mem_targets.mp hl) with heq | hl
  · obtain rfl := Value.address.inj heq
    obtain rfl := Option.some.inj hk
    cases hu
  · obtain rfl := Value.address.inj (List.mem_singleton.mp hl)
    cases hk

/-- **An element is replaced although another one may be the target**, and a store through something
    unknown is dropped. -/
theorem pointed_forgets :
    (¬ (Pointed.scanner.read (Pointed.after ⟨[Pointed.filledElement, Pointed.blankElement]⟩)
        (.element Pointed.filled.site (some 0))).Covers
      (Pointed.scanner.read (Pointed.after ⟨[Pointed.blankElement]⟩)
        (.element Pointed.filled.site (some 0)))) ∧
    ¬ ((Pointed.after .unknown).vars.get (.loc 0)).Covers
      ((Pointed.after ⟨[Pointed.text]⟩).vars.get (.loc 0)) := by
  have hold : Pointed.scanner.read (Pointed.after ⟨[Pointed.blankElement]⟩)
      (.element Pointed.filled.site (some 0)) = single (.string "old") := by decide +kernel
  have hnew : Pointed.scanner.read (Pointed.after ⟨[Pointed.filledElement, Pointed.blankElement]⟩)
      (.element Pointed.filled.site (some 0)) = single (.string "new") := by decide +kernel
  have hstored : (Pointed.after ⟨[Pointed.text]⟩).vars.get (.loc 0) = single (.string "new") := by
    decide +kernel
  have hdropped : (Pointed.after .unknown).vars.get (.loc 0) = single (.string "old") := by
    decide +kernel
  rw [hold, hnew, hstored, hdropped]
  constructor
  · intro h
    rcases h (.string "old") (.inr List.mem_cons_self) with h | h
    · cases h
    · exact absurd (List.mem_singleton.mp h) (by decide)
  · intro h
    rcases h (.string "new") (.inr List.mem_cons_self) with h | h
    · cases h
    · exact absurd (List.mem_singleton.mp h) (by decide)

end Scanner

end ReflectionFlow
