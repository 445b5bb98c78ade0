/-
  File:      ReflectionFlow/Proofs/Session/Requirements.lean
  Subject:   Whatever flows into an annotated place is accounted for.

  Members that nobody asks for are dropped.  So a value that flows into an annotated place must end
  in one of five ways: nothing is needed of it, the members it needs are marked, a text names a type
  whose members are marked, its own annotation promises enough, or somebody is told.

  Of the kinds of values one can slip through: a type whose token leads nowhere is neither marked
  nor reported.

  * `Reporter.Accounted`         what the entries say about one value
  * `Store.Resolves`             the values that do not slip through
  * `Reporter.require_accounts`  every value is accounted for
-/
import ReflectionFlow.Proofs.Metadata.Types
import ReflectionFlow.Proofs.Session.Conduct

namespace ReflectionFlow

namespace Store

/-- A value that is a type has a token that leads to it. -/
def Resolves (s : Store) : Value → Prop
  | .type t => (s.type? t).isSome = true
  | _ => True

/-- A text that resolves names a type first, and its token leads to it. -/
theorem TypesTabled.resolved {s : Store} (hs : s.TypesTabled) {text : String} {tokens : List Token}
    (h : s.resolveName? text = some tokens) :
    ∃ d rest, tokens = d.token :: rest ∧ s.type? d.token = some d := by
  obtain ⟨⟨name, assembly, args⟩, _, h⟩ := Option.bind_eq_some_iff.mp h
  unfold tokensOf? at h
  split at h
  · next d hd =>
    obtain ⟨rest, _, rfl⟩ := Option.map_eq_some_iff.mp h
    exact ⟨d, rest, rfl, hs.type?_token (hs.named hd)⟩
  · cases h

/-- One action after another. -/
theorem Gives.followed {s : Store} {β : Type} {x : Act Unit} {y : Act β} {b : β} {l l' : Ledger}
    (hx : s.Gives x () l) (hy : s.Gives y b l') : s.Gives (x >>= fun _ => y) b (l ++ l') :=
  hx.bind hy

end Store

namespace Reporter

open Store

/-! ## 1. Accounts -/

/-- The entries mark a member. -/
def Marks (l : Ledger) (m : Member) : Prop := ∃ mark ∈ l.marks, mark.member = m

/-- **The entries mark a type and all members that are required of it.** -/
structure MarksRequired (s : Store) (required : Categories) (l : Ledger) (d : TypeDef) : Prop where
  type : Marks l ⟨.type, d.token⟩
  members : ∀ m ∈ s.select d required .any, Marks l m

/-- **Findings about one value**: the text names nothing, its annotation promises too little, or
    nothing is known about it. -/
inductive Concerns (required : Categories) (place : Place) : Value → Finding → Prop where
  | unresolved (text : String) : Concerns required place (.string text) (.unresolvedName text place)
  | mismatch (v : Value) (source : SourceKind) (available : Categories) :
      Concerns required place v (.mismatch v source available required place)
  | unrecognized (v : Value) : Concerns required place v (.unrecognizedValue v place)

/-- **What the entries of a requirement say about a value.** -/
inductive Accounted (r : Reporter) (required : Categories) (place : Place) (l : Ledger) :
    Value → Prop where
  /-- Nothing is needed of null. -/
  | null : Accounted r required place l .null
  /-- The members of a known type are marked, -/
  | type {t : Token} {d : TypeDef} (hd : r.store.type? t = some d)
      (hm : MarksRequired r.store required l d) : Accounted r required place l (.type t)
  /-- and so are those of the type that a text names. -/
  | named {text : String} {d : TypeDef} {rest : List Token}
      (hd : r.store.resolveName? text = some (d.token :: rest))
      (hm : MarksRequired r.store required l d) : Accounted r required place l (.string text)
  /-- An annotation promises what is required. -/
  | promised {v : Value} {source : SourceKind} {available : Categories}
      (ha : v.annotation? = some (source, available)) (hc : available.covers required = true) :
      Accounted r required place l v
  /-- Somebody is told. -/
  | reported {v : Value} {f : Finding} (hf : Concerns required place v f)
      (hd : f.diagnostic r.origin ∈ l.diagnostics) : Accounted r required place l v

/-- The entries of a ledger are among those of another one. -/
structure Within (l l' : Ledger) : Prop where
  marks : l.marks ⊆ l'.marks
  diagnostics : l.diagnostics ⊆ l'.diagnostics

variable {r : Reporter} {s : Store} {required : Categories} {place : Place} {l l' : Ledger}

theorem within_append_left (l l' : Ledger) : Within l (l ++ l') :=
  ⟨List.subset_append_left _ _, List.subset_append_left _ _⟩

theorem within_append_right (l l' : Ledger) : Within l' (l ++ l') :=
  ⟨List.subset_append_right _ _, List.subset_append_right _ _⟩

theorem Within.trans {l'' : Ledger} (h : Within l l') (h' : Within l' l'') : Within l l'' :=
  ⟨List.Subset.trans h.marks h'.marks, List.Subset.trans h.diagnostics h'.diagnostics⟩

theorem MarksRequired.mono (hl : Within l l') {d : TypeDef} (h : MarksRequired s required l d) :
    MarksRequired s required l' d := by
  have hmarks : ∀ {m}, Marks l m → Marks l' m := fun ⟨mark, hmark, hm⟩ =>
    ⟨mark, hl.marks hmark, hm⟩
  exact ⟨hmarks h.type, fun m hm => hmarks (h.members m hm)⟩

/-- With more entries a value stays accounted for. -/
theorem Accounted.mono (hl : Within l l') {v : Value} (h : r.Accounted required place l v) :
    r.Accounted required place l' v := by
  cases h with
  | null => exact .null
  | type hd hm => exact .type hd (hm.mono hl)
  | named hd hm => exact .named hd (hm.mono hl)
  | promised ha hc => exact .promised ha hc
  | reported hf hd => exact .reported hf (hl.diagnostics hd)

/-! ## 2. Entries of a live reporter -/

section Live

variable (hlive : r.live = true)
include hlive

theorem gives_mark (m : Member) (reason : MarkReason) :
    s.Gives (r.mark m reason) () ⟨[r.markOf m reason], []⟩ := by
  unfold mark
  rw [if_pos hlive]
  exact gives_enter _

theorem gives_finding (f : Finding) : s.Gives (r.report f) () ⟨[], [f.diagnostic r.origin]⟩ := by
  unfold report
  rw [if_pos hlive]
  exact gives_note _

/-- Members are marked in order. -/
theorem gives_markAll (members : List Member) (reason : MarkReason) :
    s.Gives (r.markAll members reason) () ⟨members.map (r.markOf · reason), []⟩ := by
  induction members with
  | nil => exact gives_pure ()
  | cons m rest ih => exact (gives_mark hlive m reason).followed ih

theorem gives_markNamed (tokens : List Token) : ∃ l, s.Gives (r.markNamed tokens) () l := by
  induction tokens with
  | nil => exact ⟨_, gives_pure ()⟩
  | cons t rest ih =>
      obtain ⟨l, hl⟩ := ih
      exact ⟨_, (gives_mark hlive ⟨.type, t⟩ .typeName).followed hl⟩

/-- **The type and all its required members are marked**, if the token leads to it. -/
theorem gives_markMembers {t : Token} {d : TypeDef} (hd : r.store.type? t = some d)
    (required : Categories) (reason : MarkReason) :
    ∃ l, s.Gives (r.markMembers t required .any reason) () l ∧
      MarksRequired r.store required l d := by
  refine ⟨⟨[r.markOf ⟨.type, d.token⟩ reason], []⟩ ++
    ⟨(r.store.select d required .any).map (r.markOf · reason), []⟩, ?_, ?_, fun m hm => ?_⟩
  · unfold markMembers
    rw [if_pos hlive, hd]
    exact (gives_mark hlive _ reason).followed (gives_markAll hlive _ reason)
  · exact ⟨_, List.mem_append_left _ List.mem_cons_self, rfl⟩
  · exact ⟨_, List.mem_append_right _ (List.mem_map_of_mem hm), rfl⟩

/-! ## 3. One value -/

/-- A text that names a type gets the type and its required members marked. -/
theorem gives_requireNamed_of_some {text : String} {d : TypeDef} {rest : List Token}
    (hname : r.store.resolveName? text = some (d.token :: rest))
    (hd : r.store.type? d.token = some d) (required : Categories) (place : Place) :
    ∃ l, r.store.Gives (r.requireNamed text required place) () l ∧
      MarksRequired r.store required l d := by
  have hask := gives_askTypeName (s := r.store) text
  rw [hname] at hask
  obtain ⟨l, hmembers, hmarks⟩ :=
    gives_markMembers (s := r.store) hlive hd required .accessedMembers
  obtain ⟨l', hrest⟩ := gives_markNamed (s := r.store) hlive rest
  refine ⟨_, hask.bind ((gives_mark hlive _ _).followed (hmembers.followed hrest)), ?_⟩
  have hinner : Within l (l ++ l') := within_append_left l l'
  exact ((hmarks.mono hinner).mono (within_append_right _ _)).mono (within_append_right _ _)

theorem gives_requireNamed (hs : r.store.TypesTabled) (text : String) (required : Categories)
    (place : Place) : ∃ l, r.store.Gives (r.requireNamed text required place) () l ∧
      r.Accounted required place l (.string text) := by
  cases htokens : r.store.resolveName? text with
  | none =>
      have hask := gives_askTypeName (s := r.store) text
      rw [htokens] at hask
      refine ⟨_, hask.bind (gives_finding hlive _), .reported (.unresolved text) ?_⟩
      exact List.mem_append_right _ (List.mem_singleton.mpr rfl)
  | some tokens =>
      obtain ⟨d, rest, rfl, hd⟩ := hs.resolved htokens
      obtain ⟨l, hgives, hmarks⟩ := gives_requireNamed_of_some hlive htokens hd required place
      exact ⟨l, hgives, .named htokens hmarks⟩

/-- **A requirement on one value accounts for it**, unless it is a type whose token leads nowhere. -/
theorem gives_requireOne (hs : r.store.TypesTabled) (required : Categories) (place : Place)
    (v : Value) : ∃ l, r.store.Gives (r.requireOne required place v) () l ∧
      (r.store.Resolves v → r.Accounted required place l v) := by
  have htold : ∀ {f : Finding}, Concerns required place v f →
      ∃ l, r.store.Gives (r.report f) () l ∧
        (r.store.Resolves v → r.Accounted required place l v) := fun hf =>
    ⟨_, gives_finding hlive _, fun _ => .reported hf (List.mem_singleton.mpr rfl)⟩
  unfold requireOne
  split
  · exact ⟨_, gives_pure (), fun _ => .null⟩
  · next t =>
    cases hd : r.store.type? t with
    | none =>
        refine ⟨{}, ?_, fun hresolves => ?_⟩
        · unfold markMembers
          rw [if_pos hlive, hd]
          exact gives_pure ()
        · have hsome : (r.store.type? t).isSome = true := hresolves
          rw [hd] at hsome
          cases hsome
    | some d =>
        obtain ⟨l, hgives, hmarks⟩ := gives_markMembers hlive hd required .accessedMembers
        exact ⟨l, hgives, fun _ => .type hd hmarks⟩
  · next text =>
    obtain ⟨l, hgives, haccounted⟩ := gives_requireNamed hlive hs text required place
    exact ⟨l, hgives, fun _ => haccounted⟩
  · split
    · next source available ha =>
      split
      · next hc => exact ⟨_, gives_pure (), fun _ => .promised ha hc⟩
      · exact htold (.mismatch v source available)
    · exact htold (.unrecognized v)

/-! ## 4. A set of values -/

/-- The values are taken one after the other, and each keeps its account. -/
theorem gives_requireEach (hs : r.store.TypesTabled) (required : Categories) (place : Place)
    (values : List Value) : ∃ l, r.store.Gives (values.forM (r.requireOne required place)) () l ∧
      ∀ v ∈ values, r.store.Resolves v → r.Accounted required place l v := by
  induction values with
  | nil => exact ⟨_, gives_pure (), fun _ hv => absurd hv List.not_mem_nil⟩
  | cons v rest ih =>
      obtain ⟨l, hone, hv⟩ := gives_requireOne hlive hs required place v
      obtain ⟨l', hgives, hrest⟩ := ih
      refine ⟨l ++ l', hone.followed hgives, fun w hw hresolves => ?_⟩
      rcases List.mem_cons.mp hw with rfl | hw
      · exact (hv hresolves).mono (within_append_left l l')
      · exact (hrest w hw hresolves).mono (within_append_right l l')

end Live

/-- **Every value that flows into an annotated place is accounted for** by the entries of the
    requirement, in every store and whatever is remembered; only a type whose token leads nowhere
    may be passed over. -/
theorem require_accounts (ds : List Declaration) (origin : Origin) (session : Session)
    (hmemo : session.memo.Faithful (ofList ds)) (values : ValueSet) (required : Categories)
    (hrequired : required.isEmpty = false) (place : Place) :
    ∃ l, (((⟨ofList ds, origin, true⟩ : Reporter).require values required place).run
        session).2.ledger = session.ledger ++ l ∧
      ∀ v ∈ values.members, (ofList ds).Resolves v →
        Accounted ⟨ofList ds, origin, true⟩ required place l v := by
  obtain ⟨l, hgives, haccounted⟩ := gives_requireEach (r := ⟨ofList ds, origin, true⟩) rfl
    (typesTabled_ofList ds) required place values.members
  obtain ⟨memo, _, hrun⟩ := hgives session hmemo
  refine ⟨l, ?_, haccounted⟩
  unfold require
  rw [hrequired]
  exact congrArg (·.2.ledger) hrun

namespace Needing

/-- A class with one method, which takes a type. -/
def declarations : List Declaration :=
  [.type "app" "N" "C" 1 none,
   .method ⟨0x02000001⟩ "M" 0x16 ⟨false, false, 0, .prim .void, [.prim .object]⟩]

def origin : Origin := ⟨⟨0x06000001⟩, some 0⟩

/-- The parameter of the method. -/
def parameter : Place := .parameter "M" 0 (some "arg0")

/-- A value of each kind of account. -/
def values : List Value := [.null, .type ⟨0x02000001⟩, .string "N.C", .string "N.D", .unknown]

/-- A token that leads nowhere. -/
def dangling : Token := ⟨0x02000099⟩

end Needing

/-- A set with a value of each kind. -/
theorem needing_accounts : ∃ l,
    (((⟨ofList Needing.declarations, Needing.origin, true⟩ : Reporter).require
        ⟨Needing.values⟩ .publicMethods Needing.parameter).run {}).2.ledger = {} ++ l ∧
      ∀ v ∈ Needing.values,
        Accounted ⟨ofList Needing.declarations, Needing.origin, true⟩ .publicMethods
          Needing.parameter l v := by
  obtain ⟨l, hledger, haccounted⟩ := require_accounts Needing.declarations Needing.origin
    {} (faithful_empty _) ⟨Needing.values⟩ .publicMethods rfl Needing.parameter
  refine ⟨l, hledger, fun v hv => haccounted v hv ?_⟩
  simp only [Needing.values, List.mem_cons, List.not_mem_nil, or_false] at hv
  rcases hv with rfl | rfl | rfl | rfl | rfl
  · trivial
  · rfl
  · trivial
  · trivial
  · trivial

/-- **A type whose token leads nowhere is passed over**: nothing is entered, so it is not accounted
    for. -/
theorem dangling_unaccounted :
    (((⟨ofList Needing.declarations, Needing.origin, true⟩ : Reporter).require
        (.single (.type Needing.dangling)) .publicMethods Needing.parameter).run {}).2.ledger = {} ∧
      ¬ Accounted ⟨ofList Needing.declarations, Needing.origin, true⟩ .publicMethods
        Needing.parameter {} (.type Needing.dangling) := by
  refine ⟨rfl, fun h => ?_⟩
  cases h with
  | type hd => cases hd
  | promised ha => cases ha
  | reported _ hd => cases hd

end Reporter

end ReflectionFlow
