import Recast.Proofs.Sharing
import Recast.Proofs.Verdict

/-!
A builder in service. Rules are registered, transforms are made, and the transforms made so far are
called and go on in any order, all at the same time. One of the rules is declared from an awaitable;
what the others compute leaves that alone, where the facts hold that they rely on and with the
sources of the calls (`OneShot.Suits`). However the service runs, the awaitable is consumed once
(`Service.awaitable_is_consumed_once`).
-/

set_option autoImplicit false

namespace Recast

/-- A mapper of a kind is made of the rules registered so far, and that is logged. -/
def Builder.makeLogged (b : Builder) : Mapper.Kind → Action Mapper
  | .asynchronous => b.buildLogged
  | .synchronous => b.buildSyncLogged

namespace OneShot

/-- Mappers in layers that may be called with any of the sources: at most the rules at the cell
touch the awaitable, and nothing is taken away that is relied on. -/
def Callable (w : OneShot) (f : Footing) (sources : Set Value) (mapper : Mapper)
    (kind : Mapper.Kind) : Prop :=
  Mapper.Layered (w.setting f).admits (w.Minds f sources) mapper kind

/-- What may be registered: the awaitable, a mapper in layers, or what leaves the awaitable alone
when it is called with any of the sources. -/
def Suits (w : OneShot) (f : Footing) (sources : Set Value) (c : Compute) : Prop :=
  c = .literal w.value ∨ (∃ inner k, c = Mapper.compute inner k ∧ w.Callable f sources inner k) ∨
    ∀ r : Rule, r.compute = c → r.binder.cell ≠ w.cell → ∀ source ∈ sources,
      w.Ignores f .asynchronous r source ∧
        (r.isAsync = false → w.Ignores f .synchronous r source)

/-- Another awaitable suits, as the compute of another rule. -/
theorem suits_awaitable (w : OneShot) (f : Footing) (sources : Set Value) (kind : AwaitableKind)
    (id : ℕ) : w.Suits f sources (.literal (.awaitable kind id)) := by
  refine Or.inr (Or.inr fun r hr hcell source _ ↦ ⟨?_, fun hsync ↦ ?_⟩)
  · rw [Ignores, evaluate_eq (w := ⟨r.binder.cell, kind, id, w.body⟩) rfl hr]
    exact discreet_shareOnce hcell
  · rw [Rule.isAsync, hr] at hsync
    cases hsync

end OneShot

/-- A builder with the transforms made from it so far, and the calls that have been made. -/
structure Service where
  builder : Builder
  transforms : List (Mapper × Mapper.Kind)
  traffic : Traffic

namespace Service

/-- A builder that was just made. -/
def start (id : ℕ) (source target : String) (m : Machine) : Service :=
  ⟨Builder.empty id source target, [], ⟨m, []⟩⟩

/-- The service on a machine that something was done to. -/
def on (U : Service) (m : Machine) : Service := { U with traffic := ⟨m, U.traffic.calls⟩ }

/-- One thing that happens. A compute is offered and registered; the awaitable is, as the rule at
its cell and as no other. Or the offer is refused, and what it leaves is gone on with. A transform
is made from the builder, or refused; a transform made so far is called with one of the sources, or
a mapper made elsewhere; a call goes on; or something else happens. -/
inductive Step (w : OneShot) (f : Footing) (sources : Set Value) : Service → Service → Prop
  | register {U : Service} {kind : Slot.Kind} {d : Slot.Descriptor} {c : Compute} {b : Builder}
      {m : Machine} (hsuits : w.Suits f sources c)
      (hbears : ∀ s, Slot.parseAs kind d = .ok s → f.Bears U.builder.target s)
      (hown : c = .literal w.value ↔ U.builder.rules.length = w.cell.index)
      (h : U.traffic.machine.act (U.builder.registerLogged kind d c) = (.ok b, m)) :
    Step w f sources U { U.on m with builder := b }
  | refuse {U : Service} {kind : Slot.Kind} {d : Slot.Descriptor} {o : Offer} {e : Raised}
      {m : Machine} (hother : o ≠ .clear (.literal w.value))
      (h : U.traffic.machine.act (U.builder.offerLogged kind d o) = (.error e, m)) :
    Step w f sources U
      { U.on (Usage.giveUp o m) with builder := U.builder.left kind d o }
  | make {U : Service} {kind : Mapper.Kind} {mapper : Mapper} {m : Machine}
      (h : U.traffic.machine.act (U.builder.makeLogged kind) = (.ok mapper, m)) :
    Step w f sources U { U.on m with transforms := U.transforms ++ [(mapper, kind)] }
  | decline {U : Service} {kind : Mapper.Kind} {e : Raised} {m : Machine}
      (h : U.traffic.machine.act (U.builder.makeLogged kind) = (.error e, m)) :
    Step w f sources U (U.on m)
  | call {U : Service} {mapper : Mapper} {kind : Mapper.Kind} {source : Value}
      (h : (mapper, kind) ∈ U.transforms ∨ w.Callable f sources mapper kind)
      (hsource : source ∈ sources) :
    Step w f sources U
      { U with traffic := ⟨U.traffic.machine, U.traffic.calls ++ [.made mapper kind source]⟩ }
  | move {U : Service} {before after : List Call} {c : Call} {m : Machine} {q : Proc}
      (hcalls : U.traffic.calls = before ++ c :: after)
      (h : Machine.Move U.traffic.machine c.proc m q) :
    Step w f sources U { U with traffic := ⟨m, before ++ { c with proc := q } :: after⟩ }
  | other {U : Service} {m : Machine} (h : (w.setting f).quiet U.traffic.machine m) :
    Step w f sources U (U.on m)

/-- Things that happen one after the other. -/
def Run (w : OneShot) (f : Footing) (sources : Set Value) : Service → Service → Prop :=
  Relation.ReflTransGen (Step w f sources)

/-- A round of a call is a run. -/
theorem run_advance {w : OneShot} {f : Footing} {sources : Set Value} {U : Service}
    {before after : List Call} {c : Call} (hcalls : U.traffic.calls = before ++ c :: after) :
    Run w f sources U { U with
      traffic := ⟨(Machine.advance c.proc U.traffic.machine).1,
        before ++ { c with proc := (Machine.advance c.proc U.traffic.machine).2 } :: after⟩ } := by
  have hmoves : ∀ t, Machine.Moves (U.traffic.machine, c.proc) t →
      Run w f sources U { U with traffic := ⟨t.1, before ++ { c with proc := t.2 } :: after⟩ } := by
    intro t h
    induction h with
    | refl =>
      obtain ⟨builder, transforms, machine, calls⟩ := U
      cases hcalls
      exact .refl
    | @tail s _ _ hmove ih => exact ih.tail (.move (c := { c with proc := s.2 }) rfl hmove)
  exact hmoves _ (Machine.advance_moves _ _)

end Service

/-! ### Registering and making -/

/-- Only numbers were handed out and records of the log written. -/
def Machine.Noted (m m' : Machine) : Prop :=
  ∃ id log, m' = { m with store := { m.store with nextId := id, log := log } }

theorem Machine.Noted.sameObjects {m m' : Machine} (h : m.Noted m') : m.SameObjects m' := by
  obtain ⟨id, log, rfl⟩ := h
  rfl

theorem Machine.Noted.exists_sameBelow {m m' : Machine} (h : m.Noted m') :
    ∃ s, m' = { m with store := s } ∧ ∀ base, m.store.SameBelow base s := by
  obtain ⟨id, log, rfl⟩ := h
  exact ⟨_, rfl, fun _ ↦ ⟨rfl, rfl, rfl, rfl, rfl, rfl, rfl, rfl, le_rfl, fun _ _ ↦ rfl⟩⟩

namespace Builder

variable {b b' : Builder} {kind : Slot.Kind} {d : Slot.Descriptor} {c : Compute} {o : Offer}
  {m m' : Machine}

theorem noted_offerLogged {result : Except Raised Builder}
    (h : m.act (b.offerLogged kind d o) = (result, m')) : m.Noted m' := by
  unfold offerLogged at h
  rcases hoffer : b.offer kind d o with ⟨_ | e, b₁⟩
  · rw [hoffer] at h
    dsimp only at h
    split at h
    · cases h
      exact ⟨_, _, rfl⟩
    · cases h
      exact ⟨_, _, rfl⟩
  · rw [hoffer] at h
    cases h
    exact ⟨_, _, rfl⟩

theorem noted_makeLogged {kind : Mapper.Kind} {result : Except Raised Mapper}
    (h : m.act (b.makeLogged kind) = (result, m')) : m.Noted m' := by
  cases kind
  all_goals
    unfold makeLogged at h
    dsimp only at h
    first | unfold buildLogged at h | unfold buildSyncLogged at h
    split at h
    · cases h
      exact ⟨_, _, rfl⟩
    · cases h
      exact ⟨_, _, rfl⟩

theorem mapperOf_of_makeLogged {kind : Mapper.Kind} {mapper : Mapper}
    (h : m.act (b.makeLogged kind) = (.ok mapper, m')) : b.mapperOf kind = .ok mapper := by
  cases kind
  all_goals
    unfold makeLogged at h
    unfold mapperOf
    dsimp only at h ⊢
    first | unfold buildLogged at h | unfold buildSyncLogged at h
    split at h
    · cases h
    · next hbuild =>
      rw [hbuild]
      cases h
      rfl

theorem register_of_registerLogged (h : m.act (b.registerLogged kind d c) = (.ok b', m')) :
    b.register kind d c = .ok b' := by
  unfold registerLogged offerLogged at h
  unfold register
  rcases hoffer : b.offer kind d (.clear c) with ⟨_ | e, b₁⟩
  · rw [hoffer] at h
    dsimp only at h
    split at h
    · cases h
      rfl
    · cases h
      rfl
  · rw [hoffer] at h
    cases h

/-- A registration that is accepted adds one rule, at the next position. -/
theorem rules_of_registerLogged (h : m.act (b.registerLogged kind d c) = (.ok b', m')) :
    b'.id = b.id ∧ b'.target = b.target ∧
      ∃ s, Slot.parseAs kind d = .ok s ∧ b'.rules = b.rules ++ [b.newRule kind s c] := by
  obtain ⟨s, hparse, _, rfl⟩ := register_eq_ok (register_of_registerLogged h)
  exact ⟨rfl, rfl, s, hparse, rfl⟩

/-- What can be registered is not refused. -/
theorem offerLogged_ne_error (h : b.register kind d c = .ok b') (e : Raised) :
    m.act (b.offerLogged kind d (.clear c)) ≠ (.error e, m') := by
  intro hrefuse
  rw [offerLogged, offer_of_ok h] at hrefuse
  dsimp only at hrefuse
  split at hrefuse <;> cases hrefuse

/-- An offer that is not accepted leaves at most a claim. -/
theorem left_of_offerLogged {e : Raised} (h : m.act (b.offerLogged kind d o) = (.error e, m')) :
    ∃ slots, b.left kind d o = { b with slots := slots } := by
  rcases b.left_cases kind d o with ⟨c, rfl, hregister⟩ | hsame | ⟨s, _, _, hstray⟩
  · exact absurd h (offerLogged_ne_error hregister e)
  · exact ⟨b.slots, hsame⟩
  · exact ⟨_, hstray⟩

end Builder

namespace OneShot

variable {w : OneShot} {m m' : Machine}

theorem spares_of_noted (h : m.Noted m') : w.Spares m m' := by
  obtain ⟨s, rfl, hbelow⟩ := h.exists_sameBelow
  exact spares_of_sameBelow (hbelow 0)

/-- Giving up another awaitable leaves this one alone. -/
theorem spares_close {kind : AwaitableKind} {id : ℕ} (hother : .awaitable kind id ≠ w.value)
    (m : Machine) :
    w.Spares m { m with store := Machine.closeAwaitable (.awaitable kind id) m.store } := by
  cases kind with
  | task | future => exact .refl w m
  | coroutine =>
    refine ⟨⟨fun hm ↦ ⟨hm.sizes, hm.notes⟩, rfl, fun _ _ h ↦ h, fun _ _ _ _ h ↦ h,
      fun _ _ _ _ h ↦ h⟩, fun g hg ↦ ?_⟩
    obtain ⟨cell, own, other, body⟩ := w
    cases own with
    | coroutine =>
      refine ⟨?_, hg.2⟩
      have hne : id ≠ other := fun heq ↦ hother (heq ▸ rfl)
      simp only [Machine.closeAwaitable, Machine.setCoroutine, Array.getElem?_modify, if_neg hne]
      exact hg.1
    | task | future | custom => exact hg
  | custom =>
    refine ⟨⟨fun hm ↦ ⟨hm.sizes, hm.notes⟩, rfl, fun _ _ h ↦ h, fun _ _ _ _ h ↦ h,
      fun _ _ _ _ h ↦ h⟩, fun g hg ↦ ?_⟩
    obtain ⟨cell, own, other, body⟩ := w
    cases own with
    | custom =>
      refine ⟨?_, hg.2⟩
      have hne : id ≠ other := fun heq ↦ hother (heq ▸ rfl)
      simp only [Machine.closeAwaitable, Array.getElem?_modify, if_neg hne]
      exact hg.1
    | task | future | coroutine => exact hg

theorem spares_giveUp {o : Offer} (hother : o ≠ .clear (.literal w.value)) (m : Machine) :
    w.Spares m (Usage.giveUp o m) := by
  unfold Usage.giveUp
  split
  · next v =>
    split_ifs with hv
    · cases v with
      | awaitable kind id =>
        exact spares_close (fun heq ↦ hother (congrArg (fun v ↦ Offer.clear (.literal v)) heq)) m
      | _ => cases hv
    · exact .refl w m
  · exact .refl w m

end OneShot

/-- Giving up an offer touches no object. -/
theorem Usage.sameObjects_giveUp (o : Offer) (m : Machine) : m.SameObjects (giveUp o m) := by
  cases o with
  | clear c =>
    obtain ⟨id, hrest⟩ := (givenUp_giveUp c m m.store.nextId).rest
    rw [Machine.SameObjects]
    exact hrest.trans (by rw [hrest])
  | masked | veiled => rfl

/-! ### A service keeps to its awaitable -/

namespace Service

variable {w : OneShot} {f : Footing} {sources : Set Value} {target : String} {U U' : Service}

/-- The rules stand at their cells, the awaitable is the compute of the rule at its cell and of no
other, and the transforms may be called. -/
structure Serving (w : OneShot) (f : Footing) (sources : Set Value) (target : String)
    (U : Service) : Prop where
  owner : U.builder.id = w.cell.owner
  target_eq : U.builder.target = target
  cells : ∀ (i : ℕ) r, U.builder.rules[i]? = some r → r.binder.cell = ⟨w.cell.owner, i⟩
  own : ∀ (i : ℕ) r, U.builder.rules[i]? = some r →
    (r.compute = .literal w.value ↔ i = w.cell.index)
  suits : ∀ r ∈ U.builder.rules, w.Suits f sources r.compute
  bears : ∀ r ∈ U.builder.rules, f.Bears target r.slot
  callable : ∀ q ∈ U.transforms, w.Callable f sources q.1 q.2

theorem serving_start (w : OneShot) (f : Footing) (sources : Set Value) (source target : String)
    (m : Machine) : (start w.cell.owner source target m).Serving w f sources target :=
  ⟨rfl, rfl, nofun, nofun, nofun, nofun, nofun⟩

namespace Serving

theorem cell_eq_iff (h : U.Serving w f sources target) {r : Rule} (hr : r ∈ U.builder.rules) :
    r.binder.cell = w.cell ↔ r.compute = .literal w.value := by
  obtain ⟨i, hi⟩ := List.mem_iff_getElem?.mp hr
  rw [h.own i r hi, h.cells i r hi]
  constructor
  · intro hcell
    exact congrArg Cell.index hcell
  · rintro rfl
    rfl

/-- A transform that is made may be called. -/
theorem callable_of_mapperOf (h : U.Serving w f sources target) (hmakes : f.Makes target)
    {kind : Mapper.Kind} {mapper : Mapper} (hmapper : U.builder.mapperOf kind = .ok mapper) :
    w.Callable f sources mapper kind := by
  classical
  obtain ⟨rfl, hrules, hsync⟩ := Builder.mapperOf_eq_ok hmapper
  let nested (r : Rule) (q : Mapper × Mapper.Kind) : Prop :=
    r.compute = Mapper.compute q.1 q.2 ∧ w.Callable f sources q.1 q.2
  let inner (r : Rule) : Option (Mapper × Mapper.Kind) :=
    if hr : ∃ q, nested r q then some hr.choose else none
  have hinner : ∀ r q, inner r = some q → nested r q := by
    intro r q hq
    by_cases hr : ∃ q, nested r q
    · rw [show inner r = some hr.choose from dif_pos hr] at hq
      exact Option.some.inj hq ▸ hr.choose_spec
    · rw [show inner r = none from dif_neg hr] at hq
      cases hq
  have hcarries : f.Carries U.builder.snapshot := by
    rw [Footing.Carries, show U.builder.snapshot.target = target from h.target_eq]
    exact ⟨hmakes, h.bears⟩
  refine .intro inner ⟨hrules, hcarries, fun r hr hcell ↦ ?_⟩ (fun r hr hnone ↦ ?_)
    (fun r hr q hq ↦ ?_) (fun r _ q hq ↦ (hinner r q hq).1) (fun r _ q hq ↦ (hinner r q hq).2)
  · have hliteral := (h.cell_eq_iff hr).mp hcell
    refine ⟨?_, hliteral⟩
    cases kind with
    | asynchronous => rfl
    | synchronous =>
      have hplain := hsync rfl r hr
      rw [Rule.isAsync, hliteral] at hplain
      cases hplain
  · by_cases hcell : r.binder.cell = w.cell
    · exact Or.inl hcell
    · refine Or.inr fun source hsource ↦ ?_
      rcases h.suits r hr with hliteral | ⟨mapper, k, hcompute, hcallable⟩ | hignores
      · exact absurd ((h.cell_eq_iff hr).mpr hliteral) hcell
      · have hnested : ∃ q, nested r q := ⟨(mapper, k), hcompute, hcallable⟩
        rw [show inner r = some hnested.choose from dif_pos hnested] at hnone
        cases hnone
      · obtain ⟨hasynchronous, hsynchronous⟩ := hignores r rfl hcell source hsource
        cases kind with
        | asynchronous => exact hasynchronous
        | synchronous => exact hsynchronous (hsync rfl r hr)
  · obtain ⟨hcompute, _⟩ := hinner r q hq
    obtain ⟨mapper, k⟩ := q
    cases k with
    | synchronous => exact Or.inr rfl
    | asynchronous =>
      cases kind with
      | asynchronous => exact Or.inl rfl
      | synchronous =>
        have hplain := hsync rfl r hr
        rw [Rule.isAsync, hcompute] at hplain
        cases hplain

/-- A rule that is added stands at the next cell. -/
theorem register (h : U.Serving w f sources target) {kind : Slot.Kind} {d : Slot.Descriptor}
    {c : Compute} {b : Builder} {m m' : Machine} (hsuits : w.Suits f sources c)
    (hbears : ∀ s, Slot.parseAs kind d = .ok s → f.Bears U.builder.target s)
    (hown : c = .literal w.value ↔ U.builder.rules.length = w.cell.index)
    (hb : m.act (U.builder.registerLogged kind d c) = (.ok b, m')) :
    ({ U.on m' with builder := b } : Service).Serving w f sources target := by
  obtain ⟨hid, htarget, s, hparse, hrules⟩ := Builder.rules_of_registerLogged hb
  have hcases : ∀ (i : ℕ) r, b.rules[i]? = some r → U.builder.rules[i]? = some r ∨
      i = U.builder.rules.length ∧ r = U.builder.newRule kind s c := by
    intro i r hr
    rw [hrules] at hr
    rcases Nat.lt_or_ge i U.builder.rules.length with hlt | hge
    · rw [List.getElem?_append_left hlt] at hr
      exact Or.inl hr
    · rw [List.getElem?_append_right hge, List.getElem?_singleton] at hr
      split_ifs at hr with hi
      cases hr
      exact Or.inr ⟨by omega, rfl⟩
  have hmem : ∀ r ∈ b.rules, r ∈ U.builder.rules ∨ r = U.builder.newRule kind s c := by
    intro r hr
    rw [hrules] at hr
    simpa using hr
  refine ⟨hid.trans h.owner, htarget.trans h.target_eq, fun i r hr ↦ ?_, fun i r hr ↦ ?_,
    fun r hr ↦ ?_, fun r hr ↦ ?_, h.callable⟩
  · rcases hcases i r hr with hold | ⟨rfl, rfl⟩
    · exact h.cells i r hold
    · rw [← h.owner]
      rfl
  · rcases hcases i r hr with hold | ⟨rfl, rfl⟩
    · exact h.own i r hold
    · exact hown
  · rcases hmem r hr with hold | rfl
    · exact h.suits r hold
    · exact hsuits
  · rcases hmem r hr with hold | rfl
    · exact h.bears r hold
    · exact h.target_eq ▸ hbears s hparse

/-- A refused offer leaves the rules. -/
theorem refuse (h : U.Serving w f sources target) {kind : Slot.Kind} {d : Slot.Descriptor}
    {o : Offer} {e : Raised} {m m' : Machine}
    (hb : m.act (U.builder.offerLogged kind d o) = (.error e, m')) (m'' : Machine) :
    ({ U.on m'' with builder := U.builder.left kind d o } : Service).Serving w f sources
      target := by
  obtain ⟨slots, hleft⟩ := Builder.left_of_offerLogged hb
  rw [hleft]
  exact ⟨h.owner, h.target_eq, h.cells, h.own, h.suits, h.bears, h.callable⟩

/-- Something else than the builder or the transforms changes. -/
theorem with_traffic (h : U.Serving w f sources target) (T : Traffic) :
    ({ U with traffic := T } : Service).Serving w f sources target :=
  ⟨h.owner, h.target_eq, h.cells, h.own, h.suits, h.bears, h.callable⟩

/-- Handing numbers out and writing records of the log disturbs no call. -/
theorem quiet_of_noted {m m' : Machine} (hnoted : m.Noted m') : (w.setting f).quiet m m' :=
  Or.inl ⟨OneShot.spares_of_noted hnoted, fun hf ↦ f.steady hf hnoted.sameObjects⟩

/-- Whatever happens is one thing that happens in the traffic of calls, and the service goes on to
keep to its awaitable. -/
theorem step (h : U.Serving w f sources target) (hmakes : f.Makes target)
    (hstep : Step w f sources U U') :
    U'.Serving w f sources target ∧
      Traffic.Step (fun mapper kind source ↦ source ∈ sources ∧ w.Callable f sources mapper kind)
        (w.setting f).quiet U.traffic U'.traffic := by
  cases hstep with
  | register hsuits hbears hown hb =>
    exact ⟨h.register hsuits hbears hown hb,
      .other (quiet_of_noted (Builder.noted_offerLogged hb))⟩
  | @refuse _ _ o _ m hother hb =>
    have hnoted := Builder.noted_offerLogged hb
    refine ⟨h.refuse hb _, .other (Or.inl ⟨?_, fun hf ↦ ?_⟩)⟩
    · exact (OneShot.spares_of_noted hnoted).trans (OneShot.spares_giveUp hother m)
    · exact f.steady (f.steady hf hnoted.sameObjects) (Usage.sameObjects_giveUp o m)
  | make hm =>
    have hcallable := h.callable_of_mapperOf hmakes (Builder.mapperOf_of_makeLogged hm)
    exact ⟨⟨h.owner, h.target_eq, h.cells, h.own, h.suits, h.bears, List.forall_mem_append.mpr
        ⟨h.callable, List.forall_mem_singleton.mpr hcallable⟩⟩,
      .other (quiet_of_noted (Builder.noted_makeLogged hm))⟩
  | decline hm =>
    exact ⟨h.with_traffic _, .other (quiet_of_noted (Builder.noted_makeLogged hm))⟩
  | call hmapper hsource =>
    refine ⟨h.with_traffic _, .call ⟨hsource, ?_⟩⟩
    exact hmapper.elim (h.callable _) fun hcallable ↦ hcallable
  | move hcalls hmove =>
    refine ⟨h.with_traffic _, ?_⟩
    obtain ⟨builder, transforms, ⟨machine, calls⟩⟩ := U
    cases hcalls
    exact .move hmove
  | other hquiet => exact ⟨h.with_traffic _, .other hquiet⟩

theorem run (h : U.Serving w f sources target) (hmakes : f.Makes target)
    (hrun : Run w f sources U U') :
    U'.Serving w f sources target ∧
      Traffic.Run (fun mapper kind source ↦ source ∈ sources ∧ w.Callable f sources mapper kind)
        (w.setting f).quiet U.traffic U'.traffic := by
  induction hrun with
  | refl => exact ⟨h, .refl⟩
  | tail _ hstep ih =>
    obtain ⟨hserving, htraffic⟩ := ih.1.step hmakes hstep
    exact ⟨hserving, ih.2.tail htraffic⟩

end Serving

/-- An awaitable that is the compute of one rule is consumed once. The builder of the rule is put to
use in any way: other rules are registered, or refused; transforms are made at any time, or refused;
they are called any number of times, also within each other, and whatever was begun goes on in any
order. What the other rules compute may rely on facts about the objects, as long as making targets
and filling them takes none of these away. Up to any moment the awaitable has been handed over at
most once, exactly when a call with a source and a target has come to the rule, and all such calls
are given what its one future was filled with. That holds at any later moment as well, with the same
future and the same outcome. -/
theorem awaitable_is_consumed_once {w : OneShot} {f : Footing} {sources : Set Value}
    {source target : String} {m : Machine} (hbody : w.isRun = true → w.Discreet f w.body)
    (hmakes : f.Makes target) (hf : f.holds m) (hm : m.IsRegular) (hnoted : w.noted m = [])
    (hat : w.IsAt .untouched m) {U U' : Service}
    (hbefore : Run w f sources (start w.cell.owner source target m) U)
    (hafter : Run w f sources U U') :
    ∃ σ σ', σ.Tells U.traffic ∧ σ'.Tells U'.traffic ∧ (w.setting f).Run σ σ' ∧
      w.ConsumedOnce f σ ∧ w.ConsumedOnce f σ' ∧
      w.Keeps U.traffic.machine U'.traffic.machine := by
  obtain ⟨hserving, htraffic⟩ := (serving_start w f sources source target m).run hmakes hbefore
  obtain ⟨_, htraffic'⟩ := hserving.run hmakes hafter
  have hbare := OneShot.InOrder.bare hf hm hnoted hat
  have hhosts : (w.setting f).Hosts (w.InOrder f) sources (w.Minds f sources) :=
    OneShot.hosts hbody
  obtain ⟨σ, hrun, hcast⟩ :=
    (Traffic.Cast.bare hbare).exists_run hhosts (fun _ _ _ h ↦ h) htraffic
  obtain ⟨σ', hrun', hcast'⟩ := hcast.exists_run hhosts (fun _ _ _ h ↦ h) htraffic'
  obtain ⟨hσ, _⟩ := hbare.run hbody hrun
  obtain ⟨hσ', hkeeps⟩ := hσ.run hbody hrun'
  refine ⟨σ, σ', hcast.tells, hcast'.tells, hrun', hσ.consumedOnce, hσ'.consumedOnce, ?_⟩
  rwa [← hcast.machine_eq, ← hcast'.machine_eq]

end Service

namespace Sample

/-- A coroutine that makes a list is the compute of the first rule. -/
def news : OneShot := ⟨⟨0, 0⟩, .coroutine, 0, .act (Action.newList []) .done⟩

/-- What the calls are made with. -/
def readers : Set Value := {.record 0 "Contact"}

def newsMachine : Machine :=
  { readMachine with
    bodies := #[news.body]
    store := { readMachine.store with coroutines := #[.created] } }

/-- The source itself. -/
def itself : Compute := .plain Prog.give

def newsRule : Rule := ⟨.field, ⟨⟨["name"]⟩, ⟨0, 0⟩⟩, .literal news.value⟩

def readingRule : Rule := ⟨.field, ⟨⟨["contact", "phone"]⟩, ⟨0, 1⟩⟩, phoneOf⟩

def originRule : Rule := ⟨.field, ⟨⟨["origin"]⟩, ⟨0, 2⟩⟩, itself⟩

/-- The builder with some of the rules. -/
def newsBuilder (rules : List Rule) : Builder :=
  ⟨0, "Contact", "Person", rules, rules.map fun r ↦ (r.key, r.slot)⟩

def newsRules : List Rule := [newsRule, readingRule, originRule]

/-- A rule of another coroutine. -/
def otherRule : Rule :=
  ⟨.field, ⟨⟨["contact", "mail"]⟩, ⟨0, 3⟩⟩, .literal (.awaitable .coroutine 1)⟩

/-- The rules with the one that comes last. -/
def laterRules : List Rule := newsRules ++ [otherRule]

theorem discreet_news : news.Discreet ground news.body := by
  refine OneShot.discreet_of_exec fun depth m _ hf ↦ ?_
  obtain ⟨enter, henter⟩ := OneShot.exists_exec_eq depth
  rw [henter]
  have hbelow := Store.sameBelow_count 1 m.store
  exact ⟨_, _, rfl, OneShot.spares_of_sameBelow hbelow, held.stable hf.1 hbelow,
    hf.2.of_records_eq rfl⟩

/-- The rule that reads the source may stand beside the awaitable. -/
theorem suits_phoneOf : news.Suits ground readers phoneOf := by
  refine Or.inr (Or.inr fun r hr _ source hsource ↦ ?_)
  cases hsource
  obtain ⟨hasynchronous, hsynchronous⟩ :=
    OneShot.ignores_of_reading (f := ground) hr rfl fun enter _ hm ↦ execWith_phoneOf enter hm.1
  exact ⟨hasynchronous, fun _ ↦ hsynchronous⟩

theorem suits_itself : news.Suits ground readers itself := by
  refine Or.inr (Or.inr fun r hr _ source hsource ↦ ?_)
  cases hsource
  obtain ⟨hasynchronous, hsynchronous⟩ :=
    OneShot.ignores_of_reading hr (v := .record 0 "Contact") rfl fun _ _ _ ↦ rfl
  exact ⟨hasynchronous, fun _ ↦ hsynchronous⟩

/-- Three rules have been registered, a synchronous mapper has been refused, an asynchronous one has
been made, and a last rule has been registered. -/
def newsMade : Machine :=
  let m := (newsMachine.act ((newsBuilder []).registerLogged .field (.text "name")
    (.literal news.value))).2
  let m := (m.act ((newsBuilder [newsRule]).registerLogged .field (.text "contact.phone")
    phoneOf)).2
  let m := (m.act ((newsBuilder [newsRule, readingRule]).registerLogged .field (.text "origin")
    itself)).2
  let m := (m.act ((newsBuilder newsRules).makeLogged .synchronous)).2
  let m := (m.act ((newsBuilder newsRules).makeLogged .asynchronous)).2
  (m.act ((newsBuilder newsRules).registerLogged .field (.text "contact.mail")
    otherRule.compute)).2

/-- A machine with the processes of two calls. -/
abbrev Pair := Machine × Proc × Proc

def newsMapper : Mapper := (newsBuilder newsRules).snapshot

def newsService (s : Pair) : Service :=
  ⟨newsBuilder laterRules, [(newsMapper, .asynchronous)],
    ⟨s.1, [⟨newsMapper, .asynchronous, .record 0 "Contact", s.2.1⟩,
      ⟨newsMapper, .asynchronous, .record 0 "Contact", s.2.2⟩]⟩⟩

def advanceFirst (s : Pair) : Pair :=
  ((Machine.advance s.2.1 s.1).1, (Machine.advance s.2.1 s.1).2, s.2.2)

def advanceSecond (s : Pair) : Pair :=
  ((Machine.advance s.2.2 s.1).1, s.2.1, (Machine.advance s.2.2 s.1).2)

/-- Both calls have been made. -/
def newsCalled : Pair :=
  (newsMade, (Call.made newsMapper .asynchronous (.record 0 "Contact")).proc,
    (Call.made newsMapper .asynchronous (.record 0 "Contact")).proc)

/-- Both calls have come to the rule. -/
def newsAwaited : Pair := advanceSecond (advanceSecond (advanceFirst (advanceFirst newsCalled)))

/-- The task has run the coroutine. -/
def newsRun : Pair := (Machine.advanceTask 0 newsAwaited.1, newsAwaited.2)

/-- Both calls have gone on. -/
def newsShared : Pair := advanceSecond (advanceFirst newsRun)

section Runs

variable {w : OneShot} {f : Footing} {sources : Set Value}

theorem run_advanceFirst (s : Pair) :
    Service.Run w f sources (newsService s) (newsService (advanceFirst s)) :=
  @Service.run_advance w f sources (newsService s) [] _ _ rfl

theorem run_advanceSecond (s : Pair) :
    Service.Run w f sources (newsService s) (newsService (advanceSecond s)) :=
  @Service.run_advance w f sources (newsService s) [_] _ _ rfl

end Runs

/-- The service once the calls have been made. -/
theorem run_newsCalled :
    Service.Run news ground readers (.start 0 "Contact" "Person" newsMachine)
      (newsService newsCalled) := by
  let started : Service := .start 0 "Contact" "Person" newsMachine
  let first : Service := { started.on (started.traffic.machine.act
    ((newsBuilder []).registerLogged .field (.text "name") (.literal news.value))).2 with
      builder := newsBuilder [newsRule] }
  let second : Service := { first.on (first.traffic.machine.act
    ((newsBuilder [newsRule]).registerLogged .field (.text "contact.phone") phoneOf)).2 with
      builder := newsBuilder [newsRule, readingRule] }
  let third : Service := { second.on (second.traffic.machine.act
    ((newsBuilder [newsRule, readingRule]).registerLogged .field (.text "origin") itself)).2 with
      builder := newsBuilder newsRules }
  let declined : Service := third.on
    (third.traffic.machine.act ((newsBuilder newsRules).makeLogged .synchronous)).2
  let made : Service := { declined.on (declined.traffic.machine.act
    ((newsBuilder newsRules).makeLogged .asynchronous)).2 with
      transforms := [(newsMapper, .asynchronous)] }
  let later : Service :=
    ⟨newsBuilder laterRules, [(newsMapper, .asynchronous)], ⟨newsMade, []⟩⟩
  let called : Service := { later with
    traffic := ⟨newsMade, [.made newsMapper .asynchronous (.record 0 "Contact")]⟩ }
  have hname : Service.Step news ground readers started first :=
    @Service.Step.register _ _ _ _ .field (.text "name") _ _ _ (Or.inl rfl)
      (@bears_attribute _ [] "name" rfl (by decide) (by decide) (by decide))
      (iff_of_true rfl rfl) rfl
  have hphone : Service.Step news ground readers first second :=
    @Service.Step.register _ _ _ _ .field (.text "contact.phone") _ _ _ suits_phoneOf
      (@bears_attribute _ ["contact"] "phone" rfl (by decide) (by decide) (by decide))
      (iff_of_false nofun nofun) rfl
  have horigin : Service.Step news ground readers second third :=
    @Service.Step.register _ _ _ _ .field (.text "origin") _ _ _ suits_itself
      (@bears_attribute _ [] "origin" rfl (by decide) (by decide) (by decide))
      (iff_of_false nofun nofun) rfl
  have hdecline : Service.Step news ground readers third declined :=
    @Service.Step.decline _ _ _ _ .synchronous _ _ rfl
  have hmake : Service.Step news ground readers declined made :=
    @Service.Step.make _ _ _ _ .asynchronous _ _ rfl
  have hother : Service.Step news ground readers made later :=
    @Service.Step.register _ _ _ _ .field (.text "contact.mail") _ _ _
      (news.suits_awaitable ground readers .coroutine 1)
      (@bears_attribute _ ["contact"] "mail" rfl (by decide) (by decide) (by decide))
      (iff_of_false nofun nofun) rfl
  have hfirst : Service.Step news ground readers later called :=
    .call (Or.inl List.mem_cons_self) rfl
  have hsecond : Service.Step news ground readers called (newsService newsCalled) :=
    .call (Or.inl List.mem_cons_self) rfl
  exact (((((((Relation.ReflTransGen.single hname).tail hphone).tail horigin).tail hdecline).tail
    hmake).tail hother).tail hfirst).tail hsecond

theorem run_newsAwaited :
    Service.Run news ground readers (.start 0 "Contact" "Person" newsMachine)
      (newsService newsAwaited) :=
  (((run_newsCalled.trans (run_advanceFirst _)).trans (run_advanceFirst _)).trans
    (run_advanceSecond _)).trans (run_advanceSecond _)

/-- The one task that has been made runs the coroutine. -/
theorem taskMoves_newsRun : news.TaskMoves newsAwaited.1 newsRun.1 := by
  have hfresh : newsAwaited.1.tasks[0]? = some (.fresh (news.wrapper 0)) := rfl
  have hnoted : news.noted newsAwaited.1 = [.awaitable .task 0] := rfl
  generalize hrun : newsRun.1 = m
  have hm : Machine.advanceTask 0 newsAwaited.1 = m := hrun
  generalize newsAwaited.1 = m₀ at hfresh hnoted hm ⊢
  exact ⟨0, _, _, rfl, hnoted ▸ List.mem_cons_self, hfresh, Machine.advance_moves _ _,
    hm.symm.trans (Machine.advanceTask_eq hfresh)⟩

theorem run_newsShared :
    Service.Run news ground readers (newsService newsAwaited) (newsService newsShared) := by
  have hother : Service.Step news ground readers (newsService newsAwaited) (newsService newsRun) :=
    .other (Or.inr taskMoves_newsRun)
  exact ((Relation.ReflTransGen.single hother).trans (run_advanceFirst newsRun)).trans
    (run_advanceSecond (advanceFirst newsRun))

/-- Both calls have put the same list into their targets, which the coroutine has made once. The
rule beside it has put the phone that it read from the source into the contact, and another has
taken the source itself. -/
theorem news_consumed_once :
    news.Discreet ground news.body ∧ ground.Makes "Person" ∧ ground.holds newsMachine ∧
      newsMachine.IsRegular ∧ news.noted newsMachine = [] ∧ news.IsAt .untouched newsMachine ∧
      newsShared.2 = (.settled (.ok (.record 2 "Person")), .settled (.ok (.record 4 "Person"))) ∧
      newsShared.1.store.field? 2 "name" = some (.list 2 []) ∧
      newsShared.1.store.field? 4 "name" = some (.list 2 []) ∧
      newsShared.1.store.field? 4 "contact" = some (.record 3 "Contact") ∧
      newsShared.1.store.field? 3 "phone" = some (.text "1") ∧
      newsShared.1.store.field? 4 "origin" = some (.record 0 "Contact") ∧
      newsShared.1.tasks.size = 1 ∧ newsShared.1.store.coroutines = #[.closed] ∧
      ∃ σ σ', σ.Tells (newsService newsAwaited).traffic ∧
        σ'.Tells (newsService newsShared).traffic ∧ (news.setting ground).Run σ σ' ∧
        news.ConsumedOnce ground σ ∧ news.ConsumedOnce ground σ' ∧
        news.Keeps newsAwaited.1 newsShared.1 := by
  have hholds : ground.holds newsMachine := by
    refine ⟨⟨rfl, rfl⟩, fun ref name v href _ hv ↦ ?_⟩
    rw [Store.field?, Array.getElem?_eq_none (by exact href)] at hv
    cases hv
  have hregular : newsMachine.IsRegular := ⟨rfl, fun _ h ↦ by cases h⟩
  have hat : news.IsAt .untouched newsMachine := ⟨rfl, rfl⟩
  exact ⟨discreet_news, ground_makes_person, hholds, hregular, rfl, hat, rfl, rfl, rfl, rfl, rfl,
    rfl, rfl, rfl, Service.awaitable_is_consumed_once (fun _ ↦ discreet_news) ground_makes_person
      hholds hregular rfl hat run_newsAwaited run_newsShared⟩

end Sample

end Recast
