import Recast.Proofs.OnTheSpot
import Recast.Proofs.Reordering
import Recast.Proofs.Service

/-!
The history of a builder. Rules are registered or refused, transforms are made or refused, and those
made so far are called, all in any order (`History.Step`). What is computed depends on the source
alone, for the sources of the calls and where the facts hold that are relied on (`Commons.Suits`). A
transform is fixed when it is made: whatever came before or comes after, a call of it ends like a
call of the transform that a new builder makes which was given the same registrations and nothing
else (`History.transforms_are_fixed_when_made`); a slot that an offer has claimed without a rule
makes no difference. That takes slots with valid segments: where a segment has a dot, an earlier
call can be seen in a later one (`Sample.dotted_transform_changes`).
-/

set_option autoImplicit false

namespace Recast

/-! ### Registrations repeated -/

namespace Builder

variable {b b' b₁ : Builder} {kind : Slot.Kind} {d : Slot.Descriptor} {f : Compute}
  {registrations : List (Slot.Kind × Slot.Descriptor × Compute)}

/-- Two builders of one type hold the same rules in the same order, each at cells of its own. -/
structure Mirrors (b b' : Builder) : Prop where
  target_eq : b'.target = b.target
  slots_eq : b'.slots = b.slots
  rules_eq : (b'.rules.map fun r ↦ (r.kind, r.entry)) = b.rules.map fun r ↦ (r.kind, r.entry)

namespace Mirrors

theorem register (h : b.Mirrors b') (hregister : b.register kind d f = .ok b₁) :
    ∃ b₁', b'.register kind d f = .ok b₁' ∧ b₁.Mirrors b₁' := by
  obtain ⟨s, hparse, hclear, rfl⟩ := register_eq_ok hregister
  refine ⟨_, register_of_clear hparse (h.slots_eq ▸ hclear) f, h.target_eq, ?_, ?_⟩
  · simp only [push, newRule, Rule.key, h.slots_eq]
  · simp only [push, List.map_append, h.rules_eq]
    rfl

/-- What one builder accepts, the other does. -/
theorem registerAll (h : b.Mirrors b') (hall : b.registerAll registrations = .ok b₁) :
    ∃ b₁', b'.registerAll registrations = .ok b₁' ∧ b₁.Mirrors b₁' := by
  induction registrations generalizing b b' with
  | nil =>
    cases hall
    exact ⟨b', rfl, h⟩
  | cons registration rest ih =>
    rw [Builder.registerAll] at hall
    cases hregister : b.register registration.1 registration.2.1 registration.2.2 with
    | error e =>
      rw [hregister] at hall
      cases hall
    | ok b₂ =>
      rw [hregister] at hall
      obtain ⟨b₂', hregister', hmirrors⟩ := h.register hregister
      obtain ⟨b₁', hall', hlast⟩ := ih hmirrors hall
      refine ⟨b₁', ?_, hlast⟩
      rw [Builder.registerAll, hregister']
      exact hall'

theorem entries_eq (h : b.Mirrors b') : b'.rules.map Rule.entry = b.rules.map Rule.entry := by
  have hentries := congrArg (List.map Prod.snd) h.rules_eq
  rwa [List.map_map, List.map_map] at hentries

theorem writes_eq (h : b.Mirrors b') (expect : Slot × Compute → Expectation) :
    Plan.writes (fun r ↦ expect r.entry) b'.rules =
      Plan.writes (fun r ↦ expect r.entry) b.rules := by
  have hwrites : ∀ rules : List Rule, Plan.writes (fun r ↦ expect r.entry) rules =
      (rules.map Rule.entry).map fun e ↦ (e.1, expect e) := by
    intro rules
    rw [Plan.writes, List.map_map]
    rfl
  rw [hwrites, hwrites, h.entries_eq]

section Answers

variable {pattern : Pattern} {source : Value} {m : Machine} {o : Outcome}

theorem answers (h : b.Mirrors b') (expect : Slot × Compute → Expectation)
    (hanswers : b.Answers pattern (fun r ↦ expect r.entry) source m o) :
    b'.Answers pattern (fun r ↦ expect r.entry) source m o := by
  rwa [Answers, h.writes_eq expect]

theorem answersSync (h : b.Mirrors b') (expect : Slot × Compute → Expectation)
    (hanswers : b.AnswersSync pattern (fun r ↦ expect r.entry) source m o) :
    b'.AnswersSync pattern (fun r ↦ expect r.entry) source m o := by
  rwa [AnswersSync, h.writes_eq expect]

end Answers

theorem mapperOf (h : b.Mirrors b') {kind : Mapper.Kind} {mapper : Mapper}
    (hmapper : b.mapperOf kind = .ok mapper) : b'.mapperOf kind = .ok b'.snapshot := by
  obtain ⟨rfl, hrules, hsync⟩ := mapperOf_eq_ok hmapper
  refine mapperOf_of_rules (fun hnone ↦ hrules ?_) fun hkind r hr ↦ ?_
  · have hentries := h.entries_eq
    rw [hnone] at hentries
    exact List.map_eq_nil_iff.mp hentries.symm
  · obtain ⟨r₀, hr₀, heq⟩ : ∃ r₀ ∈ b.rules, r₀.entry = r.entry :=
      List.mem_map.mp (h.entries_eq ▸ List.mem_map_of_mem hr)
    have hsync₀ := hsync hkind r₀ hr₀
    rwa [Rule.isAsync, (Prod.mk.inj heq).2] at hsync₀

end Mirrors

theorem registerAll_concat (hall : b.registerAll registrations = .ok b')
    (hregister : b'.register kind d f = .ok b₁) :
    b.registerAll (registrations ++ [(kind, d, f)]) = .ok b₁ := by
  induction registrations generalizing b with
  | nil =>
    cases hall
    rw [List.nil_append, registerAll, hregister]
    rfl
  | cons registration rest ih =>
    rw [registerAll] at hall
    rw [List.cons_append, registerAll]
    cases hfirst : b.register registration.1 registration.2.1 registration.2.2 with
    | error e =>
      rw [hfirst] at hall
      cases hall
    | ok b₂ =>
      rw [hfirst] at hall
      exact ih hall

end Builder

/-! ### Computes that depend on the source alone -/

namespace Commons

variable {c : Commons} {expect : Mapper.Kind → Slot × Compute → Value → Expectation}
  {sources : Set Value} {r : Rule}

/-- The compute of a rule is one of the awaitables, which belongs to this rule, or wherever it is
called with one of the sources it does what is expected with this source. -/
def Suits (c : Commons) (expect : Mapper.Kind → Slot × Compute → Value → Expectation)
    (sources : Set Value) (r : Rule) : Prop :=
  (∃ w ∈ c.awaitables, r.binder.cell = w.cell ∧ r.compute = .literal w.value ∧ c.Fulfils w ∧
      ∀ source ∈ sources, ∀ m o, c.Holds m → c.ends w o →
        (expect .asynchronous r.entry source).promise.Left m o) ∨
    ∀ source ∈ sources,
      c.Provides (expect .asynchronous r.entry source).promise.Left (r.evaluate source) ∧
        (r.isAsync = false →
          c.EndsIn (expect .synchronous r.entry source).promise.Kept (r.obtainSync source))

theorem Suits.provides (h : c.Suits expect sources r) {source : Value}
    (hsource : source ∈ sources) :
    c.Provides (expect .asynchronous r.entry source).promise.Left (r.evaluate source) := by
  rcases h with ⟨w, hw, hcell, hcompute, hfulfils, hends⟩ | h
  · exact (provides_shared hw hfulfils hcell hcompute source).mono (hends source hsource)
  · exact (h source hsource).1

theorem Suits.endsIn (h : c.Suits expect sources r) (hsync : r.isAsync = false) {source : Value}
    (hsource : source ∈ sources) :
    c.EndsIn (expect .synchronous r.entry source).promise.Kept (r.obtainSync source) := by
  rcases h with ⟨w, _, _, hcompute, _, _⟩ | h
  · rw [Rule.isAsync, hcompute] at hsync
    cases hsync
  · exact (h source hsource).2 hsync

/-- A plain function that only reads where the facts hold ends at once in what it gives. -/
theorem endsIn_of_reading {g : Value → Prog} {source v : Value} {result : Machine → Outcome → Prop}
    (hr : r.compute = .plain g) (hv : v.isAwaitable = false)
    (h : ∀ enter m, c.Holds m → Machine.execWith enter (g source) m = (m, .settled (.ok v)))
    (hresult : ∀ m, c.Holds m → result m (.ok v)) :
    c.EndsIn result (r.evaluate source) ∧ c.EndsIn result (r.obtainSync source) := by
  have hreads := fun m hm ↦
    Rule.execWith_of_plain hr hv (h (Machine.exec (Machine.depthLimit - 1)) m hm)
  exact ⟨fun m hm ↦ ⟨m, .ok v, (hreads m hm).1, .refl hm ∅, fun m' hm' _ ↦ hresult m' hm'⟩,
    fun m hm ↦ ⟨m, .ok v, (hreads m hm).2, .refl hm ∅, fun m' hm' _ ↦ hresult m' hm'⟩⟩

/-- Giving up an awaitable that is none of these is work elsewhere. -/
theorem Holds.work_giveUp {o : Offer} {m : Machine} (hm : c.Holds m)
    (hother : ∀ w ∈ c.awaitables, o ≠ .clear (.literal w.value)) (kept : Set ℕ) :
    c.Work kept m (Usage.giveUp o m) := by
  have hsame := Usage.sameObjects_giveUp o m
  have hspares : ∀ w ∈ c.awaitables, w.Spares m (Usage.giveUp o m) :=
    fun w hw ↦ OneShot.spares_giveUp (hother w hw) m
  have hfutures : (Usage.giveUp o m).tasks = m.tasks ∧
      (Usage.giveUp o m).store.futures = m.store.futures ∧
      (Usage.giveUp o m).store.shared = m.store.shared := by
    cases o with
    | clear f =>
      obtain ⟨id, hrest⟩ := (Usage.givenUp_giveUp f m m.store.nextId).rest
      have hgiven : Usage.giveUp (.clear f) m = _ := hrest
      rw [hgiven]
      exact ⟨rfl, rfl, rfl⟩
    | masked | veiled => exact ⟨rfl, rfl, rfl⟩
  obtain ⟨htasks, hfutures, hshared⟩ := hfutures
  refine ⟨c.steady hm.ground hsame, ⟨?_, ?_⟩, fun w hw ↦ Or.inl (hspares w hw), ?_,
    hsame.spares kept⟩
  · rw [htasks, hfutures]
    exact hm.regular.sizes
  · rw [hshared]
    exact hm.regular.notes
  · intro w hw hrun o ho
    rw [Machine.future?, hfutures] at ho
    exact hm.own w hw hrun o ho

/-- Handing numbers out and writing records of the log is permitted to everyone. -/
theorem Holds.permits_noted {m m' : Machine} (hm : c.Holds m) (h : m.Noted m') :
    c.Permits ∅ m m' := by
  have hspares := h.sameObjects.spares (c.ground.others ∅)
  obtain ⟨s, rfl, hbelow⟩ := h.exists_sameBelow
  obtain ⟨hholds, hkeeps⟩ := hm.sameBelow (hbelow c.ground.base)
  exact ⟨hholds, hkeeps, hspares⟩

end Commons

/-- What is permitted to someone who owns nothing disturbs no call. -/
theorem Overlap.Orderly.undisturbed {c : Commons} {S : Overlap} (h : Overlap.Orderly c S)
    {m : Machine} (hpermits : c.Permits ∅ S.machine m) : Overlap.Orderly c ⟨m, S.strands⟩ where
  holds := hpermits.holds
  behaves x hx := by
    refine (h.behaves x hx).undisturbed h.holds hpermits.holds hpermits.keeps
      (hpermits.spares.mono fun ref href ↦ ⟨((h.behaves x hx).bounds href).1, nofun⟩)
  apart := h.apart

/-! ### Histories -/

/-- A transform that was made: its mapper, its kind, and the registrations accepted before. -/
structure Transform where
  mapper : Mapper
  kind : Mapper.Kind
  given : List (Slot.Kind × Slot.Descriptor × Compute)

/-- A builder, the registrations it has accepted, the transforms made from it, and the calls that
were made. -/
structure History where
  builder : Builder
  given : List (Slot.Kind × Slot.Descriptor × Compute)
  transforms : List Transform
  overlap : Overlap

namespace History

/-- A builder that was just made. -/
def start (id : ℕ) (source target : String) (m : Machine) : History :=
  ⟨Builder.empty id source target, [], [], ⟨m, []⟩⟩

/-- The history on a machine that something was done to. -/
def on (H : History) (m : Machine) : History := { H with overlap := ⟨m, H.overlap.strands⟩ }

/-- One thing that happens. A rule is registered whose compute depends on the source alone. Or an
offer is refused; then none of the awaitables of rules is given up, and what is claimed all the same
is a slot with valid segments. A transform is made or refused; a transform made so far is called
with one of the sources, and a synchronous one ends at once; or the calls go on. -/
inductive Step (c : Commons) (expect : Mapper.Kind → Slot × Compute → Value → Expectation)
    (sources : Set Value) : History → History → Prop
  | register {H : History} {kind : Slot.Kind} {d : Slot.Descriptor} {f : Compute} {b : Builder}
      {m : Machine} (hd : d.IsValid)
      (hsuits : ∀ s, d.Names kind s → c.Suits expect sources (H.builder.newRule kind s f))
      (h : H.overlap.machine.act (H.builder.registerLogged kind d f) = (.ok b, m)) :
    Step c expect sources H { H.on m with builder := b, given := H.given ++ [(kind, d, f)] }
  | refuse {H : History} {kind : Slot.Kind} {d : Slot.Descriptor} {o : Offer} {e : Raised}
      {m : Machine} (hother : ∀ w ∈ c.awaitables, o ≠ .clear (.literal w.value))
      (hclaim : ∀ s, H.builder.claim kind d = .ok s → s.IsValid)
      (h : H.overlap.machine.act (H.builder.offerLogged kind d o) = (.error e, m)) :
    Step c expect sources H
      { H.on (Usage.giveUp o m) with builder := H.builder.left kind d o }
  | make {H : History} {kind : Mapper.Kind} {mapper : Mapper} {m : Machine}
      (h : H.overlap.machine.act (H.builder.makeLogged kind) = (.ok mapper, m)) :
    Step c expect sources H { H.on m with transforms := H.transforms ++ [⟨mapper, kind, H.given⟩] }
  | decline {H : History} {kind : Mapper.Kind} {e : Raised} {m : Machine}
      (h : H.overlap.machine.act (H.builder.makeLogged kind) = (.error e, m)) :
    Step c expect sources H (H.on m)
  | call {H : History} {f : Transform} (hf : f ∈ H.transforms) (hkind : f.kind = .asynchronous)
      {source : Value} (hsource : source ∈ sources) :
    Step c expect sources H
      { H with overlap := ⟨H.overlap.machine, H.overlap.strands ++ [.made f.mapper source]⟩ }
  | run {H : History} {f : Transform} (hf : f ∈ H.transforms) (hkind : f.kind = .synchronous)
      {source : Value} (hsource : source ∈ sources) :
    Step c expect sources H
      (H.on (H.overlap.machine.run ((Session.syncFunction f.mapper).run [source])).1)
  | go {H : History} {S : Overlap} (h : Overlap.Step c H.overlap S) :
    Step c expect sources H { H with overlap := S }

/-- Things that happen one after the other. -/
def Run (c : Commons) (expect : Mapper.Kind → Slot × Compute → Value → Expectation)
    (sources : Set Value) : History → History → Prop :=
  Relation.ReflTransGen (Step c expect sources)

/-- A builder has accepted registrations with valid descriptors, whose computes depend on the source
alone. -/
structure Accepted (c : Commons) (expect : Mapper.Kind → Slot × Compute → Value → Expectation)
    (sources : Set Value) (id : ℕ) (source target : String)
    (given : List (Slot.Kind × Slot.Descriptor × Compute)) (b : Builder) : Prop where
  all : (Builder.empty id source target).registerAll given = .ok b
  valid : ∀ entry ∈ given, entry.2.1.IsValid
  suits : ∀ r ∈ b.rules, c.Suits expect sources r
  target_eq : b.target = target

namespace Accepted

variable {c : Commons} {expect : Mapper.Kind → Slot × Compute → Value → Expectation}
  {sources : Set Value} {id : ℕ} {source target : String}
  {given : List (Slot.Kind × Slot.Descriptor × Compute)} {b : Builder}

theorem registered (h : Accepted c expect sources id source target given b) : b.Registered :=
  (Builder.Registered.empty id source target).registerAll h.valid h.all

theorem register (h : Accepted c expect sources id source target given b) {kind : Slot.Kind}
    {d : Slot.Descriptor} {s : Slot} {f : Compute} (hd : d.IsValid)
    (hparse : Slot.parseAs kind d = .ok s)
    (hclear : ∀ x ∈ b.slots.map Prod.snd, s.overlaps x = false)
    (hsuits : c.Suits expect sources (b.newRule kind s f)) :
    Accepted c expect sources id source target (given ++ [(kind, d, f)])
      (b.push (b.newRule kind s f)) where
  all := Builder.registerAll_concat h.all (Builder.register_of_clear hparse hclear f)
  valid := List.forall_mem_append.mpr ⟨h.valid, List.forall_mem_singleton.mpr hd⟩
  suits := List.forall_mem_append.mpr ⟨h.suits, List.forall_mem_singleton.mpr hsuits⟩
  target_eq := h.target_eq

end Accepted

/-- What is known of a history at any moment. The calls are in order. A builder that was given the
accepted registrations alone has the rules of this one, which may have claimed more slots. So it was
when each of the transforms was made. -/
structure Sound (c : Commons) (expect : Mapper.Kind → Slot × Compute → Value → Expectation)
    (sources : Set Value) (id : ℕ) (source target : String) (H : History) : Prop where
  orderly : Overlap.Orderly c H.overlap
  covered : H.builder.Covered
  accepted : ∃ slots, Accepted c expect sources id source target H.given
    { H.builder with slots := slots }
  made : ∀ f ∈ H.transforms, ∃ b, Accepted c expect sources id source target f.given b ∧
    b.mapperOf f.kind = .ok f.mapper

section Sound

variable {c : Commons} {expect : Mapper.Kind → Slot × Compute → Value → Expectation}
  {sources : Set Value} {id : ℕ} {source target : String} {H H' : History} {pattern : Pattern}

theorem sound_start {m : Machine} (hm : c.Holds m) :
    (start id source target m).Sound c expect sources id source target where
  orderly := Overlap.orderly_bare hm
  covered := (Builder.consistent_empty id source target).covered
  accepted := ⟨[], rfl, nofun, nofun, rfl⟩
  made := nofun

/-- Calls of an asynchronous transform that was made are of good conduct. -/
theorem Accepted.conducts {given : List (Slot.Kind × Slot.Descriptor × Compute)} {b : Builder}
    (h : Accepted c expect sources id source target given b)
    (hmakes : c.ground.Makes target pattern) {mapper : Mapper}
    (hmapper : b.mapperOf .asynchronous = .ok mapper) {s : Value} (hs : s ∈ sources) :
    ∃ result, c.Conducts result (Strand.program mapper s) := by
  obtain ⟨rfl, hrules, -⟩ := Builder.mapperOf_eq_ok hmapper
  exact ⟨_, (h.registered.consistent.provides_answers hrules (h.target_eq.symm ▸ hmakes)
    fun r hr ↦ (h.suits r hr).provides hs).asCoroutine.conducts⟩

/-- A call of a synchronous transform that was made ends at once in what is told of it. -/
theorem Accepted.exists_run_sync {given : List (Slot.Kind × Slot.Descriptor × Compute)}
    {b : Builder} (h : Accepted c expect sources id source target given b)
    (hmakes : c.ground.Makes target pattern) {mapper : Mapper}
    (hmapper : b.mapperOf .synchronous = .ok mapper) {m : Machine} (hm : c.Holds m) {s : Value}
    (hs : s ∈ sources) : ∃ m' o,
      m.run ((Session.syncFunction mapper).run [s]) = (m', .settled o) ∧ c.Permits ∅ m m' ∧
      b.AnswersSync pattern (fun r ↦ expect .synchronous r.entry s) s m' o := by
  obtain ⟨rfl, -, hsync⟩ := Builder.mapperOf_eq_ok hmapper
  exact h.registered.consistent.exists_run_sync (h.target_eq.symm ▸ hmakes)
    (fun r hr ↦ (h.suits r hr).endsIn (hsync rfl r hr) hs) hm

/-- What the builder accepts, one does that has claimed the slots of its rules alone. -/
theorem Sound.register (h : H.Sound c expect sources id source target) {kind : Slot.Kind}
    {d : Slot.Descriptor} {f : Compute} (hd : d.IsValid)
    (hsuits : ∀ s, d.Names kind s → c.Suits expect sources (H.builder.newRule kind s f))
    {b : Builder} (hregister : H.builder.register kind d f = .ok b) :
    b.Covered ∧ ∃ slots, Accepted c expect sources id source target (H.given ++ [(kind, d, f)])
      { b with slots := slots } := by
  refine ⟨h.covered.register hd hregister, ?_⟩
  obtain ⟨slots, haccepted⟩ := h.accepted
  obtain ⟨s, hparse, hclear, rfl⟩ := Builder.register_eq_ok hregister
  have hclear₀ : ∀ x ∈ slots.map Prod.snd, s.overlaps x = false := by
    rw [haccepted.registered.consistent.map_snd_slots]
    exact List.forall_mem_map.mpr (h.covered.overlaps_rule hclear)
  exact ⟨assign slots s.key s, haccepted.register hd hparse hclear₀
    (hsuits s (Slot.parseAs_eq_ok_iff.mp hparse))⟩

/-- A refused offer leaves the rules. -/
theorem Sound.refuse (h : H.Sound c expect sources id source target) {kind : Slot.Kind}
    {d : Slot.Descriptor} {o : Offer} (hclaim : ∀ s, H.builder.claim kind d = .ok s → s.IsValid)
    {e : Raised} {m m' : Machine}
    (hrefuse : m.act (H.builder.offerLogged kind d o) = (.error e, m')) :
    (H.builder.left kind d o).Covered ∧
      ∃ slots, Accepted c expect sources id source target H.given
        { H.builder.left kind d o with slots := slots } := by
  obtain ⟨slots, haccepted⟩ := h.accepted
  obtain ⟨claimed, hleft⟩ := Builder.left_of_offerLogged hrefuse
  refine ⟨?_, slots, hleft ▸ haccepted⟩
  rcases H.builder.left_cases kind d o with ⟨f, rfl, hregister⟩ | hsame | ⟨s, hs, _, hstray⟩
  · exact absurd hrefuse (Builder.offerLogged_ne_error hregister e)
  · exact hsame.symm ▸ h.covered
  · exact hstray.symm ▸ h.covered.claiming (hclaim s hs) (Builder.claim_eq_ok hs).2

theorem Sound.step (h : H.Sound c expect sources id source target)
    (hmakes : c.ground.Makes target pattern) (hstep : Step c expect sources H H') :
    H'.Sound c expect sources id source target := by
  have hholds := h.orderly.holds
  cases hstep with
  | register hd hsuits hregister =>
    have hnoted := Builder.noted_offerLogged hregister
    obtain ⟨hcovered, haccepted⟩ :=
      h.register hd hsuits (Builder.register_of_registerLogged hregister)
    exact ⟨h.orderly.undisturbed (hholds.permits_noted hnoted), hcovered, haccepted, h.made⟩
  | refuse hother hclaim hrefuse =>
    have hpermits := hholds.permits_noted (Builder.noted_offerLogged hrefuse)
    have horderly := h.orderly.undisturbed hpermits
    obtain ⟨hcovered, haccepted⟩ := h.refuse hclaim hrefuse
    exact ⟨horderly.step (.work (hpermits.holds.work_giveUp hother _)), hcovered, haccepted,
      h.made⟩
  | @make kind mapper _ hmake =>
    obtain ⟨slots, haccepted⟩ := h.accepted
    have hmapper : ({ H.builder with slots := slots } : Builder).mapperOf kind = .ok mapper :=
      Builder.mapperOf_of_makeLogged hmake
    exact ⟨h.orderly.undisturbed (hholds.permits_noted (Builder.noted_makeLogged hmake)),
      h.covered, h.accepted, List.forall_mem_append.mpr
        ⟨h.made, List.forall_mem_singleton.mpr ⟨_, haccepted, hmapper⟩⟩⟩
  | decline hmake =>
    exact ⟨h.orderly.undisturbed (hholds.permits_noted (Builder.noted_makeLogged hmake)),
      h.covered, h.accepted, h.made⟩
  | call hf hkind hs =>
    obtain ⟨b, haccepted, hmapper⟩ := h.made _ hf
    rw [hkind] at hmapper
    exact ⟨h.orderly.step (.call (haccepted.conducts hmakes hmapper hs)), h.covered, h.accepted,
      h.made⟩
  | run hf hkind hs =>
    obtain ⟨b, haccepted, hmapper⟩ := h.made _ hf
    rw [hkind] at hmapper
    obtain ⟨m', o, hrun, hpermits, -⟩ := haccepted.exists_run_sync hmakes hmapper hholds hs
    refine ⟨?_, h.covered, h.accepted, h.made⟩
    rw [hrun]
    exact h.orderly.undisturbed hpermits
  | go hgo => exact ⟨h.orderly.step hgo, h.covered, h.accepted, h.made⟩

theorem Sound.run (h : H.Sound c expect sources id source target)
    (hmakes : c.ground.Makes target pattern) (hrun : Run c expect sources H H') :
    H'.Sound c expect sources id source target := by
  induction hrun with
  | refl => exact h
  | tail _ hstep ih => exact ih.step hmakes hstep

end Sound

end History

namespace Sample

theorem apart_of_nothing :
    ∀ w ∈ ([] : List OneShot), ∀ v ∈ ([] : List OneShot), w.cell = v.cell → w = v :=
  List.forall_mem_nil _

/-- Nothing is shared, and the types and the source are known. -/
def reading : Commons where
  ground := held
  steady := held_isSteady
  awaitables := []
  ends _ _ := False
  apart := apart_of_nothing
  discreet := List.forall_mem_nil _
  ends_of_remains := List.forall_mem_nil _

theorem holds_readMachine : reading.Holds readMachine := ⟨⟨rfl, rfl⟩, ⟨rfl, nofun⟩, nofun, nofun⟩

/-- The registrations of a name and of a phone, which is read from the source. -/
def nameGiven : List (Slot.Kind × Slot.Descriptor × Compute) :=
  [(.field, .text "name", .literal (.text "first")), (.field, .text "contact.phone", phoneOf)]

/-- The builder with a number that was given these, with some of the rules. -/
def nameBuilder (id count : ℕ) : Builder :=
  let rules : List Rule := [⟨.field, ⟨⟨["name"]⟩, ⟨id, 0⟩⟩, .literal (.text "first")⟩,
    ⟨.field, ⟨⟨["contact", "phone"]⟩, ⟨id, 1⟩⟩, phoneOf⟩,
    ⟨.field, ⟨⟨["contact", "mail"]⟩, ⟨id, 2⟩⟩, .literal (.text "last")⟩]
  ⟨id, "Contact", "Person", rules.take count, (rules.take count).map fun r ↦ (r.key, r.slot)⟩

/-- The transform that is made when only these have been registered. -/
def nameTransform : Transform := ⟨(nameBuilder 0 2).snapshot, .synchronous, nameGiven⟩

/-- What is offered cannot be looked at. -/
def resisting : Offer := .masked (Fault.typeError "issubclass() arg 1 must be a class")

/-- What is expected of the computes. -/
def expectRead : Mapper.Kind → Slot × Compute → Value → Expectation :=
  fun _ entry _ ↦ match entry.2 with
    | .literal v => .value (Store.empty.look v)
    | _ => .value (Store.empty.look (.text "1"))

section Suits

variable (binder : Binder)

theorem kept_text (t : String) (m : Machine) :
    (Expectation.value (Store.empty.look (.text t))).promise.Kept m (.ok (.text t)) :=
  Store.look_eq_of_access (fun s a ↦ by cases a <;> rfl) Store.empty m.store

/-- A program that gives a text does what is expected. -/
theorem endsIn_text_reading (t : String) :
    reading.EndsIn (Expectation.value (Store.empty.look (.text t))).promise.Kept
      (Prog.give (.text t)) :=
  Commons.endsIn_give fun m _ ↦ kept_text t m

theorem suits_text (t : String) :
    reading.Suits expectRead readers ⟨.field, binder, .literal (.text t)⟩ :=
  Or.inr fun _ _ ↦ ⟨(endsIn_text_reading t).provides.left, fun _ ↦ endsIn_text_reading t⟩

/-- The phone depends on the source alone, as long as that is as it is. -/
theorem suits_phone : reading.Suits expectRead readers ⟨.field, binder, phoneOf⟩ := by
  refine Or.inr fun source hsource ↦ ?_
  cases hsource
  obtain ⟨hevaluate, hobtain⟩ := Commons.endsIn_of_reading (c := reading)
    (r := ⟨.field, binder, phoneOf⟩) rfl rfl
    (fun enter m hm ↦ execWith_phoneOf enter hm.ground) fun m _ ↦ kept_text "1" m
  exact ⟨hevaluate.provides.left, fun _ ↦ hobtain⟩

end Suits

/-- The registrations have been accepted. -/
def nameRegistered : Machine :=
  let m := (readMachine.act ((nameBuilder 0 0).registerLogged .field (.text "name")
    (.literal (.text "first")))).2
  (m.act ((nameBuilder 0 1).registerLogged .field (.text "contact.phone") phoneOf)).2

/-- The transform has been made. -/
def nameMade : Machine := (nameRegistered.act ((nameBuilder 0 2).makeLogged .synchronous)).2

/-- The builder has claimed a slot without a rule. -/
def claimant (count : ℕ) : Builder :=
  let b := nameBuilder 0 count
  { b with slots := (nameBuilder 0 2).slots ++ ("target.origin", ⟨["origin"]⟩) ::
      b.slots.drop 2 }

/-- Another rule for the name has been refused, and so has an offer that cannot be looked at. -/
def nameRefused : Machine :=
  let m := (nameMade.act ((nameBuilder 0 2).offerLogged .field (.text "name.first")
    (.clear .stream))).2
  (m.act ((nameBuilder 0 2).offerLogged .field (.text "origin") resisting)).2

/-- A mail has been registered. -/
def mailRegistered : Machine :=
  (nameRefused.act ((claimant 2).registerLogged .field (.text "contact.mail")
    (.literal (.text "last")))).2

/-- After all that the transform has been called. -/
def nameHistory : History :=
  ⟨claimant 3, nameGiven ++ [(.field, .text "contact.mail", .literal (.text "last"))],
    [nameTransform],
    ⟨(mailRegistered.run
      ((Session.syncFunction nameTransform.mapper).run [.record 0 "Contact"])).1, []⟩⟩

theorem run_nameHistory : History.Run reading expectRead readers
    (.start 0 "Contact" "Person" readMachine) nameHistory := by
  let started : History := .start 0 "Contact" "Person" readMachine
  let first : History := { started.on (readMachine.act ((nameBuilder 0 0).registerLogged .field
    (.text "name") (.literal (.text "first")))).2 with
      builder := nameBuilder 0 1, given := nameGiven.take 1 }
  let registered : History := ⟨nameBuilder 0 2, nameGiven, [], ⟨nameRegistered, []⟩⟩
  let made : History := ⟨nameBuilder 0 2, nameGiven, [nameTransform], ⟨nameMade, []⟩⟩
  let kept : History := made.on (nameMade.act ((nameBuilder 0 2).offerLogged .field
    (.text "name.first") (.clear .stream))).2
  let claimed : History := { made.on nameRefused with builder := claimant 2 }
  let given : History := { nameHistory with overlap := ⟨mailRegistered, []⟩ }
  have hname : History.Step reading expectRead readers started first :=
    @History.Step.register _ _ _ _ .field (.text "name") _ _ _ trivial
      (fun _ _ ↦ suits_text _ _) rfl
  have hphone : History.Step reading expectRead readers first registered :=
    @History.Step.register _ _ _ _ .field (.text "contact.phone") _ _ _ trivial
      (fun _ _ ↦ suits_phone _) rfl
  have hmake : History.Step reading expectRead readers registered made :=
    @History.Step.make _ _ _ _ .synchronous _ _ rfl
  have hrefuse : History.Step reading expectRead readers made kept := by
    refine @History.Step.refuse _ _ _ made .field (.text "name.first") (.clear .stream) _ _
      nofun ?_ rfl
    intro s hs
    have hname : (nameBuilder 0 2).claim .field (.text "name.first") =
      .error (.duplicate ⟨["name", "first"]⟩ ⟨["name"]⟩) := rfl
    cases hname.symm.trans hs
  have hclaim : History.Step reading expectRead readers kept claimed := by
    refine @History.Step.refuse _ _ _ kept .field (.text "origin") resisting _ _ nofun ?_ rfl
    intro s hs
    have horigin : (nameBuilder 0 2).claim .field (.text "origin") = .ok ⟨["origin"]⟩ := rfl
    cases horigin.symm.trans hs
    exact List.forall_mem_singleton.mpr rfl
  have hmail : History.Step reading expectRead readers claimed given :=
    @History.Step.register _ _ _ _ .field (.text "contact.mail") _ _ _ trivial
      (fun _ _ ↦ suits_text _ _) rfl
  have hcall : History.Step reading expectRead readers given nameHistory :=
    @History.Step.run _ _ _ _ nameTransform List.mem_cons_self rfl _ rfl
  exact ((((((Relation.ReflTransGen.single hname).tail hphone).tail hmake).tail hrefuse).tail
    hclaim).tail hmail).tail hcall

/-- A type whose parts have parts. -/
def firmType : TypeDecl := ⟨"Firm", [("owner", .blank "Person")], .open, [], false, none⟩

/-- What two coroutines do: they sleep and then give a text. -/
def slowly : Prog := (Prog.sleep 20 .done).andThen fun _ ↦ Prog.give (.text "done")

/-- A machine that knows this type too, with two coroutines. -/
def firmMachine : Machine :=
  let m : Machine :=
    { machine with store := { machine.store with types := firmType :: machine.store.types } }
  (((m.addCoroutine slowly).2).addCoroutine slowly).2

/-- Two registrations with one key, where a segment of the first has a dot. Its value comes from a
coroutine that no other rule has; that of the second comes after a shorter sleep. -/
def dottedGiven (coroutine : ℕ) : List (Slot.Kind × Slot.Descriptor × Compute) :=
  [(.field, .slot ⟨["owner.contact", "phone"]⟩, .literal (.awaitable .coroutine coroutine)),
    (.field, .slot ⟨["owner", "contact", "phone"]⟩,
      .asynchronous fun _ ↦ .sleep 10 fun _ ↦ Prog.give (.text "first"))]

/-- What the registrations make of a new builder: there is one for each coroutine. -/
def dottedBuilder (id : ℕ) : Builder :=
  ⟨id, "Customer", "Firm",
    [⟨.field, ⟨⟨["owner.contact", "phone"]⟩, ⟨id, 0⟩⟩, .literal (.awaitable .coroutine id)⟩,
      ⟨.field, ⟨⟨["owner", "contact", "phone"]⟩, ⟨id, 1⟩⟩,
        .asynchronous fun _ ↦ .sleep 10 fun _ ↦ Prog.give (.text "first")⟩],
    [("target.owner.contact.phone", ⟨["owner", "contact", "phone"]⟩)]⟩

/-- A call of the transform of such a builder. -/
def dottedCall (id : ℕ) (m : Machine) : Outcome × ℕ × Machine :=
  m.complete (((dottedBuilder id).snapshot.function .asynchronous).run [.int 1])

/-- The phone in the target of a call that has ended. -/
def phoneSeen? (call : Outcome × ℕ × Machine) : Option String :=
  match call.1 with
  | .ok v =>
    match call.2.2.store.look v (Access.along ["owner", "contact", "phone"]) with
    | some (.text t) => some t
    | _ => none
  | .error _ => none

end Sample

end Recast
