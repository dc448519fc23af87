import Recast.Proofs.Ownership

/-!
Calls write into their own targets. Mappers in layers whose other computes change no record act in
steps of scenes that are in order (`Surroundings.hosts_frame`). So of any calls, made at any time
and going on in any order, each writes into its own target, once for each field rule that ends well,
and nothing else is written (`Traffic.each_call_writes_its_own_target`).
-/

set_option autoImplicit false

namespace Recast

/-! ### Computes in scenes -/

namespace Surroundings

variable {c : Surroundings} {r : Rule} {a : List ℕ} {source : Value}

theorem Innocent.serves (h : c.Innocent .asynchronous r) :
    c.frame.Serves c.Orderly a r (r.evaluate source) := by
  obtain ⟨good, hstart, hmoves⟩ := h source
  have hstep : ∀ {σ : Scene} {m : Machine}, c.holds m → σ.machine.Spares Set.univ m →
      c.frame.Within a σ ⟨m, σ.activation⟩ := fun hm hspares ↦
    .of_step (.other ⟨fun _ ↦ hm, hspares⟩) fun _ _ ↦ rfl
  refine ⟨fun p σ ↦ good p ∧ σ.IsFree a, ⟨?_, ?_, ?_⟩, ?_⟩
  · exact fun hp _ hbeside ↦ ⟨hp.1, hbeside.isFree hp.2⟩
  · intro p q σ m hp hσ hmove
    obtain ⟨hm, hspares, hq⟩ := hmoves _ _ _ _ hp.1 hσ.holds hmove
    exact ⟨_, hstep hm hspares, rfl, hq, hp.2⟩
  · rintro p σ ⟨_, hfree⟩ _ o rfl
    exact .leaf h (hfree a (List.prefix_refl a))
  · intro σ m q hσ _ hrun
    obtain ⟨hm, hspares, hq⟩ := hmoves _ _ _ _ hstart hσ.holds (.start hrun)
    refine ⟨σ.machine, rfl, fun τ _ hmachine hvacant ↦ ?_⟩
    exact ⟨_, hstep hm (hmachine ▸ hspares), rfl, hq, hvacant.1⟩

theorem Innocent.servesAtOnce (h : c.Innocent .synchronous r) :
    c.frame.ServesAtOnce c.Orderly a r (r.obtainSync source) := by
  intro σ m q hσ _ hrun
  obtain ⟨m', o, hend, hm, hspares⟩ := h source σ.machine hσ.holds
  cases hend.symm.trans hrun
  refine ⟨σ.machine, rfl, fun τ _ hmachine hvacant ↦ ?_⟩
  refine ⟨⟨m, τ.activation⟩, o, .of_step (.other ⟨fun _ ↦ hm, hmachine ▸ hspares⟩) fun _ _ ↦ rfl,
    rfl, rfl, .leaf h (hvacant.1 a (List.prefix_refl a)), ?_⟩
  rintro v rfl
  exact Rule.isAwaitable_of_obtainSync hrun

/-- Mappers in layers act in scenes that are in order. -/
theorem hosts_frame (c : Surroundings) : c.frame.Hosts c.Orderly Set.univ c.Innocent where
  keeps _ _ h hstep := (h.step hstep).1
  count m id := ⟨fun hm ↦ c.stable hm ⟨rfl, rfl, rfl, rfl, rfl, rfl, rfl, rfl, le_rfl,
    fun _ _ ↦ rfl⟩, rfl, le_rfl, fun _ _ _ ↦ rfl⟩
  rules := by
    rintro mapper kind ⟨⟨b, _, hmapper⟩, _⟩
    obtain ⟨rfl, hrules, _⟩ := Builder.mapperOf_eq_ok hmapper
    exact hrules
  works := by
    intro mapper kind _ r _ hleaf a source _
    cases kind with
    | asynchronous => exact hleaf.serves
    | synchronous => exact hleaf.servesAtOnce
  passes := by
    intro mapper kind _ r _ inner k hcompute
    refine ⟨fun _ ↦ rfl, ?_⟩
    rintro a source σ o ⟨x, hx, rfl, rfl, _, hended⟩
    exact .mapper hx hcompute (hended o rfl).1 (hended o rfl).2

/-- The mapper, which may be called with any source, has been made by a builder, and so have the
mappers among its computes, to any depth; the targets of all of them are made anew, and the other
computes change no record. -/
def Callable (c : Surroundings) (mapper : Mapper) (kind : Mapper.Kind) (_ : Value) : Prop :=
  Mapper.Layered c.frame.admits c.Innocent mapper kind

end Surroundings

/-! ### Calls -/

namespace Traffic

/-- The target of an inner mapper is left alone once its rule has it. -/
theorem records_eq_of_delivered {c : Surroundings} {σ σ' : Scene} {ds : List Deed}
    (hσ : c.Orderly σ) (h : σ.Passage ds σ') {a : List ℕ} {x y : Activation} {i : ℕ} {r : Rule}
    {given result : Outcome} (hx : σ.activation a = some x) (hr : x.mapper.rules[i]? = some r)
    (hi : x.progress[i]? = some (.ended given result)) (hy : σ.activation (a ++ [i]) = some y)
    {t : Making} (ht : y.made = some t) {ref : ℕ} (href : ref ∈ t.region) :
    σ'.machine.store.records[ref]? = σ.machine.store.records[ref]? := by
  have hclosed : y.outcome ≠ none := by
    cases hσ.delivered a x i r given result hx hr hi with
    | leaf _ hnone => exact absurd (hnone.symm.trans hy) (Option.some_ne_none y).symm
    | mapper hx' _ hended _ =>
      cases hx'.symm.trans hy
      exact hended
  refine h.records_eq ((hσ.fits _ y t hy ht).ref_lt href) fun b z u hz hopen hu hmem ↦ ?_
  by_cases hb : b = a ++ [i]
  · subst hb
    cases hz.symm.trans hy
    exact hclosed hopen
  · exact (hσ.apart b _ z y u t hb hz hy hu ht).le_bot ⟨hmem, href⟩

/-- Each call writes into its own target. Mappers that builders have made are called any number of
times, in a row or side by side; they may be computes of each other's rules, to any depth; and what
has begun goes on in any order. If the other computes change no record and every target is made
anew, then up to any moment, and from there to any later one, all writes to attributes are those of
field rules that end well, one each, to the target of their own call, whose records did not exist
before it. So nothing is written to what is no target of an open call, and nothing more to the
target of an inner mapper once its rule has it. -/
theorem each_call_writes_its_own_target {c : Surroundings} {m : Machine} (hm : c.holds m)
    {T T' : Traffic} (hbefore : Run c.Callable c.frame.quiet ⟨m, []⟩ T)
    (hafter : Run c.Callable c.frame.quiet T T') :
    ∃ σ σ' ds ds', σ.Tells T ∧ σ'.Tells T' ∧ c.Orderly σ ∧ c.Orderly σ' ∧
      (Scene.bare m).Passage ds σ ∧ σ.Passage ds' σ' ∧
      (∀ ref < T.machine.store.records.size,
        (∀ a x t, σ.activation a = some x → x.outcome = none → x.made = some t → ref ∉ t.region) →
        T'.machine.store.records[ref]? = T.machine.store.records[ref]?) ∧
      ∀ a x (i : ℕ) r given result y t, σ.activation a = some x → x.mapper.rules[i]? = some r →
        x.progress[i]? = some (.ended given result) → σ.activation (a ++ [i]) = some y →
        y.made = some t → ∀ ref ∈ t.region,
          T'.machine.store.records[ref]? = T.machine.store.records[ref]? := by
  have hcallable : ∀ mapper kind source, c.Callable mapper kind source → source ∈ Set.univ ∧
      Mapper.Layered c.frame.admits c.Innocent mapper kind := fun _ _ _ h ↦ ⟨trivial, h⟩
  have hbare := Surroundings.orderly_bare hm
  obtain ⟨σ, hrun, hcast⟩ := (Cast.bare hbare).exists_run c.hosts_frame hcallable hbefore
  obtain ⟨σ', hrun', hcast'⟩ := hcast.exists_run c.hosts_frame hcallable hafter
  obtain ⟨hσ, ds, hpassage⟩ := hbare.run hrun
  obtain ⟨hσ', ds', hpassage'⟩ := hσ.run hrun'
  refine ⟨σ, σ', ds, ds', hcast.tells, hcast'.tells, hσ, hσ', hpassage, hpassage', ?_⟩
  rw [← hcast.machine_eq, ← hcast'.machine_eq]
  exact ⟨fun ref href hclosed ↦ hpassage'.records_eq href hclosed,
    fun a x i r given result y t hx hr hi hy ht ref href ↦
      records_eq_of_delivered hσ hpassage' hx hr hi hy ht href⟩

end Traffic

namespace Sample

/-- A builder of contacts with one rule. -/
def phoneBuilder : Builder :=
  ⟨1, "Customer", "Contact", [⟨.field, ⟨⟨["phone"]⟩, ⟨1, 0⟩⟩, quick⟩],
    [("target.phone", ⟨["phone"]⟩)]⟩

/-- A rule that has the contact made by the builder of contacts. -/
def phoneRule : Rule :=
  ⟨.field, ⟨⟨["contact"]⟩, ⟨0, 1⟩⟩, phoneBuilder.snapshot.compute .synchronous⟩

def nestingBuilder : Builder :=
  ⟨0, "Customer", "Person", [nameRule, phoneRule],
    [("target.name", ⟨["name"]⟩), ("target.contact", ⟨["contact"]⟩)]⟩

theorem registered_phoneBuilder : phoneBuilder.Registered := by
  have hall : (Builder.empty 1 "Customer" "Contact").registerAll
      [(.field, .text "phone", quick)] = .ok phoneBuilder := rfl
  exact (Builder.Registered.empty _ _ _).registerAll (by simp [Slot.Descriptor.IsValid]) hall

theorem registered_nestingBuilder : nestingBuilder.Registered := by
  have hall : (Builder.empty 0 "Customer" "Person").registerAll
      [(.field, .text "name", .literal (.text "first")),
        (.field, .text "contact", phoneRule.compute)] = .ok nestingBuilder := rfl
  exact (Builder.Registered.empty _ _ _).registerAll (by simp [Slot.Descriptor.IsValid]) hall

theorem renews_of_makes {pattern : Pattern} {mapper : Mapper}
    (h : known.Makes mapper.target pattern) : known.Renews mapper := by
  intro m target built hm hmade
  obtain ⟨_, target', built', hmakes⟩ := h m hm
  cases hmakes.made.symm.trans hmade
  exact hmakes.tree.unaliased _

theorem innocent_text {r : Rule} {t : String}
    (h : ∀ source, r.obtainSync source = Prog.give (.text t)) :
    known.Innocent .synchronous r := by
  intro source m hm
  rw [h source]
  exact ⟨m, _, rfl, hm, .refl m _⟩

theorem callable_phone (source : Value) :
    known.Callable phoneBuilder.snapshot .synchronous source :=
  .intro (fun _ ↦ none)
    ⟨⟨phoneBuilder, registered_phoneBuilder, rfl⟩, renews_of_makes makes_contact⟩
    (List.forall_mem_singleton.mpr fun _ ↦ innocent_text fun _ ↦ rfl) nofun nofun nofun

theorem callable_nesting (source : Value) :
    known.Callable nestingBuilder.snapshot .synchronous source := by
  refine .intro
    (fun r ↦ if r.slot.path = ["contact"] then some (phoneBuilder.snapshot, .synchronous)
    else none) ⟨⟨nestingBuilder, registered_nestingBuilder, rfl⟩, renews_of_makes makes_person⟩
    ?_ ?_ ?_ ?_
  all_goals refine List.forall_mem_cons.mpr ⟨?_, List.forall_mem_singleton.mpr ?_⟩
  · exact fun _ ↦ innocent_text fun _ ↦ rfl
  · nofun
  · nofun
  · rintro q ⟨⟩
    exact Or.inl rfl
  · nofun
  · rintro q ⟨⟩
    rfl
  · nofun
  · rintro q ⟨⟩
    exact callable_phone source

/-- What is left when a call of the nesting mapper has been made and has run. -/
def afterNesting : Machine × Proc := machine.run (nestingBuilder.snapshot.transformSync (.int 1))

/-- The call before it has begun, and after. -/
def nestingCall : Call := .made nestingBuilder.snapshot .synchronous (.int 1)

theorem nesting_runs :
    Traffic.Run known.Callable known.frame.quiet ⟨machine, []⟩
      ⟨afterNesting.1, [{ nestingCall with proc := afterNesting.2 }]⟩ := by
  have hcall : Traffic.Step known.Callable known.frame.quiet ⟨machine, []⟩
      ⟨machine, [nestingCall]⟩ := .call (callable_nesting (.int 1))
  have hmove : Traffic.Step known.Callable known.frame.quiet ⟨machine, [nestingCall]⟩
      ⟨afterNesting.1, [{ nestingCall with proc := afterNesting.2 }]⟩ :=
    @Traffic.Step.move _ _ _ _ [] [] nestingCall _ (.start rfl)
  exact (Relation.ReflTransGen.single hcall).tail hmove

/-- The person and the contact within it were made in different calls; each call has written its own
attribute, and the contact that the person was made with is as it was made. -/
theorem nesting_writes :
    known.holds machine ∧
      Traffic.Run known.Callable known.frame.quiet ⟨machine, []⟩
        ⟨afterNesting.1, [{ nestingCall with proc := afterNesting.2 }]⟩ ∧
      afterNesting.1.store.field? 1 "name" = some (.text "first") ∧
      afterNesting.1.store.field? 1 "contact" = some (.record 2 "Contact") ∧
      afterNesting.1.store.field? 2 "phone" = some (.text "first") ∧
      afterNesting.1.store.field? 0 "phone" = some .null ∧
      ∃ σ σ' ds ds', σ.Tells ⟨machine, []⟩ ∧
        σ'.Tells ⟨afterNesting.1, [{ nestingCall with proc := afterNesting.2 }]⟩ ∧
        known.Orderly σ ∧ known.Orderly σ' ∧ (Scene.bare machine).Passage ds σ ∧
        σ.Passage ds' σ' := by
  obtain ⟨σ, σ', ds, ds', hσ, hσ', horderly, horderly', hpassage, hpassage', _⟩ :=
    Traffic.each_call_writes_its_own_target (c := known) (m := machine) rfl .refl nesting_runs
  exact ⟨rfl, nesting_runs, rfl, rfl, rfl, rfl, σ, σ', ds, ds', hσ, hσ', horderly, horderly',
    hpassage, hpassage'⟩

end Sample

end Recast
