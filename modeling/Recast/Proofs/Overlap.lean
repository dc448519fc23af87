import Recast.Proofs.Completion
import Recast.Proofs.Service

/-!
Calls that overlap and may be cancelled. Any number of calls of asynchronous mappers are made, go on
and are cancelled, in any order. As long as no call is cancelled while it waits for the future of an
awaitable, all is in order (`Overlap.Orderly`): the calls that nobody cancels end as they do without
the others (`Overlap.cancelling_spares_the_others`). Without this condition the cancellation reaches
the awaitable, and the other calls that need it fail (`Sample.cancelling_spreads`).
-/

set_option autoImplicit false

namespace Recast

/-- A call of an asynchronous mapper: its process, the records that it has made, and whether it has
been cancelled. -/
structure Strand where
  mapper : Mapper
  source : Value
  proc : Proc
  own : Set ℕ
  cancelled : Bool

namespace Strand

/-- What a call runs. -/
def program (mapper : Mapper) (source : Value) : Prog :=
  (Session.asyncFunction mapper).run [source]

/-- A call that was just made. -/
def made (mapper : Mapper) (source : Value) : Strand :=
  ⟨mapper, source, .fresh (program mapper source), ∅, false⟩

/-- The call is one of the mapper with the source. -/
def Maps (x : Strand) (mapper : Mapper) (source : Value) : Prop :=
  x.mapper = mapper ∧ x.source = source

end Strand

/-- A machine and the calls that were made on it. -/
structure Overlap where
  machine : Machine
  strands : List Strand

namespace Overlap

/-- The records that calls have made. -/
def owned (S : Overlap) : Set ℕ := {ref | ∃ x ∈ S.strands, ref ∈ x.own}

/-- One thing that happens. A call of good conduct is made, a call goes on, a call is cancelled
while it does not wait for an awaitable, or work goes on elsewhere. -/
inductive Step (c : Commons) : Overlap → Overlap → Prop
  | call {S : Overlap} {mapper : Mapper} {source : Value}
      (h : ∃ result, c.Conducts result (Strand.program mapper source)) :
    Step c S ⟨S.machine, S.strands ++ [.made mapper source]⟩
  | move {m m' : Machine} {before after : List Strand} {x : Strand} {q : Proc}
      (h : Machine.Move m x.proc m' q) :
    Step c ⟨m, before ++ x :: after⟩
      ⟨m', before ++ { x with proc := q, own := x.own ∪ m.made m' } :: after⟩
  | cancel {m : Machine} {before after : List Strand} {x : Strand}
      (hapart : ∀ i ∈ c.guarded m, ¬ m.WaitsFor x.proc i) :
    Step c ⟨m, before ++ x :: after⟩ ⟨(Machine.cancel x.proc m).1,
      before ++ { x with proc := (Machine.cancel x.proc m).2, cancelled := true } :: after⟩
  | work {S : Overlap} {m : Machine} (h : c.Work S.owned S.machine m) : Step c S ⟨m, S.strands⟩

/-- Things that happen one after the other. -/
def Run (c : Commons) : Overlap → Overlap → Prop := Relation.ReflTransGen (Step c)

/-! ### Calls in order -/

end Overlap

/-- A call is in every good state that good conduct leads to. -/
structure Strand.Behaves (c : Commons) (m : Machine) (x : Strand) : Prop where
  conducts : ∃ result, c.Conducts result (program x.mapper x.source)
  good : ∀ result good, c.Conduct result good →
    (∀ m, c.Holds m → good false (.fresh (program x.mapper x.source)) ∅ m) →
    good x.cancelled x.proc x.own m
  bounds : x.own ⊆ Set.Ico c.ground.base m.store.records.size

namespace Strand.Behaves

variable {c : Commons} {m m' : Machine} {x : Strand}

theorem made (hm : c.Holds m) {mapper : Mapper} {source : Value}
    (h : ∃ result, c.Conducts result (program mapper source)) :
    (Strand.made mapper source).Behaves c m :=
  ⟨h, fun _ _ _ hstart ↦ hstart m hm, Set.empty_subset _⟩

theorem undisturbed (h : x.Behaves c m) (hm : c.Holds m) (hm' : c.Holds m')
    (hkeeps : c.Keeps m m') (hspares : m.Spares x.own m') : x.Behaves c m' where
  conducts := h.conducts
  good result good hgood hstart := hgood.undisturbed (h.good result good hgood hstart) hm hm' hkeeps
    hspares
  bounds := h.bounds.trans (Set.Ico_subset_Ico_right hspares.size_le)

/-- A call goes on in good states and leaves the others alone. -/
theorem move (h : x.Behaves c m) (hm : c.Holds m) {q : Proc} (hmove : Machine.Move m x.proc m' q) :
    c.Permits x.own m m' ∧ { x with proc := q, own := x.own ∪ m.made m' }.Behaves c m' := by
  obtain ⟨result, good, hgood, hstart⟩ := h.conducts
  have hpermits := (hgood.move (h.good result good hgood hstart) hm hmove).1
  refine ⟨hpermits, h.conducts, fun result good hgood hstart ↦
    (hgood.move (h.good result good hgood hstart) hm hmove).2, ?_⟩
  exact Set.union_subset
    (h.bounds.trans (Set.Ico_subset_Ico_right hpermits.spares.size_le))
    (Set.Ico_subset_Ico_left (c.ground.base_le hm.ground))

/-- So does a call that is cancelled while it waits for no awaitable. -/
theorem cancel (h : x.Behaves c m) (hm : c.Holds m)
    (hapart : ∀ i ∈ c.guarded m, ¬ m.WaitsFor x.proc i) :
    { x with proc := (Machine.cancel x.proc m).2, cancelled := true }.Behaves c
      (Machine.cancel x.proc m).1 where
  conducts := h.conducts
  good result good hgood hstart := by
    have hbefore := h.good result good hgood hstart
    have hforgotten : good true x.proc x.own m := hgood.forget hbefore
    exact hgood.cancel hforgotten hm (Machine.heeds_of_not_waitsFor hapart _)
  bounds := h.bounds.trans
    (Set.Ico_subset_Ico_right ((Machine.subsides_cancel hapart).spares ∅).size_le)

end Strand.Behaves

namespace Overlap

variable {c : Commons} {S T : Overlap}

/-- All calls behave, and no two own a record in common. -/
structure Orderly (c : Commons) (S : Overlap) : Prop where
  holds : c.Holds S.machine
  behaves : ∀ x ∈ S.strands, x.Behaves c S.machine
  apart : S.strands.Pairwise fun x y ↦ Disjoint x.own y.own

theorem orderly_bare {m : Machine} (hm : c.Holds m) : Orderly c ⟨m, []⟩ := ⟨hm, nofun, .nil⟩

namespace Orderly

variable {m m' : Machine} {before after : List Strand} {x : Strand}

/-- What the others own is nobody else's. -/
theorem disjoint (h : Orderly c ⟨m, before ++ x :: after⟩) {y : Strand}
    (hy : y ∈ before ∨ y ∈ after) : Disjoint x.own y.own := by
  obtain ⟨_, hlater, hearlier⟩ := List.pairwise_append.mp h.apart
  rcases hy with hy | hy
  · exact (hearlier y hy x List.mem_cons_self).symm
  · exact (List.pairwise_cons.mp hlater).1 y hy

/-- One call is replaced by what has become of it, and what it did was permitted to it. -/
theorem replace (h : Orderly c ⟨m, before ++ x :: after⟩) {x' : Strand}
    (hpermits : c.Permits x.own m m') (hx' : x'.Behaves c m')
    (hown : x'.own ⊆ x.own ∪ m.made m') : Orderly c ⟨m', before ++ x' :: after⟩ := by
  have hothers : ∀ y, y ∈ before ∨ y ∈ after → y.Behaves c m' ∧ Disjoint x'.own y.own := by
    intro y hy
    have hbehaves : y.Behaves c m := h.behaves y (by rcases hy with hy | hy <;> simp [hy])
    have hdisjoint := h.disjoint hy
    have hspares : m.Spares y.own m' := hpermits.spares.mono fun ref href ↦
      ⟨(hbehaves.bounds href).1, fun hmem ↦ (hdisjoint.le_bot ⟨hmem, href⟩).elim⟩
    refine ⟨hbehaves.undisturbed h.holds hpermits.holds hpermits.keeps hspares, ?_⟩
    refine (Set.disjoint_union_left.mpr ⟨hdisjoint, ?_⟩).mono_left hown
    exact Set.disjoint_left.mpr fun ref hmade href ↦
      (hbehaves.bounds href).2.not_ge hmade.1
  obtain ⟨hfirst, hlater, hearlier⟩ := List.pairwise_append.mp h.apart
  refine ⟨hpermits.holds, ?_, List.pairwise_append.mpr ⟨hfirst, ?_, ?_⟩⟩
  · intro y hy
    rcases List.mem_append.mp hy with hy | hy
    · exact (hothers y (Or.inl hy)).1
    · rcases List.mem_cons.mp hy with rfl | hy
      · exact hx'
      · exact (hothers y (Or.inr hy)).1
  · exact List.pairwise_cons.mpr
      ⟨fun y hy ↦ (hothers y (Or.inr hy)).2, (List.pairwise_cons.mp hlater).2⟩
  · intro y hy z hz
    rcases List.mem_cons.mp hz with rfl | hz
    · exact (hothers y (Or.inl hy)).2.symm
    · exact hearlier y hy z (List.mem_cons_of_mem _ hz)

/-- Whatever happens, all stays in order. -/
theorem step (h : Orderly c S) (hstep : Step c S T) : Orderly c T := by
  cases hstep with
  | call hconducts =>
    refine ⟨h.holds, ?_, ?_⟩
    · exact List.forall_mem_append.mpr
        ⟨h.behaves, List.forall_mem_singleton.mpr (.made h.holds hconducts)⟩
    · exact List.pairwise_append.mpr ⟨h.apart, List.pairwise_singleton _ _,
        fun y _ z hz ↦ List.mem_singleton.mp hz ▸ Set.disjoint_empty _⟩
  | move hmove =>
    have hx := h.behaves _ (List.mem_append_right _ List.mem_cons_self)
    obtain ⟨hpermits, hx'⟩ := hx.move h.holds hmove
    exact h.replace hpermits hx' subset_rfl
  | @cancel m _ _ x hapart =>
    have hx := h.behaves _ (List.mem_append_right _ List.mem_cons_self)
    have hsubsides := Machine.subsides_cancel hapart
    obtain ⟨hholds, hkeeps⟩ := h.holds.subsides hsubsides
    exact h.replace ⟨hholds, hkeeps, hsubsides.spares _⟩ (hx.cancel h.holds hapart)
      Set.subset_union_left
  | work hwork =>
    obtain ⟨hholds, hkeeps⟩ := h.holds.work hwork
    refine ⟨hholds, fun x hx ↦ ?_, h.apart⟩
    exact (h.behaves x hx).undisturbed h.holds hholds hkeeps
      (hwork.records.mono fun ref href ↦ ⟨x, hx, href⟩)

theorem run (h : Orderly c S) (hrun : Run c S T) : Orderly c T := by
  induction hrun with
  | refl => exact h
  | tail _ hstep ih => exact ih.step hstep

end Orderly

/-- A call of a mapper that is not cancelled can come to an end, and it gives what is told of it. -/
theorem Orderly.answers (hS : Orderly c S) {b : Builder} (hb : b.Registered) (hrules : b.rules ≠ [])
    {pattern : Pattern} {expect : Rule → Expectation} {source : Value}
    (hmakes : c.ground.Makes b.target pattern)
    (hcomputes : ∀ r ∈ b.rules, c.Provides (expect r).promise.Left (r.evaluate source))
    {x : Strand} (hx : x ∈ S.strands) (hmaps : x.Maps b.snapshot source)
    (hkept : x.cancelled = false) :
    (∃ m₁ o, c.Course (S.machine, x.proc) (m₁, .settled o)) ∧
      ∀ o, x.proc = .settled o → ∃ o₀, b.Answers pattern expect source S.machine o₀ ∧
        LetOut o₀ o := by
  obtain ⟨good, hgood, hlively, hstart⟩ :=
    (hb.consistent.provides_answers hrules hmakes hcomputes).asCoroutine
  have hprogram : Strand.program b.snapshot source =
      (b.snapshot.transform source).asCoroutine := rfl
  have hstate : good false x.proc x.own S.machine := by
    have hgoodHere := (hS.behaves x hx).good _ good hgood fun m hm ↦ by
      rw [hmaps.1, hmaps.2, hprogram]
      exact hstart m hm
    rwa [hkept] at hgoodHere
  exact ⟨hlively _ _ _ hstate hS.holds, fun o ho ↦ hgood.ended (ho ▸ hstate) hS.holds⟩

/-- Cancelling calls spares the others. Any number of calls are made and go on in any order, and any
of them are cancelled at any time at which they do not wait for the future of an awaitable. A call
that is not cancelled can always come to an end, and it ends as the same call does in any other run,
such as the one in which the cancelled calls are not made. -/
theorem cancelling_spares_the_others {m m' : Machine} {S S' : Overlap} (hm : c.Holds m)
    (hm' : c.Holds m') (hrun : Run c ⟨m, []⟩ S) (hrun' : Run c ⟨m', []⟩ S') {b : Builder}
    (hb : b.Registered) (hrules : b.rules ≠ []) {pattern : Pattern} {expect : Rule → Expectation}
    {source : Value} (hmakes : c.ground.Makes b.target pattern)
    (hcomputes : ∀ r ∈ b.rules, c.Provides (expect r).promise.Left (r.evaluate source))
    {x x' : Strand} (hx : x ∈ S.strands) (hx' : x' ∈ S'.strands) (hmaps : x.Maps b.snapshot source)
    (hmaps' : x'.Maps b.snapshot source) (hkept : x.cancelled = false)
    (hkept' : x'.cancelled = false) :
    (∃ m₁ o, c.Course (S.machine, x.proc) (m₁, .settled o)) ∧
      ∀ o o', x.proc = .settled o → x'.proc = .settled o' →
        b.Alike pattern expect S.machine S'.machine o o' := by
  have hS := (orderly_bare hm).run hrun
  have hS' := (orderly_bare hm').run hrun'
  obtain ⟨good, hgood, hlively, hstart⟩ :=
    (hb.consistent.provides_answers hrules hmakes hcomputes).asCoroutine
  have hprogram : Strand.program b.snapshot source =
      (b.snapshot.transform source).asCoroutine := rfl
  have hstate : ∀ {T : Overlap} {y : Strand}, Orderly c T → y ∈ T.strands →
      y.Maps b.snapshot source → y.cancelled = false → good false y.proc y.own T.machine := by
    intro T y hT hy hmapsHere hkeptHere
    have hgoodHere := (hT.behaves y hy).good _ good hgood fun m hm ↦ by
      rw [hmapsHere.1, hmapsHere.2, hprogram]
      exact hstart m hm
    rwa [hkeptHere] at hgoodHere
  refine ⟨hlively _ _ _ (hstate hS hx hmaps hkept) hS.holds, fun o o' ho ho' ↦ ?_⟩
  obtain ⟨_, hanswers, hout⟩ := hgood.ended (ho ▸ hstate hS hx hmaps hkept) hS.holds
  obtain ⟨_, hanswers', hout'⟩ := hgood.ended (ho' ▸ hstate hS' hx' hmaps' hkept') hS'.holds
  exact hanswers.alike hanswers' hout hout'

/-! ### A call that is cancelled beside another -/

/-- What a process does is what its call does. -/
theorem run_moves (before after : List Strand) (x : Strand) {m : Machine} {t : Machine × Proc}
    (h : Machine.Moves (m, x.proc) t) : ∃ own, Run c ⟨m, before ++ x :: after⟩
      ⟨t.1, before ++ { x with proc := t.2, own := own } :: after⟩ := by
  induction h with
  | refl => exact ⟨x.own, .refl⟩
  | tail _ hmove ih =>
    obtain ⟨own, hrun⟩ := ih
    exact ⟨_, hrun.tail (.move hmove)⟩

end Overlap

namespace Sample

/-- Nothing is shared, and the types are known. -/
def apart : Commons where
  ground := known
  awaitables := []
  ends _ _ := False
  steady h hsame := by
    rw [hsame]
    exact h
  apart := nofun
  discreet := nofun
  ends_of_remains := nofun

theorem holds_machine : apart.Holds machine := ⟨rfl, ⟨rfl, nofun⟩, nofun, nofun⟩

theorem provides_contact (source : Value) : ∀ r ∈ (contactBuilder quick).rules,
    apart.Provides (expect quickFace r.compute).promise.Left (r.evaluate source) := by
  have htext : ∀ t : String, apart.EndsIn
      (Expectation.value (Store.empty.look (.text t))).promise.Kept (Prog.give (.text t)) := fun t ↦
    Commons.endsIn_give fun m _ ↦
      Store.look_eq_of_access (fun s a ↦ by cases a <;> rfl) Store.empty m.store
  refine List.forall_mem_cons.mpr
    ⟨(htext "first").provides.left, List.forall_mem_singleton.mpr (Commons.Provides.left ?_)⟩
  have hslow : apart.Provides (Expectation.value (Store.empty.look (.text "last"))).promise.Kept
      (.sleep 100 fun _ ↦ Prog.give (.text "last")) :=
    (htext "last").provides.sleep ((htext "last").conducts.mono fun _ _ _ _ ↦ trivial)
      fun _ _ h ↦ h
  refine hslow.asCoroutine.mono fun m o' _ ⟨o, ho, hout⟩ ↦ ?_
  obtain ⟨v, rfl, hv⟩ := Expectation.kept_value_iff.mp ho
  cases hout
  exact ho

/-- A call of the sample that was just made. -/
def contactCall (source : Value) : Strand := .made (contactBuilder quick).snapshot source

/-- The call has begun, and one of its rules sleeps. -/
def asleep (source : Value) (m : Machine) : Machine × Proc :=
  let (m, p) := Machine.advance (contactCall source).proc m
  Machine.advance p m

/-- The sleeper has woken, and the call has ended. -/
def woken (source : Value) (m : Machine) : Machine × Proc :=
  let (m, p) := asleep source m
  Machine.advance p (m.later 100)

/-- Beside whatever else was called, a call of the sample is made and comes to its end. -/
theorem exists_run_woken {S : Overlap} (hS : Overlap.Orderly apart S) (source : Value) :
    ∃ own, Overlap.Run apart S ⟨(woken source S.machine).1,
      S.strands ++
        [{ contactCall source with proc := (woken source S.machine).2, own := own }]⟩ := by
  have hcall : Overlap.Step apart S ⟨S.machine, S.strands ++ [contactCall source]⟩ :=
    .call ⟨_, ((nests quick).inner_registered.consistent.provides_answers (List.cons_ne_nil _ _)
      makes_contact (provides_contact source)).asCoroutine.conducts⟩
  have hmoves : Machine.Moves (S.machine, (contactCall source).proc) (asleep source S.machine) :=
    (Machine.advance_moves _ _).trans (Machine.advance_moves _ _)
  obtain ⟨own, hasleep⟩ := Overlap.run_moves (c := apart) S.strands [] (contactCall source) hmoves
  have hrun : Overlap.Run apart S _ := .head hcall hasleep
  have hholds := (hS.run hrun).holds
  have hlater : apart.ground.holds ((asleep source S.machine).1.later 100) := hholds.ground
  have hwait := hrun.tail (.work (hholds.work_later hlater _))
  obtain ⟨own', hwoken⟩ := Overlap.run_moves (c := apart) S.strands []
    { contactCall source with proc := (asleep source S.machine).2, own := own }
    (Machine.advance_moves _ ((asleep source S.machine).1.later 100))
  exact ⟨own', hwait.trans hwoken⟩

/-- Two calls overlap, the first is cancelled while a rule of it sleeps, and the second ends as it
does when it is the only one. -/
theorem second_contact_spared : ∃ S S' : Overlap, ∃ x x' : Strand, ∃ o o',
    Overlap.Run apart ⟨machine, []⟩ S ∧ Overlap.Run apart ⟨machine, []⟩ S' ∧
      S.strands.map Strand.cancelled = [true, false] ∧ S'.strands.map Strand.cancelled = [false] ∧
      x ∈ S.strands ∧ x' ∈ S'.strands ∧ x.proc = .settled o ∧ x'.proc = .settled o' ∧
      (contactBuilder quick).Alike contactPattern (fun r ↦ expect quickFace r.compute) S.machine
        S'.machine o o' := by
  have hbare := Overlap.orderly_bare holds_machine
  obtain ⟨own', halone⟩ := exists_run_woken hbare (.int 2)
  have hcall : Overlap.Step apart ⟨machine, []⟩ ⟨machine, [contactCall (.int 1)]⟩ :=
    .call (S := ⟨machine, []⟩) ⟨_, ((nests quick).inner_registered.consistent.provides_answers
      (List.cons_ne_nil _ _) makes_contact (provides_contact (.int 1))).asCoroutine.conducts⟩
  obtain ⟨own, hasleep⟩ := Overlap.run_moves (c := apart) [] [] (contactCall (.int 1))
    ((Machine.advance_moves _ machine).trans (Machine.advance_moves _ _))
  have hcancel := (Relation.ReflTransGen.head hcall hasleep).tail
    (.cancel fun i ⟨_, hw, _⟩ ↦ (List.not_mem_nil hw).elim)
  obtain ⟨own₂, hsecond⟩ := exists_run_woken (hbare.run hcancel) (.int 2)
  have hrun := hcancel.trans hsecond
  refine ⟨_, _, { contactCall (.int 2) with proc := _, own := own₂ },
    { contactCall (.int 2) with proc := _, own := own' }, _, _, hrun, halone, rfl, rfl,
    List.mem_append_right _ List.mem_cons_self, List.mem_append_right _ List.mem_cons_self,
    rfl, rfl, ?_⟩
  exact (Overlap.cancelling_spares_the_others holds_machine holds_machine hrun halone
    (nests quick).inner_registered (List.cons_ne_nil _ _) makes_contact (provides_contact (.int 2))
    (List.mem_append_right _ List.mem_cons_self) (List.mem_append_right _ List.mem_cons_self)
    ⟨rfl, rfl⟩ ⟨rfl, rfl⟩ rfl rfl).2 _ _ rfl rfl

/-! ### A call that is cancelled while it waits for an awaitable -/

/-- A machine with a coroutine that sleeps and then gives a text. -/
def sharingMachine : Machine :=
  (machine.addCoroutine ((Prog.sleep 20 .done).andThen fun _ ↦ Prog.give (.text "done"))).2

/-- A builder with a rule for this coroutine. -/
def sharingBuilder : Builder :=
  ⟨0, "Customer", "Contact",
    [⟨.field, ⟨⟨["phone"]⟩, ⟨0, 0⟩⟩, .literal (.awaitable .coroutine 0)⟩],
    [("target.phone", ⟨["phone"]⟩)]⟩

/-- A call of its mapper, to be cancelled at a time or not. -/
def sharingCall (source : Value) (limit : Option ℕ) : Leg :=
  Leg.start (Strand.program sharingBuilder.snapshot source) 0 limit

/-- The kind of the fault that an outcome is, if it is one. -/
def faultKind? : Outcome → Option String
  | .ok _ => none
  | .error e => some e.fault.kind

/-- The faults that calls end in. -/
def faultsOf (legs : List Leg) : List (Option String) :=
  (Machine.settle 10 sharingMachine legs).2.map fun l ↦ faultKind? l.outcome

/-- A call that is cancelled while it waits for an awaitable makes another one fail that would have
ended well. -/
theorem cancelling_spreads :
    faultsOf [sharingCall (.int 1) (some 5), sharingCall (.int 2) none] =
        [some "CancelledError", some "CancelledError"] ∧
      faultsOf [sharingCall (.int 1) none, sharingCall (.int 2) none] = [none, none] ∧
      faultsOf [sharingCall (.int 2) none] = [none] := by
  decide +kernel

end Sample

end Recast
