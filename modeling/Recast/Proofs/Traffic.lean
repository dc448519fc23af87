import Recast.Proofs.Performance
import Recast.Session

/-!
Calls of mappers in any order. Mappers may be the computes of other mappers, in as many layers as
there are (`Mapper.Layered`); any number of calls are made at any time, and their processes move in
any order (`Traffic.Step`). When this is so for the computes that are no mappers, all that happens
is a run of steps of a scene (`Traffic.Cast.exists_run`).
-/

set_option autoImplicit false

namespace Recast

/-! ### Layers -/

/-- What a rule obtains without waiting is no awaitable. -/
theorem Rule.isAwaitable_of_obtainSync {r : Rule} {source v : Value} {m m' : Machine}
    (h : m.run (r.obtainSync source) = (m', .settled (.ok v))) : v.isAwaitable = false := by
  obtain ⟨m₁, o, _, hrest⟩ := Machine.exists_of_run_bind h
  cases o with
  | error e => cases hrest
  | ok w =>
    dsimp only at hrest
    by_cases hw : w.isAwaitable = true
    · rw [if_pos hw] at hrest
      cases hrest
    · rw [if_neg hw] at hrest
      cases hrest
      exact Bool.eq_false_iff.mpr hw

/-- A mapper in layers: each of its computes is a leaf or a mapper in layers. An asynchronous mapper
may use synchronous ones. -/
inductive Mapper.Layered (admits : Mapper → Mapper.Kind → Prop) (leaf : Mapper.Kind → Rule → Prop) :
    Mapper → Mapper.Kind → Prop
  | intro {mapper : Mapper} {kind : Mapper.Kind} (inner : Rule → Option (Mapper × Mapper.Kind))
      (hadmits : admits mapper kind)
      (hleaf : ∀ r ∈ mapper.rules, inner r = none → leaf kind r)
      (hkind : ∀ r ∈ mapper.rules, ∀ q, inner r = some q → q.2 = kind ∨ q.2 = .synchronous)
      (hcompute : ∀ r ∈ mapper.rules, ∀ q, inner r = some q → r.compute = q.1.compute q.2)
      (hinner : ∀ r ∈ mapper.rules, ∀ q, inner r = some q → Layered admits leaf q.1 q.2) :
    Layered admits leaf mapper kind

namespace Setting

variable {S : Setting} {inv : Scene → Prop} {a : List ℕ} {inner : Mapper} {source : Value}
  {sources : Set Value} {r : Rule}

/-- Where a rule works, its compute serves it in a mapper of the kind that is called with any of the
sources. -/
def Works (S : Setting) (inv : Scene → Prop) (sources : Set Value) (kind : Mapper.Kind) (r : Rule) :
    Prop :=
  ∀ a, ∀ source ∈ sources, match kind with
    | .asynchronous => S.Serves inv a r (r.evaluate source)
    | .synchronous => S.ServesAtOnce inv a r (r.obtainSync source)

/-- A rule with an inner mapper takes what the call of that gives. -/
def Passes (S : Setting) (r : Rule) (inner : Mapper) (kind : Mapper.Kind) : Prop :=
  (∀ m, S.opens r m m) ∧
    ∀ a source σ o, Stands inner kind source a (.settled o) σ → S.gives r a σ o

theorem serves_asynchronous (hr : r.compute = inner.compute .asynchronous)
    (hpasses : S.Passes r inner .asynchronous)
    (h : S.Performs inv inner .asynchronous source a (inner.transform source).asCoroutine) :
    S.Serves inv a r (r.evaluate source) := by
  have hevaluate : r.evaluate source = (inner.transform source).asCoroutine := by
    rw [Rule.evaluate, hr]
    rfl
  exact hevaluate ▸ h.serves hpasses.1 (hpasses.2 a source)

theorem serves_synchronous (hr : r.compute = inner.compute .synchronous)
    (hpasses : S.Passes r inner .synchronous)
    (h : S.PerformsAtOnce inv inner .synchronous source a (inner.transformSync source)) :
    S.Serves inv a r (r.evaluate source) := by
  have hevaluate : r.evaluate source = (inner.transformSync source).andThen Compute.await := by
    rw [Rule.evaluate, hr]
    rfl
  rw [hevaluate]
  refine (h.performs fun m m' o hrun hv ↦ ?_).serves hpasses.1 (hpasses.2 a source)
  rw [Prog.andThen, Machine.run_bind, hrun, Machine.goOn]
  cases o with
  | error e => rfl
  | ok v =>
    dsimp only
    rw [Compute.await, hv v rfl]
    rfl

theorem servesAtOnce_synchronous (hr : r.compute = inner.compute .synchronous)
    (hpasses : S.Passes r inner .synchronous)
    (h : S.PerformsAtOnce inv inner .synchronous source a (inner.transformSync source)) :
    S.ServesAtOnce inv a r (r.obtainSync source) := by
  have hobtain : r.obtain source = inner.transformSync source := by
    rw [Rule.obtain, hr]
    rfl
  have hperforms : S.PerformsAtOnce inv inner .synchronous source a (r.obtainSync source) := by
    intro σ hσ hvacant
    obtain ⟨τ, o, hwithin, hrun, hstands, hv⟩ := h σ hσ hvacant
    refine ⟨τ, o, hwithin, ?_, hstands, hv⟩
    rw [Rule.obtainSync, hobtain, Prog.andThen, Machine.run_bind, hrun, Machine.goOn]
    cases o with
    | error e => rfl
    | ok v =>
      dsimp only
      rw [hv v rfl]
      rfl
  exact hperforms.servesAtOnce hpasses.1 (hpasses.2 a source)

/-- What holds of a setting in which mappers in layers act in steps when they are called with any of
the sources. -/
structure Hosts (S : Setting) (inv : Scene → Prop) (sources : Set Value)
    (leaf : Mapper.Kind → Rule → Prop) : Prop where
  keeps : S.Keeps inv
  count : ∀ (m : Machine) id, S.quiet m { m with store := { m.store with nextId := id } }
  rules : ∀ mapper kind, S.admits mapper kind → mapper.rules ≠ []
  works : ∀ mapper kind, S.admits mapper kind → ∀ r ∈ mapper.rules, leaf kind r →
    S.Works inv sources kind r
  passes : ∀ mapper kind, S.admits mapper kind → ∀ r ∈ mapper.rules, ∀ inner k,
    r.compute = Mapper.compute inner k → S.Passes r inner k

variable {leaf : Mapper.Kind → Rule → Prop}

/-- A mapper in layers acts in steps. -/
theorem Hosts.performs (hS : S.Hosts inv sources leaf) {mapper : Mapper} {kind : Mapper.Kind}
    (h : Mapper.Layered S.admits leaf mapper kind) (hsource : source ∈ sources) :
    (kind = .asynchronous → ∀ a, S.Performs inv mapper .asynchronous source a
      (mapper.transform source).asCoroutine) ∧
    (kind = .synchronous → ∀ a, S.PerformsAtOnce inv mapper .synchronous source a
      (mapper.transformSync source)) := by
  induction h with
  | @intro mapper kind inner hadmits hleaf hkind hcompute _ ih =>
    constructor
    · rintro rfl a
      refine (performs_transform hS.keeps hadmits (hS.rules _ _ hadmits)
        fun i r hi ↦ ?_).asCoroutine hS.keeps hS.count
      have hr := List.mem_of_getElem? hi
      cases hinner : inner r with
      | none => exact hS.works _ _ hadmits r hr (hleaf r hr hinner) (a ++ [i]) source hsource
      | some q =>
        obtain ⟨inside, k⟩ := q
        have hpasses := hS.passes _ _ hadmits r hr _ _ (hcompute r hr _ hinner)
        have hih := ih r hr _ hinner
        cases k with
        | asynchronous =>
          exact serves_asynchronous (hcompute r hr _ hinner) hpasses (hih.1 rfl (a ++ [i]))
        | synchronous =>
          exact serves_synchronous (hcompute r hr _ hinner) hpasses (hih.2 rfl (a ++ [i]))
    · rintro rfl a
      refine performsAtOnce_transformSync hS.keeps hadmits fun i r hi ↦ ?_
      have hr := List.mem_of_getElem? hi
      cases hinner : inner r with
      | none => exact hS.works _ _ hadmits r hr (hleaf r hr hinner) (a ++ [i]) source hsource
      | some q =>
        obtain ⟨inside, k⟩ := q
        obtain rfl : k = .synchronous := (hkind r hr _ hinner).elim id id
        exact servesAtOnce_synchronous (hcompute r hr _ hinner)
          (hS.passes _ _ hadmits r hr _ _ (hcompute r hr _ hinner))
          ((ih r hr _ hinner).2 rfl (a ++ [i]))

end Setting

/-! ### Traffic -/

/-- The function of a mapper of a kind. -/
def Mapper.function (mapper : Mapper) : Mapper.Kind → Function
  | .asynchronous => Session.asyncFunction mapper
  | .synchronous => Session.syncFunction mapper

/-- A call of a mapper with a source, and its process. -/
structure Call where
  mapper : Mapper
  kind : Mapper.Kind
  source : Value
  proc : Proc

/-- A call that was just made. -/
def Call.made (mapper : Mapper) (kind : Mapper.Kind) (source : Value) : Call :=
  ⟨mapper, kind, source, .fresh ((mapper.function kind).run [source])⟩

/-- A machine and the calls that were made on it. -/
structure Traffic where
  machine : Machine
  calls : List Call

namespace Traffic

/-- One thing that happens: a call is made with a source with which it may be made, a call goes on,
or something else changes the machine. -/
inductive Step (callable : Mapper → Mapper.Kind → Value → Prop)
    (quiet : Machine → Machine → Prop) : Traffic → Traffic → Prop
  | call {T : Traffic} {mapper : Mapper} {kind : Mapper.Kind} {source : Value}
      (h : callable mapper kind source) :
    Step callable quiet T ⟨T.machine, T.calls ++ [.made mapper kind source]⟩
  | move {m m' : Machine} {before after : List Call} {c : Call} {q : Proc}
      (h : Machine.Move m c.proc m' q) :
    Step callable quiet ⟨m, before ++ c :: after⟩ ⟨m', before ++ { c with proc := q } :: after⟩
  | other {T : Traffic} {m : Machine} (h : quiet T.machine m) : Step callable quiet T ⟨m, T.calls⟩

/-- Things that happen one after the other. -/
def Run (callable : Mapper → Mapper.Kind → Value → Prop) (quiet : Machine → Machine → Prop) :
    Traffic → Traffic → Prop :=
  Relation.ReflTransGen (Step callable quiet)

end Traffic

/-- The scene tells of the calls that were made: each stands at its number, if it has begun. -/
structure Scene.Tells (σ : Scene) (T : Traffic) : Prop where
  machine_eq : σ.machine = T.machine
  stands : ∀ n c, T.calls[n]? = some c → σ.activation [n] ≠ none →
    Setting.Stands c.mapper c.kind c.source [n] c.proc σ
  begun : ∀ n c, T.calls[n]? = some c → σ.activation [n] = none →
    c.proc = .fresh ((c.mapper.function c.kind).run [c.source])
  unmade : ∀ n, T.calls.length ≤ n → σ.activation [n] = none

namespace Traffic

variable {S : Setting} {inv : Scene → Prop} {sources : Set Value}
  {leaf : Mapper.Kind → Rule → Prop}

/-- The call has not begun, or its process is in a good state at its address. -/
def OnStage (S : Setting) (inv : Scene → Prop) (n : ℕ) (c : Call) (σ : Scene) : Prop :=
  c.proc = .fresh ((c.mapper.function c.kind).run [c.source]) ∧ σ.IsFree [n] ∨
    ∃ good, S.Performer inv [n] (Setting.Stands c.mapper c.kind c.source [n]) good ∧ good c.proc σ

/-- A scene that tells of the calls that were made. -/
structure Cast (S : Setting) (inv : Scene → Prop) (sources : Set Value)
    (leaf : Mapper.Kind → Rule → Prop) (σ : Scene) (T : Traffic) : Prop where
  machine_eq : σ.machine = T.machine
  holds : inv σ
  rootless : σ.activation [] = none
  free : ∀ n, T.calls.length ≤ n → σ.IsFree [n]
  layered : ∀ c ∈ T.calls, c.source ∈ sources ∧ Mapper.Layered S.admits leaf c.mapper c.kind
  onStage : ∀ n c, T.calls[n]? = some c → OnStage S inv n c σ

theorem OnStage.of_beside {n : ℕ} {c : Call} {σ τ : Scene} (h : OnStage S inv n c σ) (hσ : inv σ)
    (hbeside : S.Beside [n] σ τ) : OnStage S inv n c τ := by
  rcases h with ⟨hfresh, hfree⟩ | ⟨good, hgood, hc⟩
  · exact Or.inl ⟨hfresh, hbeside.isFree hfree⟩
  · exact Or.inr ⟨good, hgood, hgood.undisturbed hc hσ hbeside⟩

/-- A call that has begun stands at its address. -/
theorem OnStage.stands {n : ℕ} {c : Call} {σ : Scene} (h : OnStage S inv n c σ) (hσ : inv σ)
    (hbegun : σ.activation [n] ≠ none) : Setting.Stands c.mapper c.kind c.source [n] c.proc σ := by
  rcases h with ⟨_, hfree⟩ | ⟨good, hgood, hc⟩
  · exact absurd (hfree [n] (List.prefix_refl _)) hbegun
  · exact hgood.tells hc hσ

theorem OnStage.move (hS : S.Hosts inv sources leaf) {n : ℕ} {c : Call} {σ : Scene}
    (hlayered : c.source ∈ sources ∧ Mapper.Layered S.admits leaf c.mapper c.kind)
    (h : OnStage S inv n c σ)
    (hσ : inv σ) (hbare : σ.activation [] = none) {m : Machine} {q : Proc}
    (hmove : Machine.Move σ.machine c.proc m q) :
    ∃ τ, S.Within [n] σ τ ∧ τ.machine = m ∧ OnStage S inv n { c with proc := q } τ := by
  rcases h with ⟨hfresh, hfree⟩ | ⟨good, hgood, hc⟩
  · rw [hfresh] at hmove
    cases hmove with
    | start hrun =>
      have hperforms : S.Performs inv c.mapper c.kind c.source [n]
          ((c.mapper.function c.kind).run [c.source]) := by
        have hall := hS.performs hlayered.2 hlayered.1
        cases hkind : c.kind with
        | asynchronous => exact hall.1 hkind [n]
        | synchronous => exact (hall.2 hkind [n]).performs fun _ _ _ hrun _ ↦ hrun
      -- no rule waits for a call that is made from outside
      have hawaited : σ.IsAwaited [n] := by
        intro b i x hb hx
        obtain ⟨rfl, _⟩ := List.append_inj' ((List.nil_append [n]).trans hb) rfl
        exact absurd (hbare.symm.trans hx) (Option.some_ne_none x).symm
      obtain ⟨good, hgood, hstarts⟩ := hperforms
      obtain ⟨τ, hwithin, hm, hq⟩ := hstarts σ m q hσ ⟨hfree, hawaited⟩ hrun
      exact ⟨τ, hwithin, hm, Or.inr ⟨good, hgood, hq⟩⟩
  · obtain ⟨τ, hwithin, hm, hq⟩ := hgood.move hc hσ hmove
    exact ⟨τ, hwithin, hm, Or.inr ⟨good, hgood, hq⟩⟩

namespace Cast

variable {σ : Scene} {T U : Traffic} {callable : Mapper → Mapper.Kind → Value → Prop}

/-- Before anything was called. -/
theorem bare {m : Machine} (h : inv (.bare m)) : Cast S inv sources leaf (.bare m) ⟨m, []⟩ where
  machine_eq := rfl
  holds := h
  rootless := rfl
  free _ _ _ _ := rfl
  layered := nofun
  onStage := nofun

theorem tells (h : Cast S inv sources leaf σ T) : σ.Tells T where
  machine_eq := h.machine_eq
  stands n c hc hbegun := (h.onStage n c hc).stands h.holds hbegun
  begun n c hc hnone := by
    rcases h.onStage n c hc with ⟨hfresh, _⟩ | ⟨good, hgood, hproc⟩
    · exact hfresh
    · obtain ⟨x, hx, _⟩ := hgood.tells hproc h.holds
      exact absurd (hnone.symm.trans hx) (Option.some_ne_none x).symm
  unmade n hn := h.free n hn [n] (List.prefix_refl _)

/-- One thing that happens is a run of steps of the scene. -/
theorem exists_step (hS : S.Hosts inv sources leaf)
    (hcallable : ∀ mapper kind source, callable mapper kind source →
      source ∈ sources ∧ Mapper.Layered S.admits leaf mapper kind)
    (h : Cast S inv sources leaf σ T) (hstep : Step callable S.quiet T U) :
    ∃ τ, S.Run σ τ ∧ Cast S inv sources leaf τ U := by
  cases hstep with
  | @call _ mapper kind source hc =>
    refine ⟨σ, .refl, h.machine_eq, h.holds, h.rootless, ?_, ?_, ?_⟩
    · intro n hn
      rw [List.length_append] at hn
      exact h.free n (by omega)
    · exact List.forall_mem_append.mpr
        ⟨h.layered, List.forall_mem_singleton.mpr (hcallable mapper kind source hc)⟩
    · intro n c hn
      rcases Nat.lt_or_ge n T.calls.length with hlt | hge
      · rw [List.getElem?_append_left hlt] at hn
        exact h.onStage n c hn
      · rw [List.getElem?_append_right hge, List.getElem?_singleton] at hn
        split_ifs at hn
        cases hn
        exact Or.inl ⟨rfl, h.free n hge⟩
  | @move m m' before after c q hmove =>
    have hlayered := h.layered c (by simp)
    have hc := h.onStage before.length c (by simp)
    have hm₀ : σ.machine = m := h.machine_eq
    rw [← hm₀] at hmove
    obtain ⟨τ, hwithin, hm, hq⟩ := hc.move hS hlayered h.holds h.rootless hmove
    have hbeside : ∀ n, before.length ≠ n → S.Beside [n] σ τ := fun n hn ↦
      Setting.Within.beside (a := []) hwithin hn
    have hbare : τ.activation [] = none := by
      refine (hwithin.same [] fun hprefix ↦ ?_).trans h.rootless
      exact List.cons_ne_nil _ _ (List.prefix_nil.mp hprefix)
    refine ⟨τ, hwithin.run, hm, hS.keeps.run h.holds hwithin.run, hbare, ?_, ?_, ?_⟩
    · intro n hn
      have hlt : before.length < n := by
        rw [List.length_append, List.length_cons] at hn
        omega
      refine (hbeside n hlt.ne).isFree (h.free n ?_)
      simpa using hn
    · intro c' hc'
      rcases List.mem_append.mp hc' with hmem | hmem
      · exact h.layered c' (List.mem_append_left _ hmem)
      · rcases List.mem_cons.mp hmem with rfl | hmem
        · exact hlayered
        · exact h.layered c' (List.mem_append_right _ (List.mem_cons_of_mem _ hmem))
    · intro n c' hn
      by_cases hsame : before.length = n
      · subst hsame
        rw [List.getElem?_append_right le_rfl, Nat.sub_self] at hn
        cases hn
        exact hq
      · have hset : before ++ { c with proc := q } :: after =
            (before ++ c :: after).set before.length { c with proc := q } := by simp
        rw [hset, List.getElem?_set_ne hsame] at hn
        exact (h.onStage n c' hn).of_beside h.holds (hbeside n hsame)
  | @other _ m hquiet =>
    have hstep : S.Step σ ⟨m, σ.activation⟩ := .other (h.machine_eq.symm ▸ hquiet)
    have hbeside : ∀ n, S.Beside [n] σ ⟨m, σ.activation⟩ := fun n ↦ ⟨.single hstep, fun _ _ ↦ rfl⟩
    exact ⟨_, .single hstep, rfl, hS.keeps _ _ h.holds hstep, h.rootless,
      fun n hn ↦ (hbeside n).isFree (h.free n hn), h.layered,
      fun n c hn ↦ (h.onStage n c hn).of_beside h.holds (hbeside n)⟩

/-- Whatever happens is a run of steps of the scene. -/
theorem exists_run (hS : S.Hosts inv sources leaf)
    (hcallable : ∀ mapper kind source, callable mapper kind source →
      source ∈ sources ∧ Mapper.Layered S.admits leaf mapper kind)
    (h : Cast S inv sources leaf σ T) (hrun : Run callable S.quiet T U) :
    ∃ τ, S.Run σ τ ∧ Cast S inv sources leaf τ U := by
  induction hrun with
  | refl => exact ⟨σ, .refl, h⟩
  | tail _ hstep ih =>
    obtain ⟨τ, hbefore, hcast⟩ := ih
    obtain ⟨υ, hlast, hcast'⟩ := hcast.exists_step hS hcallable hstep
    exact ⟨υ, hbefore.trans hlast, hcast'⟩

end Cast

end Traffic

end Recast
