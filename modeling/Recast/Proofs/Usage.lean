import Recast.Proofs.Registration
import Recast.Session

/-!
A builder in use. Computes are offered for slots, transforms are made, and the transforms made so
far are called, alone or side by side; all of this happens in any order, and any of it may fail.
However a new builder is used, its rules go together, and their keys are among those it has claimed;
while every offer can be looked at, they are all that it has claimed
(`Usage.builder_fits_together`). An offer that cannot be looked at claims its slot all the same
(`Usage.strayUse_claims_without_rule`). As to its rules, a builder in use is always one that
accepted registrations lead to (`Usage.exists_registered`), so what is shown of the mappers of those
holds of its mappers.
-/

set_option autoImplicit false

namespace Recast

/-- A builder with the transforms made from it so far, on a machine. -/
structure Usage where
  builder : Builder
  transforms : List Function
  machine : Machine

namespace Usage

/-- A call of one of the transforms made so far: its position, the source, and when to cancel. -/
structure Call where
  position : ℕ
  source : Value
  limit : Option ℕ

/-- One thing that is done. Calls that are made together run side by side. -/
inductive Operation where
  | register (kind : Slot.Kind) (d : Slot.Descriptor) (o : Offer)
  | build (asynchronous : Bool)
  | call (calls : List Call)

/-- The descriptor of a registration is a text, a valid slot, or something that is neither. -/
def Operation.IsValid : Operation → Prop
  | register _ d _ => d.IsValid
  | build _ | call _ => True

/-- What is offered by a registration can be looked at. -/
def Operation.IsClear : Operation → Prop
  | register _ _ (.clear _) => True
  | register _ _ _ => False
  | build _ | call _ => True

/-- A builder that was just made. -/
def start (id : ℕ) (source target : String) (m : Machine) : Usage :=
  ⟨Builder.empty id source target, [], m⟩

/-- Give up the awaitable of a refused registration. -/
def giveUp (o : Offer) (m : Machine) : Machine :=
  match o with
  | .clear (.literal v) => if v.isAwaitable then (m.run (.close v (Prog.give .null))).1 else m
  | _ => m

/-- Offer a compute for a slot, and go on with the builder that is left. -/
def register (u : Usage) (kind : Slot.Kind) (d : Slot.Descriptor) (o : Offer) : Usage :=
  match u.machine.act (u.builder.offerLogged kind d o) with
  | (.ok b, m) => { u with builder := b, machine := m }
  | (.error _, m) => { u with builder := u.builder.left kind d o, machine := giveUp o m }

/-- Make a transform from the rules registered so far. -/
def build (u : Usage) (asynchronous : Bool) : Usage :=
  let make := if asynchronous then u.builder.buildLogged else u.builder.buildSyncLogged
  let function := if asynchronous then Session.asyncFunction else Session.syncFunction
  match u.machine.act make with
  | (.ok mapper, m) => { u with transforms := u.transforms ++ [function mapper], machine := m }
  | (.error _, m) => { u with machine := m }

/-- Begin calls in order: those of synchronous transforms run on the spot, the others are left to
wait for. -/
def begin (transforms : List Function) : List Call → Machine → Machine × List Leg
  | [], m => (m, [])
  | c :: rest, m =>
    match transforms[c.position]? with
    | none => begin transforms rest m
    | some f =>
      if f.asynchronous then
        let leg := Leg.start (f.run [c.source]) m.store.now c.limit
        let (m, legs) := begin transforms rest m
        (m, leg :: legs)
      else begin transforms rest (m.run (f.run [c.source])).1

/-- Make calls side by side and wait for all of them. -/
def call (u : Usage) (calls : List Call) : Usage :=
  let (m, legs) := begin u.transforms calls u.machine
  { u with machine := (Machine.settle Machine.roundLimit m legs).1 }

/-- Do one thing. -/
def step (u : Usage) : Operation → Usage
  | .register kind d o => u.register kind d o
  | .build asynchronous => u.build asynchronous
  | .call calls => u.call calls

theorem builder_build (u : Usage) (asynchronous : Bool) :
    (u.build asynchronous).builder = u.builder := by
  unfold build
  dsimp only
  split <;> rfl

/-- A registration ends in the builder that the offer leaves. -/
theorem builder_register (u : Usage) (kind : Slot.Kind) (d : Slot.Descriptor) (o : Offer) :
    (u.register kind d o).builder = u.builder.left kind d o := by
  rw [register, Builder.offerLogged, Builder.left]
  rcases u.builder.offer kind d o with ⟨_ | e, b⟩
  · cases hlast : b.rules.getLast? <;>
      simp [Machine.act, hlast, Action.done, Action.bind, Action.report, Action.change]
  · rfl

/-- Whatever is done, the rules stay among what is claimed. -/
theorem covered_step {u : Usage} (hu : u.builder.Covered) {op : Operation} (hop : op.IsValid) :
    (u.step op).builder.Covered := by
  cases op with
  | register kind d o => exact builder_register u kind d o ▸ hu.left kind hop o
  | build asynchronous => exact (builder_build u asynchronous).symm ▸ hu
  | call calls => exact hu

theorem covered_foldl (ops : List Operation) (hops : ∀ op ∈ ops, op.IsValid) {u : Usage}
    (hu : u.builder.Covered) : (ops.foldl step u).builder.Covered := by
  induction ops generalizing u with
  | nil => exact hu
  | cons op rest ih =>
    exact ih (fun other hmem ↦ hops other (List.mem_cons_of_mem op hmem))
      (covered_step hu (hops op List.mem_cons_self))

/-- Whatever is done with offers that can be looked at, a consistent builder stays consistent. -/
theorem consistent_step {u : Usage} (hu : u.builder.Consistent) {op : Operation}
    (hop : op.IsValid) (hclear : op.IsClear) : (u.step op).builder.Consistent := by
  cases op with
  | register kind d o =>
    change (u.register kind d o).builder.Consistent
    rw [builder_register]
    rcases u.builder.left_cases kind d o with ⟨c, _, hnew⟩ | hsame | ⟨s, _, hstray, _⟩
    · exact hu.register hop hnew
    · exact hsame.symm ▸ hu
    · cases o with
      | clear c => exact absurd rfl (hstray c)
      | masked | veiled => cases hclear
  | build asynchronous => exact (builder_build u asynchronous).symm ▸ hu
  | call calls => exact hu

theorem consistent_foldl (ops : List Operation) (hops : ∀ op ∈ ops, op.IsValid)
    (hclear : ∀ op ∈ ops, op.IsClear) {u : Usage} (hu : u.builder.Consistent) :
    (ops.foldl step u).builder.Consistent := by
  induction ops generalizing u with
  | nil => exact hu
  | cons op rest ih =>
    exact ih (fun other hmem ↦ hops other (List.mem_cons_of_mem op hmem))
      (fun other hmem ↦ hclear other (List.mem_cons_of_mem op hmem))
      (consistent_step hu (hops op List.mem_cons_self) (hclear op List.mem_cons_self))

/-- However a new builder is used, its rules are those of a builder of the same name that accepted
registrations lead to. -/
theorem exists_registered (id : ℕ) (source target : String) (m : Machine) (ops : List Operation)
    (hops : ∀ op ∈ ops, op.IsValid) :
    ∃ slots, ({ (ops.foldl step (start id source target m)).builder with slots := slots } :
      Builder).Registered := by
  have hstep : ∀ (ops : List Operation) (u : Usage), (∀ op ∈ ops, op.IsValid) →
      u.builder.Covered → (∃ slots, ({ u.builder with slots := slots } : Builder).Registered) →
      ∃ slots, ({ (ops.foldl step u).builder with slots := slots } : Builder).Registered := by
    intro ops
    induction ops with
    | nil => exact fun u _ _ h ↦ h
    | cons op rest ih =>
      intro u hops hu h
      obtain ⟨hop, hrest⟩ := List.forall_mem_cons.mp hops
      refine ih (u.step op) hrest (covered_step hu hop) ?_
      cases op with
      | register kind d o =>
        exact builder_register u kind d o ▸ hu.exists_registered_left h kind hop o
      | build asynchronous => exact (builder_build u asynchronous).symm ▸ h
      | call calls => exact h
  exact hstep ops _ hops (Builder.consistent_empty id source target).covered
    ⟨[], .empty id source target⟩

/-- However a new builder is used, its rules go together, and the first of them alone decides
rightly what its mappers give. When all that was offered could be looked at, what it has claimed is
just the slots of its rules. -/
theorem builder_fits_together (id : ℕ) (source target : String) (m : Machine)
    (ops : List Operation) (hops : ∀ op ∈ ops, op.IsValid) :
    (ops.foldl step (start id source target m)).builder.Fits ∧
      ((∀ op ∈ ops, op.IsClear) →
        (ops.foldl step (start id source target m)).builder.FitsTogether) := by
  have hempty := Builder.consistent_empty id source target
  exact ⟨(covered_foldl ops hops hempty.covered).fits,
    fun hclear ↦ (consistent_foldl ops hops hclear hempty).fitsTogether⟩

/-- A use with accepted and refused registrations, in between a mapper that is made and called. -/
def mixedUse : List Operation :=
  [.register .field (.text " contact.phone ") (.clear (.literal (.text "1"))),
    .register .field (.text "contact") (.clear (.literal .null)),
    .register .whole (.other "7") (.clear (.literal .null)),
    .build false,
    .call [⟨0, .int 1, none⟩, ⟨0, .null, some 5⟩],
    .register .whole (.text "target") (.clear (.literal .null)),
    .register .field (.slot ⟨["contact", "name"]⟩) (.clear .stream),
    .build true]

theorem mixedUse_fits_together :
    (∀ op ∈ mixedUse, op.IsValid) ∧ (∀ op ∈ mixedUse, op.IsClear) ∧
      (mixedUse.foldl step (start 0 "Source" "Target" Machine.empty)).builder.keys =
        ["target.contact.phone", "target.contact.name"] ∧
      (mixedUse.foldl step (start 0 "Source" "Target" Machine.empty)).builder.FitsTogether := by
  have hops : ∀ op ∈ mixedUse, op.IsValid := by
    simp [mixedUse, Operation.IsValid, Slot.Descriptor.IsValid]
    decide
  have hclear : ∀ op ∈ mixedUse, op.IsClear := by simp [mixedUse, Operation.IsClear]
  exact ⟨hops, hclear, by decide +kernel,
    (builder_fits_together 0 "Source" "Target" Machine.empty _ hops).2 hclear⟩

/-- The one thing offered is an object with a property in place of its class, which holds
nothing. -/
def strayUse : List Operation :=
  [.register .field (.text "x")
    (.masked (Fault.typeError "issubclass() arg 1 must be a class"))]

/-- The slot has been claimed, and there is no rule for it. -/
theorem strayUse_claims_without_rule :
    (∀ op ∈ strayUse, op.IsValid) ∧
      (strayUse.foldl step (start 0 "Source" "Target" Machine.empty)).builder.keys =
        ["target.x"] ∧
      (strayUse.foldl step (start 0 "Source" "Target" Machine.empty)).builder.rules.length = 0 ∧
      ¬ (strayUse.foldl step (start 0 "Source" "Target" Machine.empty)).builder.FitsTogether := by
  have hkeys : (strayUse.foldl step (start 0 "Source" "Target" Machine.empty)).builder.keys =
      ["target.x"] := by decide +kernel
  have hrules : (strayUse.foldl step
      (start 0 "Source" "Target" Machine.empty)).builder.rules.length = 0 := by decide +kernel
  refine ⟨by simp [strayUse, Operation.IsValid, Slot.Descriptor.IsValid], hkeys, hrules,
    fun hfits ↦ ?_⟩
  have hlength := congrArg List.length hfits.keys_eq
  rw [hkeys, List.length_map, hrules] at hlength
  cases hlength

end Usage

end Recast
