import Recast.Proofs.Nesting

/-!
Scenes: a machine together with all calls of mappers, as far as they have come. A call that has
begun is an activation; it stands at an address, the number of the call followed by the positions of
the rules whose computes lead to it, so that a mapper that is the compute of a rule stands below the
mapper of the rule. A scene changes in small steps (`Setting.Step`), each of which is one thing that
a mapper does: to make its target, to begin a compute, to write a value that was computed, to
conclude. What computes do otherwise, and what else goes on, is left to the setting. Steps touch one
activation each; `Setting.Within` and `Setting.Beside` say where a run of steps has touched any.
-/

set_option autoImplicit false

namespace Recast

/-! ### Activations -/

/-- A target that was made: how many records there were before, and the store right after. -/
structure Making where
  target : Value
  before : ℕ
  built : Store

/-- The records that were made with the target. -/
def Making.region (t : Making) : Set ℕ := Set.Ico t.before t.built.records.size

/-- How far a rule has come: it waits for its turn, its compute is under way, or it has ended, with
what the compute gave and what became of that. -/
inductive Progress where
  | waiting
  | computing
  | ended (given result : Outcome)

/-- A call of a mapper with a source as far as it has come: the target, once it is made, with the
progress of the rules, and the outcome, once there is one. -/
structure Activation where
  mapper : Mapper
  kind : Mapper.Kind
  source : Value
  made : Option Making
  progress : List Progress
  outcome : Option Outcome

/-- What a rule of a mapper of a kind does with the outcome of its compute. -/
def Rule.complete (r : Rule) (target : Value) : Mapper.Kind → Outcome → Prog
  | .asynchronous, o => r.finish target o
  | .synchronous, .ok v => r.write target v
  | .synchronous, .error e => Prog.raise e

namespace Activation

/-- A call that has done nothing yet. -/
def called (mapper : Mapper) (kind : Mapper.Kind) (source : Value) : Activation :=
  ⟨mapper, kind, source, none, [], none⟩

/-- The call has neither made a target nor ended. -/
def IsNew (x : Activation) : Prop := x.made = none ∧ x.outcome = none

/-- A call whose target has just been made. -/
def begun (x : Activation) (t : Making) : Activation :=
  { x with made := some t, progress := x.mapper.rules.map fun _ ↦ .waiting }

/-- A call with the progress of one rule set. -/
def advance (x : Activation) (i : ℕ) (p : Progress) : Activation :=
  { x with progress := x.progress.set i p }

theorem progress_advance_self {x : Activation} {i : ℕ} {before : Progress}
    (h : x.progress[i]? = some before) (g : Progress) :
    (x.advance i g).progress[i]? = some g :=
  List.getElem?_set_self (List.getElem?_eq_some_iff.mp h).1

theorem progress_advance_of_ne (x : Activation) {i j : ℕ} (h : i ≠ j) (g : Progress) :
    (x.advance i g).progress[j]? = x.progress[j]? :=
  List.getElem?_set_ne h

/-- A call that has ended. -/
def close (x : Activation) (o : Outcome) : Activation := { x with outcome := some o }

/-- What a call ends in by the outcomes of its rules. The asynchronous mapper waits for all of them,
the synchronous one stops at the first failure. -/
inductive Concludes (x : Activation) : Outcome → Prop
  | gathered {t : Making} {ends : List (Outcome × Outcome)} (hkind : x.kind = .asynchronous)
      (ht : x.made = some t) (hends : x.progress = ends.map fun e ↦ .ended e.1 e.2) :
    Concludes x (x.mapper.concluded t.target (ends.map Prod.snd))
  | stopped {t : Making} {i : ℕ} {given : Outcome} {e : Raised} (hkind : x.kind = .synchronous)
      (ht : x.made = some t) (hi : x.progress[i]? = some (.ended given (.error e))) :
    Concludes x (.error e)
  | filled {t : Making} {ends : List (Outcome × Value)} (hkind : x.kind = .synchronous)
      (ht : x.made = some t) (hends : x.progress = ends.map fun e ↦ .ended e.1 (.ok e.2)) :
    Concludes x (.ok (x.mapper.result t.target (ends.map Prod.snd)))

end Activation

/-! ### Scenes -/

/-- A machine, and the calls that have begun by their addresses. -/
structure Scene where
  machine : Machine
  activation : List ℕ → Option Activation

namespace Scene

/-- Nothing has been called. -/
def bare (m : Machine) : Scene := ⟨m, fun _ ↦ none⟩

/-- The scene with an activation and the machine replaced. -/
def put (σ : Scene) (a : List ℕ) (x : Activation) (m : Machine) : Scene :=
  ⟨m, Function.update σ.activation a (some x)⟩

/-- No call has begun at an address or below. -/
def IsFree (σ : Scene) (a : List ℕ) : Prop := ∀ b, a <+: b → σ.activation b = none

/-- The compute of the rule that an address is for, if it is for one, is under way. -/
def IsAwaited (σ : Scene) (a : List ℕ) : Prop :=
  ∀ b i x, a = b ++ [i] → σ.activation b = some x → x.progress[i]? = some .computing

/-- A call can be made at an address. -/
def IsVacant (σ : Scene) (a : List ℕ) : Prop := σ.IsFree a ∧ σ.IsAwaited a

@[simp] theorem activation_put_self (σ : Scene) (a : List ℕ) (x : Activation) (m : Machine) :
    (σ.put a x m).activation a = some x := Function.update_self ..

theorem isAwaited_of_computing {σ : Scene} {a : List ℕ} {i : ℕ} {x : Activation}
    (hx : σ.activation a = some x) (hi : x.progress[i]? = some .computing) :
    σ.IsAwaited (a ++ [i]) := by
  intro b j y hb hy
  obtain ⟨rfl, hij⟩ := List.append_inj' hb rfl
  cases hij
  cases hx.symm.trans hy
  exact hi

theorem activation_put_of_ne (σ : Scene) {a b : List ℕ} (h : b ≠ a) (x : Activation) (m : Machine) :
    (σ.put a x m).activation b = σ.activation b := Function.update_of_ne h ..

end Scene

/-- What scenes are about: which mappers may be called, what computes and others may do to the
machine, how the compute of a rule begins, and in what it may end at its address. -/
structure Setting where
  admits : Mapper → Mapper.Kind → Prop
  quiet : Machine → Machine → Prop
  opens : Rule → Machine → Machine → Prop
  gives : Rule → List ℕ → Scene → Outcome → Prop

namespace Setting

variable {S : Setting}

/-- One step of a scene. -/
inductive Step (S : Setting) : Scene → Scene → Prop
  | other {σ : Scene} {m : Machine} (h : S.quiet σ.machine m) : Step S σ ⟨m, σ.activation⟩
  | call {σ : Scene} {a : List ℕ} {mapper : Mapper} {kind : Mapper.Kind} {source : Value}
      (ha : σ.activation a = none) (hawaited : σ.IsAwaited a) (hadmits : S.admits mapper kind) :
    Step S σ (σ.put a (.called mapper kind source) σ.machine)
  | absent {σ : Scene} {a : List ℕ} {x : Activation} (hx : σ.activation a = some x)
      (hnew : x.IsNew) (hsource : x.source = .null) :
    Step S σ (σ.put a (x.close (.ok .null)) σ.machine)
  | unmade {σ : Scene} {a : List ℕ} {x : Activation} {e : Raised} {s : Store}
      (hx : σ.activation a = some x) (hnew : x.IsNew) (hsource : x.source ≠ .null)
      (hmade : Action.construct x.mapper.target σ.machine.store = (.error e, s)) :
    Step S σ (σ.put a (x.close (.error e)) { σ.machine with store := s })
  | begin {σ : Scene} {a : List ℕ} {x : Activation} {target : Value} {built : Store}
      (hx : σ.activation a = some x) (hnew : x.IsNew) (hsource : x.source ≠ .null)
      (hmade : Action.construct x.mapper.target σ.machine.store = (.ok target, built)) :
    Step S σ (σ.put a (x.begun ⟨target, σ.machine.store.records.size, built⟩)
      { σ.machine with store := built })
  | start {σ : Scene} {a : List ℕ} {x : Activation} {i : ℕ} {r : Rule} {m : Machine}
      (hx : σ.activation a = some x) (hopen : x.outcome = none) (hr : x.mapper.rules[i]? = some r)
      (hi : x.progress[i]? = some .waiting) (h : S.opens r σ.machine m) :
    Step S σ (σ.put a (x.advance i .computing) m)
  | finish {σ : Scene} {a : List ℕ} {x : Activation} {t : Making} {i : ℕ} {r : Rule}
      {given result : Outcome} {m : Machine} (hx : σ.activation a = some x)
      (hopen : x.outcome = none) (ht : x.made = some t) (hr : x.mapper.rules[i]? = some r)
      (hi : x.progress[i]? = some .computing) (hgives : S.gives r (a ++ [i]) σ given)
      (hrun : σ.machine.run (r.complete t.target x.kind given) = (m, .settled result)) :
    Step S σ (σ.put a (x.advance i (.ended given result)) m)
  | conclude {σ : Scene} {a : List ℕ} {x : Activation} {o : Outcome} {log : List Log.Entry}
      (hx : σ.activation a = some x) (hopen : x.outcome = none) (ho : x.Concludes o) :
    Step S σ (σ.put a (x.close o)
      { σ.machine with store := { σ.machine.store with log := log } })

/-- Steps one after the other. -/
def Run (S : Setting) : Scene → Scene → Prop := Relation.ReflTransGen S.Step

/-- The scenes that steps lead to keep to an invariant. -/
def Keeps (S : Setting) (inv : Scene → Prop) : Prop := ∀ σ τ, inv σ → S.Step σ τ → inv τ

theorem Keeps.run {inv : Scene → Prop} (h : S.Keeps inv) {σ τ : Scene} (hσ : inv σ)
    (hrun : S.Run σ τ) : inv τ := by
  induction hrun with
  | refl => exact hσ
  | tail _ hstep ih => exact h _ _ ih hstep

/-! ### Where steps take place -/

/-- Steps that touch calls at an address and below only. -/
structure Within (S : Setting) (a : List ℕ) (σ τ : Scene) : Prop where
  run : S.Run σ τ
  same : ∀ b, ¬ a <+: b → τ.activation b = σ.activation b

/-- Steps that touch no call at an address or below. -/
structure Beside (S : Setting) (a : List ℕ) (σ τ : Scene) : Prop where
  run : S.Run σ τ
  same : ∀ b, a <+: b → τ.activation b = σ.activation b

theorem not_prefix_of_ne {a b : List ℕ} {i j : ℕ} (h : i ≠ j) (hb : a ++ [i] <+: b) :
    ¬ a ++ [j] <+: b := by
  intro hb'
  have hlength : (a ++ [i]).length ≤ (a ++ [j]).length := by simp
  have heq := (List.prefix_of_prefix_length_le hb hb' hlength).eq_of_length (by simp)
  exact h (List.append_cancel_left heq |> List.cons.inj |>.1)

theorem not_concat_prefix_self (a : List ℕ) (i : ℕ) : ¬ a ++ [i] <+: a := by
  intro h
  have hlength := h.length_le
  rw [List.length_append, List.length_singleton] at hlength
  omega

namespace Within

variable {a : List ℕ} {σ τ υ : Scene}

theorem refl (a : List ℕ) (σ : Scene) : S.Within a σ σ := ⟨.refl, fun _ _ ↦ rfl⟩

theorem trans (h : S.Within a σ τ) (h' : S.Within a τ υ) : S.Within a σ υ :=
  ⟨h.run.trans h'.run, fun b hb ↦ (h'.same b hb).trans (h.same b hb)⟩

theorem of_step (h : S.Step σ τ) (hsame : ∀ b, b ≠ a → τ.activation b = σ.activation b) :
    S.Within a σ τ :=
  ⟨.single h, fun b hb ↦ hsame b fun heq ↦ hb (heq ▸ List.prefix_refl b)⟩

theorem put {x : Activation} {m : Machine} (h : S.Step σ (σ.put a x m)) :
    S.Within a σ (σ.put a x m) :=
  of_step h fun _ hb ↦ σ.activation_put_of_ne hb x m

/-- What happens below a rule happens within its mapper. -/
theorem up {i : ℕ} (h : S.Within (a ++ [i]) σ τ) : S.Within a σ τ :=
  ⟨h.run, fun b hb ↦ h.same b fun hprefix ↦ hb ((List.prefix_append a [i]).trans hprefix)⟩

/-- What happens below a rule happens beside the other rules of its mapper. -/
theorem beside {i j : ℕ} (h : S.Within (a ++ [i]) σ τ) (hij : i ≠ j) : S.Beside (a ++ [j]) σ τ :=
  ⟨h.run, fun b hb ↦ h.same b (not_prefix_of_ne hij.symm hb)⟩

/-- What happens below a rule leaves the activation of its mapper as it is. -/
theorem activation_eq {i : ℕ} (h : S.Within (a ++ [i]) σ τ) : τ.activation a = σ.activation a :=
  h.same a (not_concat_prefix_self a i)

end Within

namespace Beside

variable {a : List ℕ} {σ τ υ : Scene}

theorem refl (a : List ℕ) (σ : Scene) : S.Beside a σ σ := ⟨.refl, fun _ _ ↦ rfl⟩

theorem trans (h : S.Beside a σ τ) (h' : S.Beside a τ υ) : S.Beside a σ υ :=
  ⟨h.run.trans h'.run, fun b hb ↦ (h'.same b hb).trans (h.same b hb)⟩

/-- What happens beside a mapper happens beside its rules. -/
theorem down (h : S.Beside a σ τ) (i : ℕ) : S.Beside (a ++ [i]) σ τ :=
  ⟨h.run, fun b hb ↦ h.same b ((List.prefix_append a [i]).trans hb)⟩

theorem isFree (h : S.Beside a σ τ) (hfree : σ.IsFree a) : τ.IsFree a :=
  fun b hb ↦ (h.same b hb).trans (hfree b hb)

theorem activation_eq (h : S.Beside a σ τ) : τ.activation a = σ.activation a :=
  h.same a (List.prefix_refl a)

/-- What happens at a mapper itself happens beside its rules. -/
theorem put {x : Activation} {m : Machine} (h : S.Step σ (σ.put a x m)) (i : ℕ) :
    S.Beside (a ++ [i]) σ (σ.put a x m) :=
  ⟨.single h, fun b hb ↦ σ.activation_put_of_ne
    (by rintro rfl; exact not_concat_prefix_self b i hb) x m⟩

end Beside

end Setting

end Recast
