import Recast.Proofs.Dispatch

/-!
Mappers on errands. How a compute ends that does not depend on the machine is its fate: a fault, or
a value that nothing more has to be done with (`Fate`). A mapper of single attributes shares the
fate of its earliest rule that fails, and it is on the errands of all its computes
(`Builder.Plain.errand_transform`); when they begin their lookups with their first turn, the mapper
does so with its second (`Builder.Plain.primed_transform`).
-/

set_option autoImplicit false

namespace Recast

/-! ### Fates -/

/-- The faults in which a computation ends, if it fails. -/
abbrev Fate := Option (Raised → Prop)

/-- The outcome is as the fate says: a fault by which no iteration stops, or a value that is neither
a fault object nor an awaitable. -/
def Fate.Met : Fate → Outcome → Prop
  | none, .ok v => v.IsOrdinary
  | some is, .error e => is e ∧ ¬ e.StopsIteration
  | none, .error _ | some _, .ok _ => False

namespace Fate

variable {fate : Fate}

theorem Met.not_stopsIteration {e : Raised} (h : fate.Met (.error e)) : ¬ e.StopsIteration := by
  cases fate with
  | none => exact h.elim
  | some is => exact h.2

theorem Met.isAwaitable_eq_false {v : Value} (h : fate.Met (.ok v)) : v.isAwaitable = false := by
  cases fate with
  | none => exact h.1
  | some is => exact h.elim

theorem Met.exists_of_error {e : Raised} (h : fate.Met (.error e)) :
    ∃ is, fate = some is ∧ is e := by
  cases fate with
  | none => exact h.elim
  | some is => exact ⟨is, rfl, h.1⟩

theorem Met.eq_none {v : Value} (h : fate.Met (.ok v)) : fate = none := by
  cases fate with
  | none => rfl
  | some is => exact h.elim

theorem met_fault {is : Raised → Prop} {id : ℕ} {f : Fault} (his : is ⟨id, f⟩)
    (hf : ∀ args, f ≠ .general "StopIteration" args) : Met (some is) (.error ⟨id, f⟩) :=
  ⟨his, fun ⟨args, hargs⟩ ↦ hf args hargs⟩

end Fate

/-! ### Programs that come down to others -/

/-- Wherever it is run, the program comes down to the other one, and what it changes until then lies
above what there was. -/
def Store.Leads (s : Store) (p p' : Prog) : Prop :=
  ∀ m, s.Stands m → ∃ s', m.run p = Machine.run p' { m with store := s' } ∧
    m.store.SameBelow s.records.size s'

section Leads

variable {s : Store} {leaves : Prop} {result : Outcome → Prop} {turns : ℕ} {todo : Multiset Value}
  {p p' : Prog}

namespace Store.Leads

theorem bind (h : s.Leads p p') (f : Outcome → Prog) : s.Leads (p.bind f) (p'.bind f) := by
  intro m hm
  obtain ⟨s', hrun, hbelow⟩ := h m hm
  exact ⟨s', by rw [Machine.run_bind, Machine.run_bind, hrun], hbelow⟩

theorem instant (h : s.Leads p p') (hp : s.Instant result p') : s.Instant result p := by
  intro m hm
  obtain ⟨s', hrun, hbelow⟩ := h m hm
  obtain ⟨s'', o, hrun', hbelow', ho⟩ := hp _ (hm.sameBelow hbelow)
  exact ⟨s'', o, hrun.trans hrun', hbelow.trans hbelow', ho⟩

theorem errand (h : s.Leads p p') (hp : Errand s leaves result turns todo (.fresh p')) :
    Errand s leaves result turns todo (.fresh p) := by
  refine Errand.of_run fun m hm ↦ ?_
  obtain ⟨s', hrun, hbelow⟩ := h m hm
  have hdeed := Machine.Deed.of_sameBelow hm hbelow
  obtain ⟨st, hleft, hnext⟩ := hp.turn hdeed.stands
  rw [hrun]
  exact ⟨_, hleft.after hdeed, hnext⟩

theorem prompt (h : s.Leads p p') (hp : Errand.Prompt s leaves result turns todo (.fresh p')) :
    Errand.Prompt s leaves result turns todo (.fresh p) := by
  refine .of_run fun m hm ↦ ?_
  obtain ⟨s', hrun, hbelow⟩ := h m hm
  have hdeed := Machine.Deed.of_sameBelow hm hbelow
  obtain ⟨st, hleft, hzero, hnext⟩ := hp.turn hdeed.stands
  rw [hrun]
  exact ⟨st, hleft.after hdeed, hzero, hnext⟩

/-- An attribute is read. -/
theorem read {v w : Value} {name : String}
    (h : ∀ m, s.Stands m → m.store.attribute? v name = some w) (f : Value → Prog) :
    s.Leads (Prog.first (Action.readAttribute v name) f) (f w) := by
  intro m hm
  refine ⟨m.store, ?_, .refl _ _⟩
  rw [Prog.first, Machine.run_act, Machine.act, Store.readAttribute_eq, h m hm]

theorem report (e : Log.Entry) (p : Prog) : s.Leads (Prog.also (Action.report e) p) p :=
  fun _ _ ↦ ⟨_, rfl, Plan.sameBelow_log _ _ _⟩

end Store.Leads

end Leads

/-! ### Coroutines and values to wait for -/

section Coroutines

variable {s : Store} {leaves : Prop} {fate : Fate} {turns : ℕ} {todo : Multiset Value} {p : Prog}
  {o : Outcome}

/-- Go on with a value; a fault ends the whole. -/
def Prog.onward (f : Value → Prog) : Outcome → Prog
  | .ok v => f v
  | .error e => Prog.raise e

theorem Prog.andThen_eq (p : Prog) (f : Value → Prog) : p.andThen f = p.bind (onward f) :=
  congrArg p.bind (funext fun o ↦ by cases o <;> rfl)

theorem Store.instant_done {result : Outcome → Prop} (ho : result o) : s.Instant result (.done o) :=
  fun m _ ↦ ⟨m.store, o, rfl, .refl _ _, ho⟩

theorem Fate.Met.instant_guarded (h : fate.Met o) : s.Instant fate.Met (Prog.guarded o) := by
  have hout : Prog.guarded o = .done o := Prog.guarded_eq fun e he ↦ (he ▸ h).not_stopsIteration
  rw [hout]
  exact Store.instant_done h

/-- What goes on with a value that is at hand, and else ends as before. -/
theorem Fate.Met.instant_await (h : fate.Met o) :
    s.Instant fate.Met (Prog.onward Compute.await o) := by
  cases o with
  | error e => exact Store.instant_done h
  | ok v =>
    have hv : Compute.await v = Prog.give v := if_neg (Bool.eq_false_iff.mp h.isAwaitable_eq_false)
    rw [Prog.onward, hv]
    exact Store.instant_done h

namespace Errand

theorem asCoroutine (h : Errand s leaves fate.Met turns todo (.fresh p)) :
    Errand s leaves fate.Met turns todo (.fresh p.asCoroutine) :=
  h.bind rfl fun _ ho ↦ ho.instant_guarded

theorem andThen_await (h : Errand s leaves fate.Met turns todo (.fresh p)) :
    Errand s leaves fate.Met turns todo (.fresh (p.andThen Compute.await)) := by
  rw [Prog.andThen_eq]
  exact h.bind rfl fun _ ho ↦ ho.instant_await

theorem Prompt.asCoroutine (h : Prompt s leaves fate.Met turns todo (.fresh p)) :
    Prompt s leaves fate.Met turns todo (.fresh p.asCoroutine) :=
  h.bind rfl fun _ ho ↦ ho.instant_guarded

/-- A program that is about to begin its lookups has one turn more. -/
theorem Primed.errand {result : Outcome → Prop} (h : Primed s leaves result turns todo p) :
    Errand s leaves result (turns + 1) todo (.fresh p) := by
  refine of_run fun m hm ↦ ?_
  obtain ⟨hdeed, hprompt, _⟩ := h m hm
  exact ⟨_, .of_spent hdeed (Nat.lt_succ_self turns) todo, hprompt.errand⟩

theorem isOpen_run_bind {m : Machine} (hopen : (m.run p).2.isOpen = true) (f : Outcome → Prog) :
    (m.run (p.bind f)).2.isOpen = true := by
  rw [Machine.run_bind, Machine.goOn_of_ne (Proc.isOpen_eq_true_iff.mp hopen)]
  exact isOpen_bind _ _

/-- Followed by a program that ends at once, a program that has to wait is on the same errand. -/
theorem Primed.bind {result result' : Outcome → Prop} (h : Primed s leaves result turns todo p)
    (hopen : ∀ m, s.Stands m → (m.run p).2.isOpen = true) {f : Outcome → Prog}
    (hf : ∀ o, result o → s.Instant result' (f o)) :
    Primed s leaves result' turns todo (p.bind f) := by
  intro m hm
  obtain ⟨hdeed, hprompt, _⟩ := h m hm
  rw [Machine.run_bind, Machine.goOn_of_ne (Proc.isOpen_eq_true_iff.mp (hopen m hm))]
  exact ⟨hdeed, hprompt.bind (hopen m hm) hf, fun e ↦ Proc.bind_ne_settled _ _ _⟩

end Errand

end Coroutines

/-! ### Rules -/

section Rules

variable {s : Store} {leaves : Prop} {fates : Rule → Fate} {turns : Rule → ℕ}
  {todo : Rule → Multiset Value} {rules : List Rule} {source target : Value}

/-- A rule whose write is accepted shares the fate of its compute. -/
theorem Rule.instant_finish {r : Rule} (hvalid : r.slot.IsValid) {spot : Spot}
    (hland : ∀ m, s.Stands m → m.store.landing target r.slot = .ok (some spot))
    (hbase : s.records.size ≤ spot.ref) (htarget : Fate.Met none (.ok target)) {fate : Fate}
    {o : Outcome} (ho : fate.Met o) : s.Instant fate.Met (r.finish target o) := by
  intro m hm
  cases o with
  | error e =>
    exact ⟨m.store, .error e, r.run_finish_error target ho.not_stopsIteration m, .refl _ _, ho⟩
  | ok v =>
    have hland := hland m hm
    have hspot : ∀ p, m.store.landing target r.slot = .ok (some p) → s.records.size ≤ p.ref := by
      rintro p hp
      cases hland.symm.trans hp
      exact hbase
    obtain ⟨s', o, hrun, hwrote, ho'⟩ := r.run_finish_ok hvalid target v m s.records.size hspot
    simp only [hland] at ho'
    refine ⟨s', o, hrun, hwrote.below, ?_⟩
    cases fate with
    | some is => exact ho.elim
    | none => exact ho'.1 ▸ htarget

variable (hfinish : ∀ r ∈ rules, ∀ o, (fates r).Met o → s.Instant (fates r).Met (r.finish target o))

include hfinish

/-- Rules are on the errands of their computes. -/
theorem Errands.of_rules (h : ∀ r ∈ rules,
      Errand s leaves (fates r).Met (turns r) (todo r) (.fresh (r.evaluate source))) :
    Errands s leaves (rules.map fun r ↦ (fates r).Met) (rules.map turns).sum (rules.map todo).sum
      ((rules.map fun r ↦ r.apply source target).map .fresh) := by
  induction rules with
  | nil => exact .nil
  | cons r rules ih =>
    obtain ⟨hr, hrest⟩ := List.forall_mem_cons.mp h
    obtain ⟨hfirst, hothers⟩ := List.forall_mem_cons.mp hfinish
    have happly : Errand s leaves (fates r).Met (turns r) (todo r)
        (.fresh (r.apply source target)) := by
      rw [r.apply_eq]
      exact hr.bind rfl hfirst
    exact .cons happly (ih hothers hrest)

/-- Rules whose computes begin their lookups with their first turns do so as well. -/
theorem Errands.Prompt.of_rules (h : ∀ r ∈ rules,
      Errand.Prompt s leaves (fates r).Met (turns r) (todo r) (.fresh (r.evaluate source))) :
    Errands.Prompt s leaves (rules.map fun r ↦ (fates r).Met) (rules.map turns).sum
      (rules.map todo).sum ((rules.map fun r ↦ r.apply source target).map .fresh) := by
  induction rules with
  | nil => exact Errands.nil.prompt
  | cons r rules ih =>
    obtain ⟨hr, hrest⟩ := List.forall_mem_cons.mp h
    obtain ⟨hfirst, hothers⟩ := List.forall_mem_cons.mp hfinish
    have happly : Errand.Prompt s leaves (fates r).Met (turns r) (todo r)
        (.fresh (r.apply source target)) := by
      rw [r.apply_eq]
      exact hr.bind rfl hfirst
    exact .cons happly (ih hothers hrest)

end Rules

/-! ### Mappers -/

namespace Mapper

variable {target : Value} {fates : Rule → Fate}

/-- The first failure is that of the earliest rule that is to fail. -/
theorem firstFailure?_of_fates {rules : List Rule} {os : List Outcome}
    (h : List.Forall₂ (fun result o ↦ result o) (rules.map fun r ↦ (fates r).Met) os) :
    match rules.findSome? fates with
    | none => firstFailure? (rules.zip os) = none
    | some is => ∃ r e, firstFailure? (rules.zip os) = some (r, e) ∧ is e ∧ ¬ e.StopsIteration := by
  induction rules generalizing os with
  | nil => rfl
  | cons r rules ih =>
    obtain ⟨o, os, ho, hrest, rfl⟩ := List.forall₂_cons_left_iff.mp h
    cases hr : fates r with
    | some is =>
      rw [hr] at ho
      cases o with
      | ok v => exact ho.elim
      | error e =>
        rw [List.findSome?_cons_of_isSome (by simp [hr]), hr]
        exact ⟨r, e, rfl, ho⟩
    | none =>
      rw [hr] at ho
      cases o with
      | error e => exact ho.elim
      | ok v =>
        rw [List.findSome?_cons_of_isNone (by simp [hr]), List.zip_cons_cons, firstFailure?, ho.2]
        exact ih hrest

/-- A mapper of field rules shares the fate of its earliest rule that is to fail. -/
theorem met_concluded (mapper : Mapper) (hfields : ∀ r ∈ mapper.rules, r.kind = .field)
    (htarget : Fate.Met none (.ok target)) {os : List Outcome}
    (h : List.Forall₂ (fun result o ↦ result o) (mapper.rules.map fun r ↦ (fates r).Met) os) :
    Fate.Met (mapper.rules.findSome? fates) (mapper.concluded target os) := by
  have hfirst := firstFailure?_of_fates h
  rw [concluded]
  cases hfate : mapper.rules.findSome? fates with
  | none =>
    rw [hfate] at hfirst
    rw [hfirst, result_of_field hfields]
    exact htarget
  | some is =>
    rw [hfate] at hfirst
    obtain ⟨r, e, hfailure, he⟩ := hfirst
    rw [hfailure]
    exact he

theorem instant_whenAll {mapper : Mapper} {s : Store} {fate : Fate} {os : List Outcome}
    (h : fate.Met (mapper.concluded target os)) :
    s.Instant fate.Met (mapper.whenAll target (some os)) := by
  intro m _
  obtain ⟨log, hrun, _⟩ := mapper.run_conclude target os m
  exact ⟨_, _, hrun, Plan.sameBelow_log _ _ _, h⟩

end Mapper

namespace Builder

/-- All rules are for single attributes, and the targets are made like a pattern that takes them. -/
structure Plain (b : Builder) (s : Store) (pattern : Pattern) : Prop where
  consistent : b.Consistent
  rules_ne_nil : b.rules ≠ []
  single : ∀ r ∈ b.rules, ∃ name, r.slot.path = [name]
  makes : s.standing.Makes b.target pattern
  lets : ∀ r ∈ b.rules, pattern.refusal? r.slot = none

namespace Plain

variable {b : Builder} {s : Store} {pattern : Pattern} {leaves : Prop} {fates : Rule → Fate}
  {turns : Rule → ℕ} {todo : Rule → Multiset Value} {source target : Value} {built : Store}
  {m : Machine}

theorem field (h : b.Plain s pattern) : ∀ r ∈ b.rules, r.kind = .field := by
  intro r hr
  obtain ⟨name, hname⟩ := h.single r hr
  cases hkind : r.kind with
  | field => rfl
  | whole =>
    rw [(h.consistent.kind r hr).mp hkind] at hname
    cases hname

/-- Wherever the target is by then, a write into it lands on the target itself. -/
theorem exists_landing (h : b.Plain s pattern) (hm : s.Stands m)
    (hmade : pattern.Made b.target m.store target built) {r : Rule} (hr : r ∈ b.rules) :
    ∃ spot, s.records.size ≤ spot.ref ∧ target = .record spot.ref spot.type ∧
      ∀ m', s.Stands m' → m'.store.landing target r.slot = .ok (some spot) := by
  obtain ⟨name, hname⟩ := h.single r hr
  obtain ⟨htypes, _⟩ := h.makes m hm
  have hrefusal : built.refusal? target r.slot = none :=
    (Store.refusal?_congr (hmade.old.types.trans htypes) hmade.look_eq r.slot).trans (h.lets r hr)
  obtain ⟨place, hplace⟩ := Store.refusal?_eq_none_iff.mp hrefusal
  have hlast : r.slot.path.dropLast = [] := by rw [hname, List.dropLast_singleton]
  have hsame : ∀ m', s.Stands m' → m'.store.landing target r.slot = .ok place := by
    intro m' hm'
    have htypes' : m'.store.types = built.types :=
      hm'.types.trans (hm.types.symm.trans hmade.old.types.symm)
    rw [← hplace]
    refine Store.landing_congr htypes' ?_
    rintro before ref field ⟨⟨after, hpath⟩, _⟩
    rw [hlast] at hpath
    cases before <;> cases hpath
  cases place with
  | none =>
    have hpath := Store.path_eq_nil_of_landing hplace
    rw [hpath] at hname
    cases hname
  | some spot =>
    obtain ⟨parents, hpath, hwalk⟩ := Store.exists_of_landing hplace
    obtain rfl : parents = [] := by
      rw [hname] at hpath
      cases parents with
      | nil => rfl
      | cons first rest => cases rest <;> cases hpath
    have htarget : target = .record spot.ref spot.type := Option.some.inj hwalk
    have hmem := hmade.tree.mem [] spot.ref spot.type (congrArg some htarget)
    exact ⟨spot, hm.size_le.trans hmem.1, htarget, hsame⟩

theorem met_target (h : b.Plain s pattern) (hm : s.Stands m)
    (hmade : pattern.Made b.target m.store target built) : Fate.Met none (.ok target) := by
  obtain ⟨r, hr⟩ := List.exists_mem_of_ne_nil _ h.rules_ne_nil
  obtain ⟨spot, _, htarget, _⟩ := h.exists_landing hm hmade hr
  exact ⟨htarget ▸ rfl, hmade.ordinary⟩

theorem instant_finish (h : b.Plain s pattern) (hm : s.Stands m)
    (hmade : pattern.Made b.target m.store target built) :
    ∀ r ∈ b.rules, ∀ o, (fates r).Met o → s.Instant (fates r).Met (r.finish target o) := by
  intro r hr o ho
  obtain ⟨spot, hbase, _, hland⟩ := h.exists_landing hm hmade hr
  exact Rule.instant_finish (h.consistent.valid r hr) hland hbase (h.met_target hm hmade) ho

/-- A mapper first makes its target, which takes a turn. -/
theorem run_transform (h : b.Plain s pattern) (hsource : source ≠ .null) (hm : s.Stands m) :
    ∃ target built, pattern.Made b.target m.store target built ∧
      m.run (b.snapshot.transform source) =
        ({ m with store := built }, b.snapshot.gathering source target) ∧
      m.Deed s { m with store := built } [] [] := by
  obtain ⟨_, target, built, hmade⟩ := h.makes m hm
  exact ⟨target, built, hmade, b.snapshot.run_transform h.rules_ne_nil hsource hmade.made,
    .of_sameBelow hm (hmade.old.mono hm.size_le)⟩

theorem instant_whenAll (h : b.Plain s pattern) (hm : s.Stands m)
    (hmade : pattern.Made b.target m.store target built) {os : List Outcome}
    (hos : List.Forall₂ (fun result o ↦ result o) (b.rules.map fun r ↦ (fates r).Met) os) :
    s.Instant (Fate.Met (b.rules.findSome? fates)) (b.snapshot.whenAll target (some os)) :=
  Mapper.instant_whenAll (b.snapshot.met_concluded h.field (h.met_target hm hmade) hos)

theorem any_isOpen (h : b.Plain s pattern) (source target : Value) :
    ((b.rules.map fun r ↦ r.apply source target).map Proc.fresh).any Proc.isOpen = true := by
  obtain ⟨r, rest, hrules⟩ := List.exists_cons_of_ne_nil h.rules_ne_nil
  rw [hrules]
  rfl

/-- A mapper is on the errands of its computes and shares the fate of the earliest that fails. -/
theorem errand_transform (h : b.Plain s pattern) (hsource : source ≠ .null)
    (hcomputes : ∀ r ∈ b.rules,
      Errand s leaves (fates r).Met (turns r) (todo r) (.fresh (r.evaluate source))) :
    Errand s leaves (Fate.Met (b.rules.findSome? fates)) ((b.rules.map turns).sum + 1)
      (b.rules.map todo).sum (.fresh (b.snapshot.transform source)) := by
  refine Errand.of_run fun m hm ↦ ?_
  obtain ⟨target, built, hmade, hrun, hdeed⟩ := h.run_transform hsource hm
  have hrules := Errands.of_rules (h.instant_finish hm hmade) hcomputes
  rw [hrun]
  exact ⟨_, .of_spent hdeed (Nat.lt_succ_self _) _,
    hrules.joining (h.any_isOpen source target) fun _ hos ↦ h.instant_whenAll hm hmade hos⟩

/-- A mapper whose computes begin their lookups with their first turns makes its target and then
begins them all at once. -/
theorem primed_transform (h : b.Plain s pattern) (hsource : source ≠ .null)
    (hcomputes : ∀ r ∈ b.rules,
      Errand.Prompt s leaves (fates r).Met (turns r) (todo r) (.fresh (r.evaluate source))) :
    Errand.Primed s leaves (Fate.Met (b.rules.findSome? fates)) (b.rules.map turns).sum
      (b.rules.map todo).sum (b.snapshot.transform source) := by
  intro m hm
  obtain ⟨target, built, hmade, hrun, hdeed⟩ := h.run_transform hsource hm
  have hrules := Errands.Prompt.of_rules (h.instant_finish hm hmade) hcomputes
  rw [hrun]
  exact ⟨hdeed, hrules.joining (h.any_isOpen source target) fun _ hos ↦
    h.instant_whenAll hm hmade hos, nofun⟩

end Plain

end Builder

/-! ### Rules in a series -/

/-- The rules for single attributes that are registered one after the other, from a position on. -/
def Rule.series (owner : ℕ) : ℕ → List (String × Compute) → List Rule
  | _, [] => []
  | i, (name, c) :: rest => ⟨.field, ⟨⟨[name]⟩, ⟨owner, i⟩⟩, c⟩ :: series owner (i + 1) rest

/-- The attribute that a rule for a single attribute writes. -/
def Rule.attribute (r : Rule) : String := r.slot.path.headD ""

section Series

variable {owner i : ℕ} {entries : List (String × Compute)}

theorem Rule.mem_series {r : Rule} (h : r ∈ series owner i entries) :
    ∃ entry ∈ entries, r.slot = ⟨[entry.1]⟩ ∧ r.compute = entry.2 := by
  induction entries generalizing i with
  | nil => cases h
  | cons entry rest ih =>
    rcases List.mem_cons.mp h with rfl | hrest
    · exact ⟨entry, List.mem_cons_self, rfl, rfl⟩
    · obtain ⟨other, hmem, hother⟩ := ih hrest
      exact ⟨other, List.mem_cons_of_mem _ hmem, hother⟩

theorem Rule.map_series {α : Type} (f : String → α) (owner i : ℕ)
    (entries : List (String × Compute)) :
    (series owner i entries).map (fun r ↦ f r.attribute) = entries.map fun entry ↦ f entry.1 := by
  induction entries generalizing i with
  | nil => rfl
  | cons entry rest ih => exact congrArg (List.cons _) (ih (i + 1))

theorem Rule.findSome?_series {α : Type} (f : String → Option α) (owner i : ℕ)
    (entries : List (String × Compute)) :
    (series owner i entries).findSome? (fun r ↦ f r.attribute) =
      entries.findSome? fun entry ↦ f entry.1 := by
  have hmap := congrArg (List.findSome? id) (map_series f owner i entries)
  rwa [List.findSome?_map, List.findSome?_map] at hmap

namespace Builder.Plain

variable {b : Builder} {s : Store} {pattern : Pattern} {leaves : Prop} {fates : String → Fate}
  {turns : String → ℕ} {todo : String → Multiset Value} {source : Value}

theorem of_series (hb : b.Registered) (hrules : b.rules = Rule.series owner 0 entries)
    (hne : entries ≠ []) (hmakes : s.standing.Makes b.target pattern)
    (hlets : ∀ entry ∈ entries, pattern.refusal? ⟨[entry.1]⟩ = none) : b.Plain s pattern where
  consistent := hb.consistent
  rules_ne_nil := by
    obtain ⟨entry, rest, rfl⟩ := List.exists_cons_of_ne_nil hne
    rw [hrules]
    exact List.cons_ne_nil _ _
  single r hr := by
    obtain ⟨entry, _, hslot, _⟩ := Rule.mem_series (hrules ▸ hr)
    exact ⟨entry.1, by rw [hslot]⟩
  makes := hmakes
  lets r hr := by
    obtain ⟨entry, hmem, hslot, _⟩ := Rule.mem_series (hrules ▸ hr)
    rw [hslot]
    exact hlets entry hmem

theorem attribute_eq {r : Rule} {name : String} (h : r.slot = ⟨[name]⟩) : r.attribute = name := by
  rw [Rule.attribute, h]
  rfl

/-- What becomes of a mapper of rules in a series is told by their attributes. -/
theorem errand_series (h : b.Plain s pattern) (hrules : b.rules = Rule.series owner 0 entries)
    (hsource : source ≠ .null) (hcomputes : ∀ entry ∈ entries, ∀ r : Rule, r.compute = entry.2 →
      Errand s leaves (fates entry.1).Met (turns entry.1) (todo entry.1)
        (.fresh (r.evaluate source))) :
    Errand s leaves (Fate.Met (entries.findSome? fun entry ↦ fates entry.1))
      ((entries.map fun entry ↦ turns entry.1).sum + 1) (entries.map fun entry ↦ todo entry.1).sum
      (.fresh (b.snapshot.transform source)) := by
  rw [← Rule.findSome?_series fates owner 0, ← Rule.map_series turns owner 0,
    ← Rule.map_series todo owner 0, ← hrules]
  refine h.errand_transform hsource fun r hr ↦ ?_
  obtain ⟨entry, hmem, hslot, hcompute⟩ := Rule.mem_series (hrules ▸ hr)
  rw [attribute_eq hslot]
  exact hcomputes entry hmem r hcompute

theorem primed_series (h : b.Plain s pattern) (hrules : b.rules = Rule.series owner 0 entries)
    (hsource : source ≠ .null) (hcomputes : ∀ entry ∈ entries, ∀ r : Rule, r.compute = entry.2 →
      Errand.Prompt s leaves (fates entry.1).Met (turns entry.1) (todo entry.1)
        (.fresh (r.evaluate source))) :
    Errand.Primed s leaves (Fate.Met (entries.findSome? fun entry ↦ fates entry.1))
      (entries.map fun entry ↦ turns entry.1).sum (entries.map fun entry ↦ todo entry.1).sum
      (b.snapshot.transform source) := by
  rw [← Rule.findSome?_series fates owner 0, ← Rule.map_series turns owner 0,
    ← Rule.map_series todo owner 0, ← hrules]
  refine h.primed_transform hsource fun r hr ↦ ?_
  obtain ⟨entry, hmem, hslot, hcompute⟩ := Rule.mem_series (hrules ▸ hr)
  rw [attribute_eq hslot]
  exact hcomputes entry hmem r hcompute

end Builder.Plain

end Series

end Recast
