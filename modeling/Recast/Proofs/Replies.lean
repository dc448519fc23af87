import Recast.Proofs.Contents
import Recast.Proofs.Frame
import Recast.Proofs.Rivals

/-!
Replies of a country service. How long a lookup takes and what it comes to may be another thing each
time: it depends on the country and on the lookups that have begun before (`CountryLookup.Serves`).
A lookup that always comes to one reply begins when it starts, returns the name or fails, and takes
its time (`CountryReply.Comes.exists_prompt`, `CountryReply.Comes.returns_always`,
`CountryReply.Comes.takes_always`). Mapping an address takes as long as its lookup
(`AddressService.Maps.takes`).
-/

set_option autoImplicit false

namespace Recast

/-! ### Programs that take time -/

namespace Company.Takes

variable {E : Company} {d : ℕ} {p : Prog}

/-- A program takes as long as what it comes down to. -/
theorem lead (h : ∀ m, E.holds m → ∃ m₁ p₁, m.run p = Machine.run p₁ m₁ ∧ E.work m m₁ ∧
      E.Takes d p₁) : E.Takes d p := by
  intro m hm
  refine Due.fresh (Nat.le_add_right _ _) fun m' hwork ↦ ?_
  have hm' := E.holds_of_work hm hwork
  obtain ⟨m₁, p₁, hrun, hwork₁, htakes⟩ := h m' hm'
  obtain ⟨hwork₂, hdue⟩ := htakes.run (E.holds_of_work hm' hwork₁)
  rw [hrun, ← E.now_eq hwork, ← E.now_eq hwork₁]
  exact ⟨E.trans hwork₁ hwork₂, hdue⟩

theorem bind {f : Outcome → Prog} (h : E.Takes d p) (hf : ∀ o, E.EndsAtOnce (f o)) :
    E.Takes d (p.bind f) := fun m hm ↦ (h m hm).bind hm hf

theorem asCoroutine (h : E.Takes d p) : E.Takes d p.asCoroutine := h.bind endsAtOnce_guarded

end Company.Takes

theorem Store.Instant.endsAtOnce {s : Store} {result : Outcome → Prop} {p : Prog}
    (h : s.Instant result p) : s.company.EndsAtOnce p := by
  intro m hm
  obtain ⟨s', o, hrun, hbelow, _⟩ := h m hm.1
  exact ⟨_, o, hrun, s.company.own hm hbelow⟩

/-- Wherever it is run, the program comes down to the other one, and it changes no records. -/
def Prog.ComesDownTo (p p' : Prog) : Prop :=
  ∀ m : Machine, ∃ s, m.run p = Machine.run p' { m with store := s } ∧
    m.store.SameBelow m.store.records.size s ∧ s.records = m.store.records

theorem Prog.ComesDownTo.leads {p p' : Prog} (h : p.ComesDownTo p') (s : Store) :
    s.Leads p p' := by
  intro m hm
  obtain ⟨s', hrun, hbelow, _⟩ := h m
  exact ⟨s', hrun, hbelow.mono hm.size_le⟩

theorem Store.Leads.takes {s : Store} {p p' : Prog} {d : ℕ} (h : s.Leads p p')
    (hp : s.company.Takes d p') : s.company.Takes d p := by
  refine .lead fun m hm ↦ ?_
  obtain ⟨s', hrun, hbelow⟩ := h m hm.1
  exact ⟨_, p', hrun, s.company.own hm hbelow, hp⟩

/-! ### Replies -/

/-- What becomes of a lookup: the time that it takes, and the name or the fault that it ends in. -/
structure CountryReply where
  time : ℕ
  name : Except Fault String

namespace CountryReply

variable {r : CountryReply} {p : Prog}

/-- The outcome is what the lookup ends in. -/
def IsTold (r : CountryReply) : Outcome → Prop
  | .ok v => ∃ name, r.name = .ok name ∧ v = .text name
  | .error e => r.name = .error e.fault

/-- Wherever the program is run, it ends at once as the lookup does, and it leaves alone all there
is. -/
def Tells (r : CountryReply) (p : Prog) : Prop :=
  ∀ m : Machine, ∃ s o, m.run p = ({ m with store := s }, .settled o) ∧
    m.store.SameBelow m.store.records.size s ∧ r.IsTold o

/-- The program takes the time of the lookup, in which it may wait as often as it likes, and then
ends as the lookup does. -/
inductive Comes : CountryReply → Prog → Prop
  | told {name : Except Fault String} {p : Prog} (h : Tells ⟨0, name⟩ p) : Comes ⟨0, name⟩ p
  | wait {r : CountryReply} {k : Outcome → Prog} (ms : ℕ) (h : Comes r (k (.ok .null))) :
      Comes ⟨ms + r.time, r.name⟩ (.sleep ms k)
  | goOn {r : CountryReply} {p p' : Prog} (hdown : p.ComesDownTo p') (h : Comes r p') : Comes r p

/-- What waits once takes as long as it waits. -/
theorem Comes.once {name : Except Fault String} {k : Outcome → Prog}
    (h : Tells ⟨0, name⟩ (k (.ok .null))) (ms : ℕ) : Comes ⟨ms, name⟩ (.sleep ms k) :=
  .wait ms (.told h)

/-- An iteration does not stop by the fault of the lookup, if it has one. -/
def IsProper (r : CountryReply) : Prop := ∀ args, r.name ≠ .error (.general "StopIteration" args)

/-- What a lookup with this reply ends in. -/
def fate (r : CountryReply) : Fate :=
  match r.name with
  | .ok _ => none
  | .error f => some fun e ↦ e.fault = f

theorem fate_eq_none_iff : r.fate = none ↔ ∃ name, r.name = .ok name := by
  rw [fate]
  cases r.name with
  | ok name => simp
  | error f => simp

theorem met_fate (hr : r.IsProper) {o : Outcome} (ho : r.IsTold o) : r.fate.Met o := by
  cases o with
  | ok v =>
    obtain ⟨name, hname, rfl⟩ := ho
    rw [fate, hname]
    exact Fate.met_text name
  | error e =>
    have hname : r.name = .error e.fault := ho
    rw [fate, hname]
    refine ⟨rfl, fun ⟨args, hargs⟩ ↦ hr args ?_⟩
    rw [hname, hargs]

theorem fault_of_met {e : Raised} (h : r.fate.Met (.error e)) : r.name = .error e.fault := by
  obtain ⟨is, his, he⟩ := h.exists_of_error
  rw [fate] at his
  cases hname : r.name with
  | ok name =>
    rw [hname] at his
    cases his
  | error f =>
    rw [hname] at his
    cases his
    exact congrArg Except.error he.symm

/-- A lookup that comes to the same thing each time. -/
def always (p : Prog) : CountryLookup := fun country ↦ Prog.also (Directory.noteLookup country) p

theorem run_always (p : Prog) (country : Value) (m : Machine) :
    m.run (always p country) = Machine.run p (m.act (Directory.noteLookup country)).2 := rfl

section Standing

variable {s : Store} {leaves : Prop}

theorem Tells.instant (h : r.Tells p) (hr : r.IsProper) : s.Instant r.fate.Met p := by
  intro m hm
  obtain ⟨s', o, hrun, hbelow, ho⟩ := h m
  exact ⟨s', o, hrun, hbelow.mono hm.size_le, met_fate hr ho⟩

/-- What ends the lookup at once returns its name. -/
theorem Tells.returns (h : r.Tells p) {name : String} (hname : r.name = .ok name) :
    s.standing.Returns (fun _ v ↦ v = .text name) p := by
  refine (show s.standing.EndsIn _ p from fun m hm ↦ ?_).yields
  obtain ⟨s', o, hrun, hbelow, ho⟩ := h m
  have hholds : s.standing.holds { m with store := s' } :=
    s.standing.stable hm (hbelow.mono (s.standing.base_le hm))
  refine ⟨_, o, hrun, hholds, ⟨hbelow.types, hbelow.size_le, fun ref _ href ↦
    hbelow.records ref href⟩, fun _ _ _ ↦ ?_⟩
  cases o with
  | error e => cases hname.symm.trans ho
  | ok v =>
    obtain ⟨name', hname', rfl⟩ := ho
    cases hname.symm.trans hname'
    exact ⟨.text name, rfl, rfl⟩

namespace Comes

/-- What the lookup does after its start has begun is an errand. -/
theorem exists_errand (h : r.Comes p) (hr : r.IsProper) :
    ∃ turns, Errand s leaves r.fate.Met turns 0 (.fresh p) := by
  induction h with
  | told h => exact ⟨1, Errand.of_instant (h.instant hr)⟩
  | wait ms _ ih =>
    obtain ⟨turns, herrand⟩ := ih hr
    exact ⟨turns + 1, herrand.sleep ms⟩
  | goOn hdown _ ih =>
    obtain ⟨turns, herrand⟩ := ih hr
    exact ⟨turns, (hdown.leads s).errand herrand⟩

/-- A lookup begins when it starts. -/
theorem exists_prompt (h : r.Comes p) (hr : r.IsProper) (n : ℤ) :
    ∃ turns, Errand.Prompt s leaves r.fate.Met turns {.int n} (.fresh (always p (.int n))) := by
  obtain ⟨turns, herrand⟩ : ∃ turns, Errand s leaves r.fate.Met turns 0 (.fresh p) :=
    h.exists_errand hr
  refine ⟨turns, .of_run fun m hm ↦ ?_⟩
  have hdeed : m.Deed s (m.act (Directory.noteLookup (.int n))).2 [.int n] [] :=
    ⟨hm.note _, rfl, rfl, (List.append_nil _).symm⟩
  obtain ⟨st, hleft, hnext⟩ := herrand.turn hdeed.stands
  have hzero := hleft.todo_eq_zero
  rw [run_always]
  exact ⟨_, hleft.following hdeed, hzero, hzero ▸ hnext⟩

/-- What does not fail returns the name. -/
theorem returns (h : r.Comes p) {name : String} (hname : r.name = .ok name) :
    s.standing.Returns (fun _ v ↦ v = .text name) p := by
  induction h with
  | told h => exact h.returns hname
  | wait ms _ ih => exact Surroundings.Yields.sleep (ih hname)
  | goOn hdown _ ih =>
    refine Surroundings.Yields.lead fun m hm ↦ ?_
    obtain ⟨s', hrun, hbelow, hrecords⟩ := hdown m
    exact ⟨_, _, hrun, s.standing.stable hm (hbelow.mono (s.standing.base_le hm)),
      ⟨hbelow.types, hrecords⟩, ih hname⟩

/-- So does a lookup that does not fail. -/
theorem returns_always (h : r.Comes p) {name : String} (hname : r.name = .ok name) (n : ℤ) :
    s.standing.Returns (fun _ v ↦ v = .text name) (always p (.int n)) :=
  Surroundings.Yields.lead fun m hm ↦
    ⟨_, p, run_always p _ m, hm.note _, ⟨rfl, rfl⟩, h.returns hname⟩

/-- A lookup takes its time. -/
theorem takes (h : r.Comes p) (hr : r.IsProper) : s.company.Takes r.time p := by
  induction h with
  | told h => exact .of_endsAtOnce (h.instant hr).endsAtOnce
  | wait ms _ ih => exact .sleep (ih hr)
  | goOn hdown _ ih => exact (hdown.leads s).takes (ih hr)

theorem takes_always (h : r.Comes p) (hr : r.IsProper) (n : ℤ) :
    s.company.Takes r.time (always p (.int n)) :=
  .lead fun m hm ↦ ⟨_, p, run_always p _ m, ⟨rfl, hm.1.note _, hm.2⟩, h.takes hr⟩

end Comes

end Standing

end CountryReply

/-- The lookup serves replies that depend on the country and on the lookups that have begun before.
It notes its start. -/
def CountryLookup.Serves (lookup : CountryLookup) (service : List Value → ℤ → CountryReply) :
    Prop :=
  ∀ (before : List Value) (n : ℤ), ∃ p, (service before n).Comes p ∧
    ∀ m : Machine, m.store.lookups = before →
      m.run (lookup (.int n)) = m.run (CountryReply.always p (.int n))

namespace CountryReply

/-- What ends in the name, or in the fault. -/
def ending : Except Fault String → Prog
  | .ok name => Prog.give (.text name)
  | .error f => Prog.fail f

/-- A program that comes to the reply. -/
def prog (r : CountryReply) : Prog := .sleep r.time fun _ ↦ ending r.name

theorem comes_prog (r : CountryReply) : r.Comes r.prog := by
  refine .once (fun m ↦ ?_) r.time
  cases hname : r.name with
  | ok name => exact ⟨m.store, _, rfl, .refl _ _, name, rfl, rfl⟩
  | error f => exact ⟨_, _, rfl, Store.sameBelow_count _ _, rfl⟩

end CountryReply

namespace CountryLookup

/-- The lookup that serves these replies. -/
def ofReplies (service : List Value → ℤ → CountryReply) : CountryLookup
  | .int n =>
    .act (fun s ↦ (.ok (.list 0 s.lookups), { s with lookups := s.lookups ++ [.int n] })) fun
      | .ok (.list _ before) => (service before n).prog
      | o => .done o
  | _ => Prog.give .null

theorem serves_ofReplies (service : List Value → ℤ → CountryReply) :
    (ofReplies service).Serves service := by
  intro before n
  refine ⟨_, (service before n).comes_prog, ?_⟩
  rintro m rfl
  rfl

end CountryLookup

/-- How a directory of countries replies. -/
def Directory.reply (countries : List (ℤ × String)) (latency : List (Value × ℕ)) (n : ℤ) :
    CountryReply where
  time := ((Directory.mk (ofCountries countries).table latency).latency? (.int n)).getD 0
  name :=
    match countries.lookup n with
    | some name => .ok name
    | none => .error (unknownNumber n)

/-- The lookup of a directory serves the names of its countries, each after the same time. -/
theorem Directory.serves_lookup (countries : List (ℤ × String)) (latency : List (Value × ℕ)) :
    (Directory.mk (ofCountries countries).table latency).lookup.Serves fun _ ↦
      reply countries latency := by
  intro before n
  have htells : CountryReply.Tells ⟨0, (reply countries latency n).name⟩
      (Prog.ofAction ((ofCountries countries).name (.int n))) := by
    intro m
    rw [Machine.run_ofAction, Machine.act, name_ofCountries]
    cases hfound : countries.lookup n with
    | some name => exact ⟨m.store, _, rfl, .refl _ _, name, by rw [reply, hfound], rfl⟩
    | none => exact ⟨_, _, rfl, Store.sameBelow_count _ _, by rw [reply, hfound]; rfl⟩
  have hcomes : ∀ {time p}, CountryReply.Comes ⟨time, (reply countries latency n).name⟩ p →
      (reply countries latency n).time = time → (reply countries latency n).Comes p := by
    rintro _ p h rfl
    exact h
  cases hwait : (Directory.mk (ofCountries countries).table latency).latency? (.int n) with
  | none =>
    refine ⟨_, hcomes (.told htells) ?_, fun m _ ↦ by rw [lookup, hwait]; rfl⟩
    rw [reply, hwait, Option.getD_none]
  | some ms =>
    refine ⟨_, hcomes (.once htells ms) ?_, fun m _ ↦ by rw [lookup, hwait]; rfl⟩
    rw [reply, hwait, Option.getD_some]

theorem Directory.isProper_reply (countries : List (ℤ × String)) (latency : List (Value × ℕ))
    (n : ℤ) : (reply countries latency n).IsProper := by
  intro args hargs
  rw [reply] at hargs
  dsimp only at hargs
  split at hargs <;> cases hargs

/-! ### How long addresses take -/

/-- In the company of a run that is by itself, targets may be made like a pattern and written. -/
theorem Builder.Plain.allowed {b : Builder} {s : Store} {pattern : Pattern}
    (h : b.Plain s pattern) : s.company.Lets b.snapshot where
  made hm := by
    obtain ⟨_, target, built, hmade⟩ := h.makes _ hm.1
    exact ⟨target, built, hmade.made⟩
  writes {m m' target v built r} hm hmade hr hm' := by
    obtain ⟨_, target', built', hmade'⟩ := h.makes m hm.1
    cases hmade.symm.trans hmade'.made
    obtain ⟨spot, hbase, _, hland⟩ := h.exists_landing hm.1 hmade' hr
    obtain ⟨result, s', hwrite, hcompleted, _⟩ :=
      Rule.exists_write (h.consistent.valid r hr) target v m'.store
    rw [Machine.act, hwrite]
    refine s.company.own hm' ?_
    cases hcompleted with
    | failed _ hbelow => exact hbelow _
    | whole _ _ hbelow => exact hbelow _
    | written hplace _ hbelow =>
      cases (hland m' hm'.1).symm.trans hplace
      exact hbelow _ hbase

namespace AddressService

section Takes

variable {s : Store} {lookup : CountryLookup} {a : AddressService} {v : Value} {x : Address} {d : ℕ}

/-- How long the rule for an attribute takes: only the lookup of the country takes time. -/
def ruleTime (d : ℕ) (name : String) : ℕ := if name = "country_name" then d else 0

theorem takes_rule (hlookup : s.company.Takes d (lookup (.int x.country))) (hx : s.IsAddress v x) :
    ∀ entry ∈ rules lookup, ∀ r : Rule, r.compute = entry.2 →
      s.company.Takes (ruleTime d entry.1) (r.evaluate v) := by
  rw [rules_eq, List.forall_mem_append, List.forall_mem_singleton]
  refine ⟨fun entry hentry r hr ↦ ?_, fun r hr ↦ ?_⟩
  · rw [ruleTime, if_neg (ne_of_mem_copies entry hentry)]
    exact .of_endsAtOnce (instant_copies hx entry hentry r hr).endsAtOnce
  · rw [Rule.evaluate_asynchronous hr]
    exact ((leads_country hx lookup).takes hlookup).asCoroutine

/-- Mapping an address takes as long as looking its country up. -/
theorem Maps.takes (ha : a.Maps s lookup) (hx : s.IsAddress v x)
    (hlookup : s.company.Takes d (lookup (.int x.country))) :
    s.company.Takes d (a.mapNow v) := by
  obtain ⟨b, owner, hb, hrules, hmapper⟩ := ha
  have hv : v ≠ .null := by
    obtain ⟨ref, rfl, _⟩ := hx
    exact nofun
  have hslowest : (b.snapshot.rules.map fun r ↦ ruleTime d r.attribute).foldr max 0 = d := by
    have hmap := Rule.map_series (ruleTime d) owner 0 (rules lookup)
    rw [← hrules] at hmap
    rw [show b.snapshot.rules = b.rules from rfl, hmap]
    simp [rules, ruleTime]
  have htransform : s.company.Takes d (b.snapshot.transform v).asCoroutine := by
    intro m hm
    rw [← hslowest]
    refine Company.TakesAt.transform hm hb.allowed hb.rules_ne_nil hv fun r hr ↦ ?_
    have hmem : r ∈ Rule.series owner 0 (rules lookup) := hrules ▸ (show r ∈ b.rules from hr)
    obtain ⟨entry, hmem, hslot, hcompute⟩ := Rule.mem_series hmem
    rw [Builder.Plain.attribute_eq hslot]
    exact takes_rule hlookup hx entry hmem r hcompute m hm
  rw [mapNow, hmapper, Prog.andThen_eq]
  refine htransform.bind fun o ↦ ?_
  have hended : ∀ o, s.Instant (fun _ ↦ True) (.done o) := fun _ ↦ Store.instant_done trivial
  cases o with
  | error e => exact (hended _).endsAtOnce
  | ok dto => exact ((Store.Leads.report entry _).instant (hended _)).endsAtOnce

/-- An absent address takes no time. -/
theorem takes_null (a : AddressService) : s.company.Takes 0 (a.mapNow .null) :=
  .of_endsAtOnce fun _ hm ↦ ⟨_, _, rfl, s.company.own hm (Plan.sameBelow_log _ _ _)⟩

/-- The delay comes first. -/
theorem takes_transform (h : s.company.Takes d (a.mapNow v)) :
    s.company.Takes (a.delay + d) (a.transform v).asCoroutine := by
  refine Company.Takes.asCoroutine ?_
  rw [transform]
  split_ifs with hdelay
  · rwa [hdelay, Nat.zero_add]
  · exact .sleep h

end Takes

end AddressService

end Recast
