import Recast.Api.Context
import Recast.Proofs.Reporting

/-!
Servers and the machines in them. That a server keeps a context for every process changes nothing in
what its machine does: runs of programs (`Api.Server.machine_follows`) and the answers to requests
(`Api.Engine.Follows.respond`) are those of the machine alone. Every record that is added has the
context of a process that there was, or of one that such a process has made, so that what holds of
all contexts holds of the context of every record that is added (`Api.Server.Grows`).
-/

set_option autoImplicit false

namespace Recast.Api

/-! ### Engines that follow each other -/

/-- What is done on one engine is done on another one alike, which sees less of the state and
nothing of the variable. -/
structure Engine.Follows {M M' : Type} (e' : Engine M') (view : M → M') (e : Engine M) : Prop where
  store : ∀ m, e'.store (view m) = e.store m
  act : ∀ {α : Type} (m : M) (a : Action α), e'.act (view m) a = (e.act m a).map id view
  complete : ∀ (m : M) (p : Prog), e'.complete (view m) p = (e.complete m p).map id view
  holding : ∀ (m : M) (number number' : Option String),
    e'.holding (view m) number = view (e.holding m number')

namespace Engine.Follows

variable {M M' : Type} {e : Engine M} {view : M → M'} {e' : Engine M'} (h : e'.Follows view e)

include h

theorem answering (m : M) (answer : Action Response) :
    Api.answering e' (view m) answer = (Api.answering e m answer).map id view := by
  unfold Api.answering
  rw [h.act]
  obtain ⟨_ | _, _⟩ := e.act m answer <;> rfl

theorem answerCustomer (a : Application) (r : Request) (number : String) (n : Value) (m : M) :
    Api.answerCustomer e' a r number n (view m) =
      (Api.answerCustomer e a r number n m).map id view := by
  unfold Api.answerCustomer
  rw [h.complete]
  obtain ⟨raised | v, m'⟩ := e.complete m (a.service.getById n)
  · simp only [Prod.map_apply, id]
    cases answerFault r number raised.fault with
    | none => rfl
    | some answer => exact h.answering m' answer
  · simp [h.store]

theorem handle (a : Application) (r : Request) (number : String) (m : M) :
    Api.handle e' a r number (view m) = (Api.handle e a r number m).map id view := by
  unfold Api.handle
  cases destination r.verb r.path with
  | route route =>
    cases route with
    | health => simp [h.store]
    | customer text =>
      dsimp only
      cases customerNumber text with
      | ok n => exact h.answerCustomer a r number n m
      | error issues => exact h.answering m _
  | wrongMethod => exact h.answering m _
  | redirection path => rfl
  | nowhere => exact h.answering m _

theorem answerOutside (r : Request) (number : String) (f : Fault) (m : M) :
    Api.answerOutside e' r number f (view m) = (Api.answerOutside e r number f m).map id view := by
  unfold Api.answerOutside
  rw [h.act]
  obtain ⟨_ | _, _⟩ := e.act m (answerUnhandled r number f) <;> rfl

theorem conclude (a : Application) (r : Request) (path number : String) (handled : Handled)
    (m : M) : Api.conclude e' a r path number handled (view m) =
      (Api.conclude e a r path number handled m).map id view := by
  unfold Api.conclude
  cases handled with
  | ok response => simp only [h.act, Prod.map_apply, Prod.map_snd, id]
  | error f => exact h.answerOutside r number f m

/-- A request is answered on both alike. -/
theorem respond (a : Application) (r : Request) (new : String) (m : M) :
    Api.respond e' a r new (view m) = (Api.respond e a r new m).map id view := by
  unfold Api.respond
  dsimp only
  rw [h.holding m _ (some (r.id new))]
  cases r.shownPath with
  | error f => exact h.answerOutside r (r.id new) f _
  | ok path =>
    have hbegin : ∀ m, begin e' r path (view m) = view (begin e r path m) := by
      intro m
      simp only [begin, h.act, Prod.map_snd]
    dsimp only
    rw [hbegin, h.handle]
    generalize Api.handle e a r (r.id new) (begin e r path (e.holding m (some (r.id new)))) = t
    obtain ⟨handled, m'⟩ := t
    simp only [Prod.map_apply, id]
    rw [h.holding m' _ (e.number m)]
    exact h.conclude a r path (r.id new) handled _

end Engine.Follows

/-! ### The machine of a server -/

namespace Server

theorem machine_advanceTasks (s : Server) :
    s.advanceTasks.machine = s.machine.advanceTasks := by
  rw [advanceTasks, Machine.advanceTasks]
  generalize List.range s.machine.tasks.size = is
  induction is generalizing s with
  | nil => simp
  | cons i rest ih =>
    rw [List.foldl_cons, List.foldl_cons]
    exact ih (s.advanceTask i)

theorem machine_advanceAll (ps : List (Proc × Context)) (s : Server) :
    ((advanceAll ps s).1.machine, (advanceAll ps s).2.map Prod.fst) =
      Machine.advanceAll (ps.map Prod.fst) s.machine := by
  induction ps generalizing s with
  | nil => simp [advanceAll, Machine.advanceAll]
  | cons p rest ih =>
    have hrest : _ = Machine.advanceAll (rest.map Prod.fst) (Machine.advance p.1 s.machine).1 :=
      ih (s.carry p.2 (Machine.advance p.1 s.machine).1)
    simp only [List.map_cons, Machine.advanceAll, advanceAll]
    rw [← hrest]

theorem machine_advanceStrays (s : Server) :
    s.advanceStrays.machine = s.machine.advanceStrays := by
  have hstrays : (s.machine.strays.zipIdx.map fun p ↦ (p.1, s.strays p.2)).map Prod.fst =
      s.machine.strays := by
    rw [List.map_map]
    exact List.zipIdx_map_fst 0 s.machine.strays
  have hall := machine_advanceAll (s.machine.strays.zipIdx.map fun p ↦ (p.1, s.strays p.2))
    { s with machine := { s.machine with strays := [] } }
  rw [hstrays] at hall
  rw [advanceStrays, Machine.advanceStrays, ← hall]
  simp only [List.filter_map]
  rfl

theorem machine_round (s : Server) (legs : List Leg) :
    ((s.round legs).1.machine, (s.round legs).2) = s.machine.round legs := by
  rw [Machine.round, ← machine_advanceTasks, ← machine_advanceStrays]
  rfl

theorem machine_settle (fuel : ℕ) (s : Server) (legs : List Leg) :
    ((settle fuel s legs).1.machine, (settle fuel s legs).2) =
      Machine.settle fuel s.machine legs := by
  induction fuel generalizing s legs with
  | zero => rfl
  | succ fuel ih =>
    rw [settle, Machine.settle]
    by_cases hopen : (!legs.any Leg.isOpen) = true
    · simp only [hopen, if_true]
    by_cases hbusy : s.machine.isBusy legs = true
    · simp only [hopen, hbusy, if_true, if_false, Bool.false_eq_true]
      rw [ih, ← machine_round]
    · simp only [hopen, hbusy, if_false, Bool.false_eq_true]
      cases s.machine.nextTime? legs with
      | none => rfl
      | some t => exact ih _ _

/-- A server follows its machine. -/
theorem machine_follows : Engine.machine.Follows Server.machine engine where
  store _ := rfl
  act _ _ := rfl
  complete s p := by
    have hsettle := machine_settle Machine.roundLimit s [Leg.start p s.machine.store.now none]
    simp only [Engine.machine, engine, complete, Machine.complete]
    rw [← hsettle]
    obtain ⟨t, legs⟩ := settle Machine.roundLimit s [Leg.start p s.machine.store.now none]
    rcases legs with _ | ⟨l, _ | ⟨l', rest⟩⟩ <;> rfl
  holding _ _ _ := rfl

/-! ### Records and contexts -/

/-- What the machine runs keeps to records of a kind, and every process has a context of a kind. -/
structure Sound (fits : Context → Prop) (kind : Log.Entry → Prop) (s : Server) : Prop where
  machine : s.machine.Reports kind
  tasks : ∀ i < s.machine.tasks.size, fits (s.tasks i)
  strays : ∀ i < s.machine.strays.length, fits (s.strays i)

/-- A server has gone on: what serves is in the same context, and only records of the kind were
added, by processes with contexts of the kind. -/
structure Grows (fits : Context → Prop) (kind : Log.Entry → Prop) (s s' : Server) : Prop where
  sound : s'.Sound fits kind
  current : s'.current = s.current
  served : s'.served = s.served
  emissions : ∃ es, s'.emissions = s.emissions ++ es ∧ ∀ e ∈ es, fits e.context ∧ kind e.entry

section Growth

variable {fits : Context → Prop} {kind : Log.Entry → Prop} {s s' s'' : Server} {c : Context}
  {m : Machine}

theorem Grows.refl (h : s.Sound fits kind) : s.Grows fits kind s :=
  ⟨h, rfl, rfl, [], by simp, by simp⟩

theorem Grows.trans (h : s.Grows fits kind s') (h' : s'.Grows fits kind s'') :
    s.Grows fits kind s'' := by
  obtain ⟨es, hes, hall⟩ := h.emissions
  obtain ⟨es', hes', hall'⟩ := h'.emissions
  refine ⟨h'.sound, h'.current.trans h.current, h'.served.trans h.served, es ++ es', ?_, ?_⟩
  · rw [hes', hes, List.append_assoc]
  · exact List.forall_mem_append.mpr ⟨hall, hall'⟩

theorem Sound.mono {fits' : Context → Prop} (h : s.Sound fits kind)
    (hfits : ∀ c, fits c → fits' c) : s.Sound fits' kind :=
  ⟨h.machine, fun i hi ↦ hfits _ (h.tasks i hi), fun i hi ↦ hfits _ (h.strays i hi)⟩

/-- What is done in a context adds records with this context, and makes processes with it. -/
theorem Sound.carry (h : s.Sound fits kind) (hc : fits c) (hm : m.Reports kind)
    (hlog : s.machine.store.Reports kind m.store) : s.Grows fits kind (s.carry c m) := by
  obtain ⟨es, hes, hall⟩ := hlog
  refine ⟨⟨hm, fun i _ ↦ ?_, fun i _ ↦ ?_⟩, rfl, rfl, es.map (⟨·, c⟩), ?_, ?_⟩
  · by_cases hi : i < s.machine.tasks.size
    · simpa [Server.carry, hi] using h.tasks i hi
    · simpa [Server.carry, hi] using hc
  · by_cases hi : i < s.machine.strays.length
    · simpa [Server.carry, hi] using h.strays i hi
    · simpa [Server.carry, hi] using hc
  · simp [Server.carry, hes]
  · exact List.forall_mem_map.mpr fun e he ↦ ⟨hc, hall e he⟩

/-- What makes no process may be done in any context. -/
theorem Sound.of_carry (h : s.Sound fits kind) (c : Context) (hm : m.Reports kind)
    (htasks : m.tasks.size = s.machine.tasks.size)
    (hstrays : m.strays.length = s.machine.strays.length) : (s.carry c m).Sound fits kind := by
  refine ⟨hm, fun i hi ↦ ?_, fun i hi ↦ ?_⟩
  · have hi' : i < s.machine.tasks.size := htasks ▸ hi
    simpa [Server.carry, hi'] using h.tasks i hi'
  · have hi' : i < s.machine.strays.length := hstrays ▸ hi
    simpa [Server.carry, hi'] using h.strays i hi'

theorem Sound.of_act {α : Type} (h : s.Sound fits kind) (a : Action α) :
    (s.act a).2.Sound fits kind := h.of_carry _ (h.machine.withStore _) rfl rfl

theorem Sound.advanceTask (h : s.Sound fits kind) (i : ℕ) :
    s.Grows fits kind (s.advanceTask i) := by
  by_cases hi : i < s.machine.tasks.size
  · obtain ⟨hm, hlog⟩ := Machine.advanceTask_reports i h.machine
    exact h.carry (h.tasks i hi) hm hlog
  · have hsame : Machine.advanceTask i s.machine = s.machine := by
      rw [Machine.advanceTask, Array.getElem?_eq_none (Nat.le_of_not_lt hi)]
    rw [Server.advanceTask, hsame]
    exact ⟨h.of_carry _ h.machine rfl rfl, rfl, rfl, [], by simp [Server.carry], by simp⟩

theorem Sound.advanceTasks (h : s.Sound fits kind) : s.Grows fits kind s.advanceTasks := by
  rw [Server.advanceTasks]
  generalize List.range s.machine.tasks.size = is
  induction is generalizing s with
  | nil => exact .refl h
  | cons i rest ih =>
    have hfirst := h.advanceTask i
    exact hfirst.trans (ih hfirst.sound)

theorem Sound.advanceAll {ps : List (Proc × Context)} (h : s.Sound fits kind)
    (hps : ∀ p ∈ ps, p.1.Reports kind ∧ fits p.2) :
    s.Grows fits kind (advanceAll ps s).1 ∧
      ∀ p ∈ (advanceAll ps s).2, p.1.Reports kind ∧ fits p.2 := by
  induction ps generalizing s with
  | nil => exact ⟨.refl h, by simp [Server.advanceAll]⟩
  | cons p rest ih =>
    obtain ⟨⟨hp, hc⟩, hrest⟩ := List.forall_mem_cons.mp hps
    have hadvanced := Machine.advance_arrives hp h.machine
    have hfirst := h.carry hc hadvanced.machine hadvanced.log
    obtain ⟨hgrows, hleft⟩ := ih hfirst.sound hrest
    exact ⟨hfirst.trans hgrows, List.forall_mem_cons.mpr ⟨⟨hadvanced.proc, hc⟩, hleft⟩⟩

theorem Sound.advanceStrays (h : s.Sound fits kind) : s.Grows fits kind s.advanceStrays := by
  have hstrays : ∀ p ∈ s.machine.strays.zipIdx.map fun p ↦ (p.1, s.strays p.2),
      p.1.Reports kind ∧ fits p.2 := by
    refine List.forall_mem_map.mpr fun p hp ↦ ?_
    exact ⟨h.machine.strays p.1 (List.fst_mem_of_mem_zipIdx hp),
      h.strays p.2 (List.snd_lt_of_mem_zipIdx hp)⟩
  have hempty : Sound fits kind { s with machine := { s.machine with strays := [] } } :=
    ⟨⟨h.machine.functions, h.machine.bodies, h.machine.tasks, h.machine.customs, by simp⟩,
      h.tasks, by simp⟩
  obtain ⟨hgrows, hleft⟩ := hempty.advanceAll hstrays
  rw [Server.advanceStrays]
  generalize Server.advanceAll (s.machine.strays.zipIdx.map fun p ↦ (p.1, s.strays p.2))
    { s with machine := { s.machine with strays := [] } } = t at hgrows hleft
  obtain ⟨after, ps⟩ := t
  obtain ⟨⟨hm, htasks, hafter⟩, hcurrent, hserved, hemissions⟩ := hgrows
  have hkept : ∀ p ∈ ps.filter fun p ↦ p.1.isOpen, p.1.Reports kind ∧ fits p.2 :=
    fun p hp ↦ hleft p (List.mem_filter.mp hp).1
  refine ⟨⟨⟨hm.functions, hm.bodies, hm.tasks, hm.customs, ?_⟩, htasks, fun i hi ↦ ?_⟩,
    hcurrent, hserved, hemissions⟩
  · refine List.forall_mem_append.mpr ⟨List.forall_mem_map.mpr fun p hp ↦ (hkept p hp).1, ?_⟩
    exact hm.strays
  · dsimp only
    cases hkeeps : ((ps.filter fun p ↦ p.1.isOpen).map Prod.snd)[i]? with
    | none =>
      have hlength := List.getElem?_eq_none_iff.mp hkeeps
      simp only [List.length_append, List.length_map] at hi hlength
      dsimp only at hafter
      exact hafter _ (by omega)
    | some c =>
      obtain ⟨p, hp, rfl⟩ := List.mem_map.mp (List.mem_of_getElem? hkeeps)
      exact (hkept p hp).2

theorem Sound.round {legs : List Leg} (h : s.Sound fits kind) (hc : fits s.current)
    (hlegs : ∀ l ∈ legs, l.Reports kind) :
    s.Grows fits kind (s.round legs).1 ∧ ∀ l ∈ (s.round legs).2, l.Reports kind := by
  have hgrows := h.advanceTasks.trans h.advanceTasks.sound.advanceStrays
  obtain ⟨hm, hlog, hlegs'⟩ := Machine.advanceLegs_reports hgrows.sound.machine hlegs
  exact ⟨hgrows.trans (hgrows.sound.carry (hgrows.current.symm ▸ hc) hm hlog), hlegs'⟩

theorem Sound.settle {legs : List Leg} (fuel : ℕ) (h : s.Sound fits kind) (hc : fits s.current)
    (hlegs : ∀ l ∈ legs, l.Reports kind) : s.Grows fits kind (settle fuel s legs).1 := by
  induction fuel generalizing s legs with
  | zero => exact .refl h
  | succ fuel ih =>
    rw [Server.settle]
    by_cases hopen : (!legs.any Leg.isOpen) = true
    · simpa only [hopen, if_true] using .refl h
    by_cases hbusy : s.machine.isBusy legs = true
    · obtain ⟨hgrows, hlegs'⟩ := h.round hc hlegs
      simpa only [hopen, hbusy, if_true, if_false, Bool.false_eq_true] using
        hgrows.trans (ih hgrows.sound (hgrows.current.symm ▸ hc) hlegs')
    · simp only [hopen, hbusy, if_false, Bool.false_eq_true]
      cases s.machine.nextTime? legs with
      | none => exact .refl h
      | some t =>
        dsimp only
        rw [Machine.enforce_eq hlegs]
        have hlater := h.carry hc (h.machine.withStore
          { s.machine.store with now := max t s.machine.store.now }) (.of_log_eq rfl)
        exact hlater.trans (ih hlater.sound hc hlegs)

theorem Sound.complete (h : s.Sound fits kind) (hc : fits s.current) {p : Prog}
    (hp : p.Reports kind) : s.Grows fits kind (s.complete p).2 := by
  have hleg : ∀ l ∈ [Leg.start p s.machine.store.now none], l.Reports kind := by
    simpa using ⟨.fresh hp, rfl⟩
  have hsettle := h.settle Machine.roundLimit hc hleg
  rw [Server.complete]
  generalize Server.settle Machine.roundLimit s [Leg.start p s.machine.store.now none] = t
    at hsettle
  obtain ⟨t, legs⟩ := t
  rcases legs with _ | ⟨l, _ | ⟨l', rest⟩⟩ <;> exact hsettle

theorem Sound.act {α : Type} (h : s.Sound fits kind) (hc : fits s.current) {a : Action α}
    (ha : a.Reports kind) : s.Grows fits kind (s.act a).2 :=
  h.carry hc (h.machine.withStore _) (ha s.machine.store)

end Growth

end Server

end Recast.Api
