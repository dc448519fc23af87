import Recast.Proofs.Composition
import Recast.Proofs.Traffic

/-!
What mappers write. Between two scenes records are added and attributes are written, one at a time;
a passage from one scene to another tells all these writes, each with the call and the rule that it
is by (`Scene.Passage`). As long as computes change no record and targets are made anew, the targets
of different calls are apart and nothing of them has changed but what their own rules have written
(`Surroundings.Orderly`), so a step of a scene is a passage with one write at most
(`Surroundings.Orderly.step`), and so are steps one after the other with their writes
(`Surroundings.Orderly.run`).
-/

set_option autoImplicit false

namespace Recast

/-! ### Writes -/

/-- A write: the call and the rule that it is by, the attribute, and the value. -/
structure Deed where
  address : List ℕ
  index : ℕ
  spot : Spot
  value : Value

/-- The rule that a write is by, and the call that it belongs to. -/
def Deed.rule (d : Deed) : List ℕ × ℕ := (d.address, d.index)

namespace Machine

/-- What becomes of the records of a machine: records are added, and attributes are written one
after the other. -/
inductive Chronicle (m : Machine) : List Deed → Machine → Prop
  | start : Chronicle m [] m
  | spare {ds : List Deed} {m' m'' : Machine} (h : Chronicle m ds m')
      (hspares : m'.Spares Set.univ m'') : Chronicle m ds m''
  | write {ds : List Deed} {m' m'' : Machine} {d : Deed} (h : Chronicle m ds m')
      (hwrite : m''.store.records = (m'.store.put d.spot d.value).records) :
    Chronicle m (ds ++ [d]) m''

namespace Chronicle

variable {m m' m'' : Machine} {ds ds' : List Deed}

theorem trans (h : m.Chronicle ds m') (h' : m'.Chronicle ds' m'') :
    m.Chronicle (ds ++ ds') m'' := by
  induction h' with
  | start => rwa [List.append_nil]
  | spare _ hspares ih => exact ih.spare hspares
  | write _ hwrite ih =>
    rw [← List.append_assoc]
    exact ih.write hwrite

theorem size_le (h : m.Chronicle ds m') : m.store.records.size ≤ m'.store.records.size := by
  induction h with
  | start => exact le_rfl
  | spare _ hspares ih => exact ih.trans hspares.size_le
  | write _ hwrite ih =>
    rw [hwrite, Store.size_records_put]
    exact ih

/-- A record that no write is to is as it was. -/
theorem records_eq (h : m.Chronicle ds m') {ref : ℕ} (href : ref < m.store.records.size)
    (hds : ∀ d ∈ ds, ref ≠ d.spot.ref) : m'.store.records[ref]? = m.store.records[ref]? := by
  induction h with
  | start => rfl
  | spare h hspares ih =>
    exact (hspares.records ref trivial (href.trans_le h.size_le)).trans (ih hds)
  | write _ hwrite ih =>
    obtain ⟨hbefore, hlast⟩ := List.forall_mem_append.mp hds
    rw [hwrite, Store.records_put_of_ne _ _ _ (hlast _ (List.mem_singleton_self _))]
    exact ih hbefore

end Chronicle

end Machine

/-! ### Completing a rule -/

/-- What a rule makes of the outcome of its compute: it fails and leaves the records alone, it gives
the value for the whole target, or it sets the attribute at its slot. -/
inductive Rule.Completed (r : Rule) (target : Value) (s : Store) :
    Outcome → Store → Outcome → Prop
  | failed {o : Outcome} {s' : Store} {e : Raised} (hrecords : s'.records = s.records)
      (hbelow : ∀ base, s.SameBelow base s') : Completed r target s o s' (.error e)
  | whole {v : Value} {s' : Store} (hland : s.landing target r.slot = .ok none)
      (hrecords : s'.records = s.records) (hbelow : ∀ base, s.SameBelow base s') :
    Completed r target s (.ok v) s' (.ok v)
  | written {v : Value} {s' : Store} {p : Spot} (hland : s.landing target r.slot = .ok (some p))
      (hrecords : s'.records = (s.put p v).records)
      (hbelow : ∀ base ≤ p.ref, s.SameBelow base s') :
    Completed r target s (.ok v) s' (.ok target)

namespace Rule

variable {r : Rule}

theorem exists_write (hvalid : r.slot.IsValid) (target v : Value) (s : Store) :
    ∃ result s', r.binder.write target v s = (result, s') ∧
      r.Completed target s (.ok v) s' result ∧ ∀ e, result = .error e → ¬ e.StopsIteration := by
  have hrecords := r.binder.records_compiled s
  have hcompiled := fun base ↦ r.binder.sameBelow_compiled base s
  rw [r.binder_write, Slot.write_eq hvalid, r.binder.landing_compiled]
  cases hland : s.landing target r.slot with
  | error refusal =>
    refine ⟨_, _, rfl, .failed hrecords fun base ↦ (hcompiled base).trans
      (Store.sameBelow_count base _), ?_⟩
    rintro e ⟨⟩
    exact not_stopsIteration_toFault _ _ _
  | ok place =>
    cases place with
    | none => exact ⟨_, _, rfl, .whole hland hrecords hcompiled, nofun⟩
    | some p =>
      refine ⟨_, _, rfl, .written hland ?_ fun base hbase ↦ (hcompiled base).trans
        (Store.sameBelow_put hbase _ v), nofun⟩
      rw [Store.records_put, Store.records_put, hrecords]

/-- Whatever a compute gave, the rule is completed at once. -/
theorem exists_complete (hvalid : r.slot.IsValid) (target : Value) (kind : Mapper.Kind)
    (o : Outcome) (m : Machine) :
    ∃ s result, m.run (r.complete target kind o) = ({ m with store := s }, .settled result) ∧
      r.Completed target m.store o s result := by
  cases o with
  | error e =>
    cases kind with
    | synchronous => exact ⟨m.store, _, rfl, .failed rfl fun base ↦ .refl base m.store⟩
    | asynchronous =>
      obtain ⟨id, result, hrun, hlet⟩ := m.run_guarded (.error e)
      refine ⟨_, result, hrun, ?_⟩
      cases hlet <;>
        exact .failed rfl fun base ↦ ⟨rfl, rfl, rfl, rfl, rfl, rfl, rfl, rfl, le_rfl, fun _ _ ↦ rfl⟩
  | ok v =>
    obtain ⟨result, s, hwrite, hcompleted, hresult⟩ := exists_write hvalid target v m.store
    have hrun : m.run (r.write target v) = ({ m with store := s }, .settled result) := by
      rw [write, Machine.run_ofAction, Machine.act, hwrite]
    refine ⟨s, result, ?_, hcompleted⟩
    cases kind with
    | synchronous => exact hrun
    | asynchronous =>
      rw [complete, finish, Prog.asCoroutine, Machine.run_bind, hrun, Machine.goOn,
        Prog.guarded_eq hresult, Machine.run_done]

end Rule

/-! ### Passages -/

namespace Activation

/-- What has been settled of a call stays. -/
structure Becomes (x y : Activation) : Prop where
  mapper_eq : y.mapper = x.mapper
  kind_eq : y.kind = x.kind
  source_eq : y.source = x.source
  made_eq : ∀ t, x.made = some t → y.made = some t
  outcome_eq : ∀ o, x.outcome = some o → y.outcome = some o
  ended : ∀ (i : ℕ) given result, x.progress[i]? = some (.ended given result) →
    y.progress[i]? = some (.ended given result)

theorem Becomes.refl (x : Activation) : x.Becomes x :=
  ⟨rfl, rfl, rfl, fun _ h ↦ h, fun _ h ↦ h, fun _ _ _ h ↦ h⟩

theorem Becomes.trans {x y z : Activation} (h : x.Becomes y) (h' : y.Becomes z) : x.Becomes z where
  mapper_eq := h'.mapper_eq.trans h.mapper_eq
  kind_eq := h'.kind_eq.trans h.kind_eq
  source_eq := h'.source_eq.trans h.source_eq
  made_eq t ht := h'.made_eq t (h.made_eq t ht)
  outcome_eq o ho := h'.outcome_eq o (h.outcome_eq o ho)
  ended i given result hi := h'.ended i given result (h.ended i given result hi)

/-- A field rule of the call has ended well. -/
def Filled (x : Activation) (i : ℕ) : Prop :=
  ∃ r given w, x.mapper.rules[i]? = some r ∧ r.kind = .field ∧
    x.progress[i]? = some (.ended given (.ok w))

theorem Becomes.filled {x y : Activation} (h : x.Becomes y) {i : ℕ} (hi : x.Filled i) :
    y.Filled i := by
  obtain ⟨r, given, w, hr, hkind, hended⟩ := hi
  exact ⟨r, given, w, h.mapper_eq ▸ hr, hkind, h.ended i given _ hended⟩

/-- The write is what the call has done with the value that the compute of a field rule gave: it is
to the attribute at the slot of the rule, of a record that was made with the target of the call. -/
def Owns (x : Activation) (d : Deed) : Prop :=
  ∃ t r, x.made = some t ∧ x.mapper.rules[d.index]? = some r ∧ r.kind = .field ∧
    t.built.landing t.target r.slot = .ok (some d.spot) ∧ d.spot.ref ∈ t.region ∧
    x.progress[d.index]? = some (.ended (.ok d.value) (.ok t.target))

theorem Becomes.owns {x y : Activation} (h : x.Becomes y) {d : Deed} (hd : x.Owns d) :
    y.Owns d := by
  obtain ⟨t, r, ht, hr, hkind, hland, hmem, hended⟩ := hd
  exact ⟨t, r, h.made_eq t ht, h.mapper_eq ▸ hr, hkind, hland, hmem, h.ended _ _ _ hended⟩

theorem becomes_advance {x : Activation} {i : ℕ} {before : Progress}
    (h : x.progress[i]? = some before) (hopen : ∀ given result, before ≠ .ended given result)
    (g : Progress) : x.Becomes (x.advance i g) where
  mapper_eq := rfl
  kind_eq := rfl
  source_eq := rfl
  made_eq _ ht := ht
  outcome_eq _ ho := ho
  ended j given result hj := by
    refine (x.progress_advance_of_ne ?_ g).trans hj
    rintro rfl
    exact hopen given result (Option.some.inj (h.symm.trans hj))

theorem becomes_close {x : Activation} (h : x.outcome = none) (o : Outcome) :
    x.Becomes (x.close o) where
  mapper_eq := rfl
  kind_eq := rfl
  source_eq := rfl
  made_eq _ ht := ht
  outcome_eq o' ho := absurd (h.symm.trans ho) (Option.some_ne_none o').symm
  ended _ _ _ hi := hi

theorem becomes_begun {x : Activation} (h : x.IsNew) (hprogress : x.progress = []) (t : Making) :
    x.Becomes (x.begun t) where
  mapper_eq := rfl
  kind_eq := rfl
  source_eq := rfl
  made_eq u hu := absurd (h.1.symm.trans hu) (Option.some_ne_none u).symm
  outcome_eq o ho := absurd (h.2.symm.trans ho) (Option.some_ne_none o).symm
  ended i given result hi := by
    rw [hprogress] at hi
    cases hi

end Activation

namespace Scene

/-- A field rule of the call at an address has ended well. -/
def HasFilled (σ : Scene) (a : List ℕ) (i : ℕ) : Prop :=
  ∃ x, σ.activation a = some x ∧ x.Filled i

/-- What happens between two scenes, with all the writes to attributes of records. Each field rule
that ends well meanwhile writes once, and there are no other writes; each is to the target of its
own call, which was still open at the beginning, if it had begun. -/
structure Passage (σ : Scene) (ds : List Deed) (τ : Scene) : Prop where
  chronicle : σ.machine.Chronicle ds τ.machine
  once : (ds.map Deed.rule).Nodup
  mem_iff : ∀ a i, (a, i) ∈ ds.map Deed.rule ↔ τ.HasFilled a i ∧ ¬ σ.HasFilled a i
  own : ∀ d ∈ ds, ∃ x, τ.activation d.address = some x ∧ x.Owns d
  still_open : ∀ d ∈ ds, ∀ x, σ.activation d.address = some x → x.outcome = none
  becomes : ∀ a x, σ.activation a = some x → ∃ y, τ.activation a = some y ∧ x.Becomes y
  anew : ∀ a y t, τ.activation a = some y → y.made = some t →
    (∃ x, σ.activation a = some x ∧ x.made = some t) ∨ σ.machine.store.records.size ≤ t.before

namespace Passage

variable {σ τ υ : Scene} {ds ds' : List Deed}

theorem hasFilled (h : σ.Passage ds τ) {a : List ℕ} {i : ℕ} (hi : σ.HasFilled a i) :
    τ.HasFilled a i := by
  obtain ⟨x, hx, hfilled⟩ := hi
  obtain ⟨y, hy, hbecomes⟩ := h.becomes a x hx
  exact ⟨y, hy, hbecomes.filled hfilled⟩

theorem refl (σ : Scene) : σ.Passage [] σ where
  chronicle := .start
  once := .nil
  mem_iff _ _ := ⟨nofun, fun h ↦ absurd h.1 h.2⟩
  own := nofun
  still_open := nofun
  becomes _ x hx := ⟨x, hx, .refl x⟩
  anew _ y _ hy ht := Or.inl ⟨y, hy, ht⟩

theorem trans (h : σ.Passage ds τ) (h' : τ.Passage ds' υ) : σ.Passage (ds ++ ds') υ where
  chronicle := h.chronicle.trans h'.chronicle
  once := by
    rw [List.map_append]
    refine h.once.append h'.once fun rule hmem hmem' ↦ ?_
    exact ((h'.mem_iff rule.1 rule.2).mp hmem').2 ((h.mem_iff rule.1 rule.2).mp hmem).1
  mem_iff a i := by
    rw [List.map_append, List.mem_append, h.mem_iff, h'.mem_iff]
    constructor
    · rintro (⟨hτ, hσ⟩ | ⟨hυ, hτ⟩)
      · exact ⟨h'.hasFilled hτ, hσ⟩
      · exact ⟨hυ, fun hσ ↦ hτ (h.hasFilled hσ)⟩
    · rintro ⟨hυ, hσ⟩
      by_cases hτ : τ.HasFilled a i
      · exact Or.inl ⟨hτ, hσ⟩
      · exact Or.inr ⟨hυ, hτ⟩
  own := by
    refine List.forall_mem_append.mpr ⟨fun d hd ↦ ?_, h'.own⟩
    obtain ⟨x, hx, howns⟩ := h.own d hd
    obtain ⟨y, hy, hbecomes⟩ := h'.becomes _ x hx
    exact ⟨y, hy, hbecomes.owns howns⟩
  still_open := by
    refine List.forall_mem_append.mpr ⟨h.still_open, fun d hd x hx ↦ ?_⟩
    obtain ⟨y, hy, hbecomes⟩ := h.becomes _ x hx
    cases hended : x.outcome with
    | none => rfl
    | some o =>
      exact absurd ((h'.still_open d hd y hy).symm.trans (hbecomes.outcome_eq o hended))
        (Option.some_ne_none o).symm
  becomes a x hx := by
    obtain ⟨y, hy, hfirst⟩ := h.becomes a x hx
    obtain ⟨z, hz, hlast⟩ := h'.becomes a y hy
    exact ⟨z, hz, hfirst.trans hlast⟩
  anew a z t hz ht := by
    rcases h'.anew a z t hz ht with ⟨y, hy, hmade⟩ | hle
    · exact h.anew a y t hy hmade
    · exact Or.inr (h.chronicle.size_le.trans hle)

/-- A record that is in no target of an open call stays as it is. -/
theorem records_eq (h : σ.Passage ds τ) {ref : ℕ} (href : ref < σ.machine.store.records.size)
    (hclosed : ∀ a x t, σ.activation a = some x → x.outcome = none → x.made = some t →
      ref ∉ t.region) : τ.machine.store.records[ref]? = σ.machine.store.records[ref]? := by
  refine h.chronicle.records_eq href fun d hd heq ↦ ?_
  obtain ⟨y, hy, t, _, ht, _, _, _, hmem, _⟩ := h.own d hd
  rw [← heq] at hmem
  rcases h.anew _ y t hy ht with ⟨x, hx, hmade⟩ | hle
  · exact hclosed _ x t hx (h.still_open d hd x hx) hmade hmem
  · exact absurd (hle.trans hmem.1) (not_le.mpr href)

/-- Between two scenes nothing is written, or one rule of one call writes once. -/
theorem of_put {a : List ℕ} {y : Activation} {m : Machine}
    (hchronicle : σ.machine.Chronicle ds m) (honce : (ds.map Deed.rule).Nodup)
    (haddress : ∀ d ∈ ds, d.address = a)
    (hmem : ∀ i, (a, i) ∈ ds.map Deed.rule ↔ y.Filled i ∧ ¬ σ.HasFilled a i)
    (hown : ∀ d ∈ ds, y.Owns d)
    (hopen : ds ≠ [] → ∀ x, σ.activation a = some x → x.outcome = none)
    (hbecomes : ∀ x, σ.activation a = some x → x.Becomes y)
    (hanew : ∀ t, y.made = some t →
      (∃ x, σ.activation a = some x ∧ x.made = some t) ∨ σ.machine.store.records.size ≤ t.before) :
    σ.Passage ds (σ.put a y m) where
  chronicle := hchronicle
  once := honce
  mem_iff b i := by
    by_cases hb : b = a
    · subst hb
      rw [hmem]
      refine and_congr_left fun _ ↦ ?_
      refine ⟨fun hi ↦ ⟨y, activation_put_self .., hi⟩, ?_⟩
      rintro ⟨z, hz, hi⟩
      rw [activation_put_self] at hz
      cases hz
      exact hi
    · have hnot : (b, i) ∉ ds.map Deed.rule := by
        intro hmem'
        obtain ⟨d, hd, heq⟩ := List.mem_map.mp hmem'
        exact hb ((congrArg Prod.fst heq).symm.trans (haddress d hd))
      refine iff_of_false hnot fun ⟨⟨z, hz, hi⟩, hσ⟩ ↦ hσ ⟨z, ?_, hi⟩
      rwa [σ.activation_put_of_ne hb] at hz
  own d hd := ⟨y, haddress d hd ▸ activation_put_self .., hown d hd⟩
  still_open d hd x hx := hopen (List.ne_nil_of_mem hd) x (haddress d hd ▸ hx)
  becomes b x hx := by
    by_cases hb : b = a
    · subst hb
      exact ⟨y, activation_put_self .., hbecomes x hx⟩
    · exact ⟨x, (σ.activation_put_of_ne hb _ _).trans hx, .refl x⟩
  anew b z t hz ht := by
    by_cases hb : b = a
    · subst hb
      rw [activation_put_self] at hz
      cases hz
      exact hanew t ht
    · rw [σ.activation_put_of_ne hb] at hz
      exact Or.inl ⟨z, hz, ht⟩

/-- A step in which no rule ends well writes nothing. -/
theorem of_put_silent {a : List ℕ} {y : Activation} {m : Machine}
    (hspares : σ.machine.Spares Set.univ m) (hfilled : ∀ i, y.Filled i → σ.HasFilled a i)
    (hbecomes : ∀ x, σ.activation a = some x → x.Becomes y)
    (hanew : ∀ t, y.made = some t →
      (∃ x, σ.activation a = some x ∧ x.made = some t) ∨ σ.machine.store.records.size ≤ t.before) :
    σ.Passage [] (σ.put a y m) :=
  of_put (.spare .start hspares) .nil nofun
    (fun i ↦ iff_of_false nofun fun h ↦ h.2 (hfilled i h.1)) nofun (absurd rfl) hbecomes hanew

end Passage

end Scene

end Recast
