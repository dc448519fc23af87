import Recast.Proofs.Verdict
import Mathlib.Data.List.Dedup

/-!
Slots that are given as they are. A slot that no text names may have dots in its segments, so two
different paths can have one key. Registrations compare paths but keep the claimed slots by key, so
of two rules with one key the later takes the place of the earlier among the claims. Whatever is
registered, each key is claimed once, and the keys of the rules are claimed (`Builder.Listed`). The
keys of the rules are distinct as long as no slot has a dot in a segment; where a dot makes two
paths look alike, they need not be (`Usage.keys_are_distinct_but_for_dots`,
`Usage.two_rules_with_one_key`).
-/

set_option autoImplicit false

namespace Recast

/-! ### Keys without dots -/

namespace Slot

/-- No segment holds a dot, so that the key splits into the segments again. -/
def IsDotless (s : Slot) : Prop := ∀ segment ∈ s.path, '.' ∉ segment.toList

instance (s : Slot) : Decidable s.IsDotless :=
  inferInstanceAs (Decidable (∀ segment ∈ s.path, '.' ∉ segment.toList))

theorem IsValid.isDotless {s : Slot} (h : s.IsValid) : s.IsDotless :=
  fun segment hmem ↦ Text.dot_notMem_of_isSegment (h segment hmem)

/-- Slots without dots in their segments are the same when their keys are. -/
theorem IsDotless.eq_of_key_eq {x y : Slot} (hx : x.IsDotless) (hy : y.IsDotless)
    (h : x.key = y.key) : x = y := by
  have hsplit : ∀ s : Slot, s.IsDotless → Text.split '.' s.key = root :: s.path := by
    intro s hs
    exact split_dotted (List.cons_ne_nil root s.path) (List.forall_mem_cons.mpr ⟨by decide, hs⟩)
  have hpaths : root :: x.path = root :: y.path := by rw [← hsplit x hx, ← hsplit y hy, h]
  cases x
  cases y
  exact congrArg Slot.mk (List.cons.inj hpaths).2

/-- A descriptor that is a slot itself has no dots in its segments. Texts name no other slots. -/
def Descriptor.IsDotless : Descriptor → Prop
  | .slot s => s.IsDotless
  | .text _ | .other _ => True

instance (d : Descriptor) : Decidable d.IsDotless :=
  match d with
  | .slot s => inferInstanceAs (Decidable s.IsDotless)
  | .text _ | .other _ => inferInstanceAs (Decidable True)

theorem isDotless_of_parse {d : Descriptor} (hd : d.IsDotless) {s : Slot} (h : parse d = .ok s) :
    s.IsDotless := by
  cases d with
  | slot x =>
    cases h
    exact hd
  | text t => exact (isValid_of_parse (d := .text t) trivial h).isDotless
  | other shown => cases h

end Slot

/-! ### Claims by key -/

section Assign

variable {α : Type} {entries : List (String × α)} {name : String} {v : α}

/-- Setting an entry keeps the names and their order, and adds the name where it is new. -/
theorem map_fst_assign (entries : List (String × α)) (name : String) (v : α) :
    (assign entries name v).map Prod.fst =
      if name ∈ entries.map Prod.fst then entries.map Prod.fst
      else entries.map Prod.fst ++ [name] := by
  by_cases hmem : name ∈ entries.map Prod.fst
  · have hany : (entries.any fun entry ↦ entry.1 == name) = true := by
      obtain ⟨entry, hentry, heq⟩ := List.mem_map.mp hmem
      exact List.any_eq_true.mpr ⟨entry, hentry, beq_iff_eq.mpr heq⟩
    rw [assign, if_pos hany, if_pos hmem, List.map_map]
    refine List.map_congr_left fun entry _ ↦ ?_
    by_cases heq : entry.1 = name <;> simp [heq]
  · rw [assign_of_notMem hmem, if_neg hmem, List.map_append]
    rfl

theorem eq_or_mem_of_mem_assign {entry : String × α} (h : entry ∈ assign entries name v) :
    entry = (name, v) ∨ entry ∈ entries := by
  unfold assign at h
  split_ifs at h
  · obtain ⟨old, hold, rfl⟩ := List.mem_map.mp h
    by_cases heq : old.1 = name
    · simp [heq]
    · simp [heq, hold]
  · rcases List.mem_append.mp h with hold | hlast
    · exact Or.inr hold
    · exact Or.inl (List.mem_singleton.mp hlast)

end Assign

/-- Two lists of the same elements, of which the first has none twice, are of one length exactly
when the second has none twice either. -/
theorem length_eq_iff_nodup {α : Type} [DecidableEq α] {xs ys : List α} (hxs : xs.Nodup)
    (hmem : ∀ a, a ∈ xs ↔ a ∈ ys) : xs.length = ys.length ↔ ys.Nodup := by
  have hperm : xs.Perm ys.dedup :=
    (List.perm_ext_iff_of_nodup hxs ys.nodup_dedup).mpr fun a ↦ by rw [hmem, List.mem_dedup]
  rw [hperm.length_eq]
  constructor
  · intro hlength
    rw [← ys.dedup_sublist.eq_of_length hlength]
    exact ys.nodup_dedup
  · intro hys
    rw [hys.dedup]

namespace Builder

variable {b b' : Builder} {kind : Slot.Kind} {d : Slot.Descriptor} {c : Compute} {s : Slot}

/-- Each key is claimed once, for a slot that has it, and the key of each rule is claimed. -/
structure Listed (b : Builder) : Prop where
  keys_nodup : b.keys.Nodup
  keyed : ∀ entry ∈ b.slots, entry.1 = entry.2.key
  covered : ∀ r ∈ b.rules, r.key ∈ b.keys

/-- What is claimed is the slot of a rule. -/
def Earned (b : Builder) : Prop := ∀ entry ∈ b.slots, ∃ r ∈ b.rules, r.slot = entry.2

theorem listed_empty (id : ℕ) (source target : String) : (Builder.empty id source target).Listed :=
  ⟨.nil, nofun, nofun⟩

theorem earned_empty (id : ℕ) (source target : String) : (Builder.empty id source target).Earned :=
  nofun

/-- The keys after a slot has been claimed: those before, and its own. -/
theorem mem_keys_claiming (b : Builder) (s : Slot) (k : String) :
    k ∈ (b.claiming s).keys ↔ k ∈ b.keys ∨ k = s.key := by
  have hkeys : (b.claiming s).keys = if s.key ∈ b.keys then b.keys else b.keys ++ [s.key] :=
    map_fst_assign b.slots s.key s
  rw [hkeys]
  split_ifs with htaken
  · exact ⟨Or.inl, fun hk ↦ hk.elim (fun hold ↦ hold) fun heq ↦ heq ▸ htaken⟩
  · simp

namespace Listed

/-- A slot that is claimed takes its key over, if that was claimed before. -/
theorem claiming (h : b.Listed) (s : Slot) : (b.claiming s).Listed := by
  have hkeys : (b.claiming s).keys = if s.key ∈ b.keys then b.keys else b.keys ++ [s.key] :=
    map_fst_assign b.slots s.key s
  constructor
  · rw [hkeys]
    split_ifs with htaken
    · exact h.keys_nodup
    · exact List.nodup_append.mpr ⟨h.keys_nodup, List.nodup_singleton _,
        fun k hk l hl heq ↦ htaken (List.mem_singleton.mp hl ▸ heq ▸ hk)⟩
  · intro entry hentry
    rcases eq_or_mem_of_mem_assign hentry with rfl | hold
    · rfl
    · exact h.keyed entry hold
  · exact fun r hr ↦ (b.mem_keys_claiming s r.key).mpr (Or.inl (h.covered r hr))

theorem push (h : b.Listed) (r : Rule) : (b.push r).Listed := by
  have hclaiming := h.claiming r.slot
  refine ⟨hclaiming.keys_nodup, hclaiming.keyed, fun q hq ↦ ?_⟩
  rcases List.mem_append.mp hq with hold | hlast
  · exact hclaiming.covered q hold
  · exact (b.mem_keys_claiming r.slot q.key).mpr
      (Or.inr (congrArg Rule.key (List.mem_singleton.mp hlast)))

/-- Whatever is offered, each key stays claimed once. -/
theorem left (h : b.Listed) (kind : Slot.Kind) (d : Slot.Descriptor) (o : Offer) :
    (b.left kind d o).Listed := by
  rcases b.left_cases kind d o with ⟨c, _, hregister⟩ | hsame | ⟨s, _, _, hstray⟩
  · obtain ⟨s, _, _, hpush⟩ := register_eq_ok hregister
    exact hpush.symm ▸ h.push _
  · exact hsame.symm ▸ h
  · exact hstray.symm ▸ h.claiming s

theorem mem_keys_iff (h : b.Listed) (hearned : b.Earned) (k : String) :
    k ∈ b.keys ↔ k ∈ b.rules.map Rule.key := by
  constructor
  · intro hk
    obtain ⟨entry, hentry, rfl⟩ := List.mem_map.mp hk
    obtain ⟨r, hr, hslot⟩ := hearned entry hentry
    refine List.mem_map.mpr ⟨r, hr, ?_⟩
    rw [h.keyed entry hentry, ← hslot]
    rfl
  · intro hk
    obtain ⟨r, hr, rfl⟩ := List.mem_map.mp hk
    exact h.covered r hr

/-- As many slots are claimed as there are rules exactly when no two rules have one key. -/
theorem length_eq_iff (h : b.Listed) (hearned : b.Earned) :
    b.slots.length = b.rules.length ↔ (b.rules.map Rule.key).Nodup := by
  have hlengths := length_eq_iff_nodup h.keys_nodup (h.mem_keys_iff hearned)
  rwa [keys, List.length_map, List.length_map] at hlengths

/-- When nothing claimed overlaps a slot, a claim that has its key all the same is for another path,
and a dot is in one of the two. -/
theorem exists_alike (h : b.Listed) (hkey : s.key ∈ b.keys) (hclaim : b.claimedBy? s = none) :
    ∃ entry ∈ b.slots, entry.2.key = s.key ∧ s.overlaps entry.2 = false ∧
      ¬ (s.IsDotless ∧ entry.2.IsDotless) := by
  obtain ⟨entry, hentry, hname⟩ := List.mem_map.mp hkey
  have hsame : entry.2.key = s.key := by rw [← h.keyed entry hentry, hname]
  have hapart : s.overlaps entry.2 = false := by
    simpa using List.find?_eq_none.mp hclaim entry.2 (List.mem_map_of_mem hentry)
  refine ⟨entry, hentry, hsame, hapart, ?_⟩
  rintro ⟨hs, hentryDots⟩
  rw [hs.eq_of_key_eq hentryDots hsame.symm, Slot.overlaps_self] at hapart
  exact Bool.noConfusion hapart

end Listed

/-- What a compute that can be looked at leaves is the slot of a rule again. -/
theorem Earned.left (h : b.Earned) (kind : Slot.Kind) (d : Slot.Descriptor) (c : Compute) :
    (b.left kind d (.clear c)).Earned := by
  rcases b.left_cases kind d (.clear c) with ⟨c', _, hregister⟩ | hsame | ⟨s, _, hnot, _⟩
  · obtain ⟨s, _, _, hpush⟩ := register_eq_ok hregister
    rw [hpush]
    intro entry hentry
    rcases eq_or_mem_of_mem_assign hentry with rfl | hold
    · exact ⟨_, List.mem_append_right _ (List.mem_singleton_self _), rfl⟩
    · obtain ⟨q, hq, hslot⟩ := h entry hold
      exact ⟨q, List.mem_append_left _ hq, hslot⟩
  · exact hsame.symm ▸ h
  · exact absurd rfl (hnot c)

/-- The claimed slots have no dots in their segments, and the keys of the rules are distinct. -/
structure Distinct (b : Builder) : Prop where
  dotless : ∀ entry ∈ b.slots, entry.2.IsDotless
  keys_nodup : (b.rules.map Rule.key).Nodup

/-- A key that is taken is refused to a slot without dots. -/
theorem Distinct.exists_claimed (h : b.Distinct) (hlisted : b.Listed) (hs : s.IsDotless)
    (hkey : s.key ∈ b.keys) : ∃ x, b.claimedBy? s = some x := by
  cases hclaim : b.claimedBy? s with
  | some x => exact ⟨x, rfl⟩
  | none =>
    obtain ⟨entry, hentry, _, _, hdots⟩ := hlisted.exists_alike hkey hclaim
    exact absurd ⟨hs, h.dotless entry hentry⟩ hdots

theorem Distinct.claiming (h : b.Distinct) (hs : s.IsDotless) : (b.claiming s).Distinct := by
  refine ⟨fun entry hentry ↦ ?_, h.keys_nodup⟩
  rcases eq_or_mem_of_mem_assign hentry with rfl | hold
  · exact hs
  · exact h.dotless entry hold

theorem Distinct.left (h : b.Distinct) (hlisted : b.Listed) (kind : Slot.Kind)
    (hd : d.IsDotless) (o : Offer) : (b.left kind d o).Distinct := by
  rcases b.left_cases kind d o with ⟨c, _, hregister⟩ | hsame | ⟨s, hclaim, _, hstray⟩
  · obtain ⟨s, hparse, hclear, hpush⟩ := register_eq_ok hregister
    have hs : s.IsDotless := Slot.isDotless_of_parse hd (Slot.parseAs_eq_ok_iff.mp hparse).1
    rw [hpush]
    refine ⟨(h.claiming hs).dotless, ?_⟩
    have hnew : s.key ∉ b.rules.map Rule.key := by
      intro hkey
      obtain ⟨r, hr, hsame⟩ := List.mem_map.mp hkey
      obtain ⟨x, hx⟩ := h.exists_claimed hlisted hs (hsame ▸ hlisted.covered r hr)
      have hoverlaps : s.overlaps x = true := List.find?_some hx
      rw [hclear x (List.mem_of_find?_eq_some hx)] at hoverlaps
      exact Bool.noConfusion hoverlaps
    change ((b.rules ++ [_]).map Rule.key).Nodup
    rw [List.map_append]
    refine List.nodup_append.mpr ⟨h.keys_nodup, List.nodup_singleton _, fun k hk l hl heq ↦ ?_⟩
    have hl' : l = s.key := List.mem_singleton.mp hl
    exact hnew (hl' ▸ heq ▸ hk)
  · exact hsame.symm ▸ h
  · have hs := Slot.isDotless_of_parse hd (Slot.parseAs_eq_ok_iff.mp (claim_eq_ok hclaim).1).1
    exact hstray.symm ▸ h.claiming hs

end Builder

/-! ### Builders in use -/

namespace Usage

variable {u : Usage}

/-- The descriptor of a registration has no dots in its segments. -/
def Operation.IsDotless : Operation → Prop
  | register _ d _ => d.IsDotless
  | build _ | call _ => True

theorem listed_step (hu : u.builder.Listed) (op : Operation) : (u.step op).builder.Listed := by
  cases op with
  | register kind d o => exact builder_register u kind d o ▸ hu.left kind d o
  | build asynchronous => exact (builder_build u asynchronous).symm ▸ hu
  | call calls => exact hu

theorem listed_foldl (ops : List Operation) (hu : u.builder.Listed) :
    (ops.foldl step u).builder.Listed := by
  induction ops generalizing u with
  | nil => exact hu
  | cons op rest ih => exact ih (listed_step hu op)

theorem earned_foldl (ops : List Operation) (hops : ∀ op ∈ ops, op.IsClear)
    (hu : u.builder.Earned) : (ops.foldl step u).builder.Earned := by
  induction ops generalizing u with
  | nil => exact hu
  | cons op rest ih =>
    obtain ⟨hop, hrest⟩ := List.forall_mem_cons.mp hops
    refine ih hrest ?_
    cases op with
    | register kind d o =>
      cases o with
      | clear c => exact builder_register u kind d (.clear c) ▸ hu.left kind d c
      | masked | veiled => cases hop
    | build asynchronous => exact (builder_build u asynchronous).symm ▸ hu
    | call calls => exact hu

theorem distinct_step (hu : u.builder.Distinct) (hlisted : u.builder.Listed) {op : Operation}
    (hop : op.IsDotless) : (u.step op).builder.Distinct := by
  cases op with
  | register kind d o => exact builder_register u kind d o ▸ hu.left hlisted kind hop o
  | build asynchronous => exact (builder_build u asynchronous).symm ▸ hu
  | call calls => exact hu

theorem distinct_foldl (ops : List Operation) (hops : ∀ op ∈ ops, op.IsDotless)
    (hu : u.builder.Distinct) (hlisted : u.builder.Listed) :
    (ops.foldl step u).builder.Distinct := by
  induction ops generalizing u with
  | nil => exact hu
  | cons op rest ih =>
    exact ih (fun other hmem ↦ hops other (List.mem_cons_of_mem op hmem))
      (distinct_step hu hlisted (hops op List.mem_cons_self)) (listed_step hlisted op)

/-- A registration is refused because the slot is taken. -/
def RefusesDuplicate (u : Usage) (kind : Slot.Kind) (d : Slot.Descriptor) (c : Compute) : Prop :=
  ∃ e, u.answer kind d (.clear c) = .error e ∧ e.fault.kind = "DuplicateSlotException"

theorem refusesDuplicate_of_claimed {kind : Slot.Kind} {d : Slot.Descriptor} {s x : Slot}
    (c : Compute) (hd : d.Names kind s) (hclaim : u.builder.claimedBy? s = some x) :
    u.RefusesDuplicate kind d c :=
  ⟨_, (answer_of_error (Builder.register_of_claimed hd hclaim)).1, rfl⟩

/-- However a new builder is used, and whatever slots are given as they are, each key is claimed
once, and the keys of the rules are claimed; when all that was offered could be looked at, no others
are, and there are as many as rules exactly when no two rules have one key. A registration under a
claimed key is refused as a duplicate, unless it is for another path than the claim and a dot in a
segment makes the two look alike. So when no slot is given that has a dot in a segment, the keys of
the rules are distinct, and every registration under the key of a rule is refused. -/
theorem keys_are_distinct_but_for_dots (id : ℕ) (source target : String) (m : Machine)
    (ops : List Operation) (u : Usage) (hu : u = ops.foldl step (start id source target m)) :
    u.builder.keys.Nodup ∧ (∀ k ∈ u.builder.rules.map Rule.key, k ∈ u.builder.keys) ∧
      ((∀ op ∈ ops, op.IsClear) →
        (∀ k, k ∈ u.builder.keys ↔ k ∈ u.builder.rules.map Rule.key) ∧
        (u.builder.slots.length = u.builder.rules.length ↔
          (u.builder.rules.map Rule.key).Nodup)) ∧
      (∀ kind d c s, d.Names kind s → s.key ∈ u.builder.keys →
        u.RefusesDuplicate kind d c ∨ ∃ entry ∈ u.builder.slots, entry.2.key = s.key ∧
          s.overlaps entry.2 = false ∧ ¬ (s.IsDotless ∧ entry.2.IsDotless)) ∧
      ((∀ op ∈ ops, op.IsDotless) → (u.builder.rules.map Rule.key).Nodup ∧
        ((∀ op ∈ ops, op.IsClear) → u.builder.slots.length = u.builder.rules.length) ∧
        ∀ kind d c s, d.IsDotless → d.Names kind s → s.key ∈ u.builder.rules.map Rule.key →
          u.RefusesDuplicate kind d c) := by
  have hlisted : u.builder.Listed :=
    hu ▸ listed_foldl ops (Builder.listed_empty id source target)
  have hearned : (∀ op ∈ ops, op.IsClear) → u.builder.Earned := fun hclear ↦
    hu ▸ earned_foldl ops hclear (Builder.earned_empty id source target)
  have hcovered : ∀ k ∈ u.builder.rules.map Rule.key, k ∈ u.builder.keys :=
    List.forall_mem_map.mpr hlisted.covered
  refine ⟨hlisted.keys_nodup, hcovered, fun hclear ↦
    ⟨hlisted.mem_keys_iff (hearned hclear), hlisted.length_eq_iff (hearned hclear)⟩, ?_, ?_⟩
  · intro kind d c s hd hkey
    cases hclaim : u.builder.claimedBy? s with
    | some x => exact Or.inl (refusesDuplicate_of_claimed c hd hclaim)
    | none => exact Or.inr (hlisted.exists_alike hkey hclaim)
  · intro hops
    have hdistinct : u.builder.Distinct :=
      hu ▸ distinct_foldl ops hops ⟨nofun, .nil⟩ (Builder.listed_empty id source target)
    refine ⟨hdistinct.keys_nodup,
      fun hclear ↦ (hlisted.length_eq_iff (hearned hclear)).mpr hdistinct.keys_nodup, ?_⟩
    intro kind d c s hdotless hd hkey
    obtain ⟨x, hx⟩ := hdistinct.exists_claimed hlisted
      (Slot.isDotless_of_parse hdotless hd.1) (hcovered _ hkey)
    exact refusesDuplicate_of_claimed c hd hx

/-- A field of a part is registered, given as a slot; then the part, and the field again. -/
def plainUse : List Operation :=
  [.register .field (.slot ⟨["a", "b"]⟩) (.clear (.literal (.int 1))),
    .register .field (.text "a") (.clear (.literal .null)),
    .register .field (.slot ⟨["c", ""]⟩) (.clear (.literal (.int 2)))]

theorem plainUse_keeps_keys_distinct :
    (∀ op ∈ plainUse, op.IsDotless) ∧ (∀ op ∈ plainUse, op.IsClear) ∧
      (plainUse.foldl step (start 0 "Source" "Target" Machine.empty)).builder.rules.map Rule.key =
        ["target.a.b", "target.c."] ∧
      (plainUse.foldl step (start 0 "Source" "Target" Machine.empty)).builder.slots.length =
        (plainUse.foldl step (start 0 "Source" "Target" Machine.empty)).builder.rules.length ∧
      (plainUse.foldl step (start 0 "Source" "Target" Machine.empty)).RefusesDuplicate .field
        (.text "a.b") .stream := by
  have hops : ∀ op ∈ plainUse, op.IsDotless := by
    simp only [plainUse, List.forall_mem_cons, Operation.IsDotless, Slot.Descriptor.IsDotless]
    exact ⟨by decide, trivial, by decide, nofun⟩
  have hclear : ∀ op ∈ plainUse, op.IsClear := by simp [plainUse, Operation.IsClear]
  have hkeys : (plainUse.foldl step (start 0 "Source" "Target" Machine.empty)).builder.rules.map
      Rule.key = ["target.a.b", "target.c."] := by decide +kernel
  have hnames : (Slot.Descriptor.text "a.b").Names .field ⟨["a", "b"]⟩ := by
    exact ⟨by decide +kernel, by decide⟩
  obtain ⟨_, hlength, hrefused⟩ := (keys_are_distinct_but_for_dots 0 "Source" "Target" Machine.empty
    plainUse _ rfl).2.2.2.2 hops
  exact ⟨hops, hclear, hkeys, hlength hclear,
    hrefused .field _ .stream ⟨["a", "b"]⟩ trivial hnames (by rw [hkeys]; decide)⟩

/-- Two paths with one key, the first with a dot in its only segment. -/
def alikeUse : List Operation :=
  [.register .field (.slot ⟨["a.b"]⟩) (.clear (.literal (.int 1))),
    .register .field (.slot ⟨["a", "b"]⟩) (.clear (.literal (.int 2)))]

/-- Both are accepted, so two rules have one key, and fewer slots are claimed than there are
rules. -/
theorem two_rules_with_one_key :
    (alikeUse.foldl step (start 0 "Source" "Target" Machine.empty)).builder.rules.map Rule.key =
        ["target.a.b", "target.a.b"] ∧
      (alikeUse.foldl step (start 0 "Source" "Target" Machine.empty)).builder.slots.length = 1 := by
  decide +kernel

end Usage

end Recast
