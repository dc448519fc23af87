import Recast.Proofs.Notation

/-!
Overlap seen from paths and from keys. A slot lies within another when its path goes on from the
other's path (`Slot.IsWithin`); two slots overlap exactly when some slot lies within both
(`Slot.overlaps_iff_exists_isWithin`), which is when their paths nowhere differ
(`Slot.overlaps_iff_getElem?`). Of valid slots one lies within another exactly when it is the other
or its key is that of the other, a dot and more (`Slot.IsWithin.iff_key`): a dot ends a segment, so
no name is taken for the start of a longer one. `Slot.overlaps_iff_key` puts these together.
-/

set_option autoImplicit false

namespace Recast

namespace Text

theorem mark_notMem_splitAt (mark : Char) {cs piece : List Char} (h : piece ∈ splitAt mark cs) :
    mark ∉ piece := by
  induction cs generalizing piece with
  | nil =>
    rw [List.mem_singleton.mp h]
    exact List.not_mem_nil
  | cons c rest ih =>
    rw [splitAt] at h
    split_ifs at h with hmark
    · rcases List.mem_cons.mp h with rfl | hrest
      · exact List.not_mem_nil
      · exact ih hrest
    · cases hpieces : splitAt mark rest with
      | nil =>
        rw [hpieces, List.mem_singleton] at h
        rw [h]
        exact List.not_mem_cons_of_ne_of_not_mem (Ne.symm hmark) List.not_mem_nil
      | cons first more =>
        rw [hpieces] at h ih
        rcases List.mem_cons.mp h with rfl | hmore
        · exact List.not_mem_cons_of_ne_of_not_mem (Ne.symm hmark) (ih List.mem_cons_self)
        · exact ih (List.mem_cons_of_mem first hmore)

/-- No piece of a text holds the mark that it is cut at. -/
theorem mark_notMem_of_mem_split {mark : Char} {s piece : String} (h : piece ∈ split mark s) :
    mark ∉ piece.toList := by
  obtain ⟨cs, hcs, rfl⟩ := List.mem_map.mp h
  rw [String.toList_ofList]
  exact mark_notMem_splitAt mark hcs

end Text

namespace Slot

variable {x y z : Slot}

/-! ### Paths that go on -/

/-- The path of the slot begins with the other's path. -/
def IsWithin (z x : Slot) : Prop := ∃ more, z = x.extend more

theorem isWithin_iff : z.IsWithin x ↔ x.path <+: z.path := by
  constructor
  · rintro ⟨more, rfl⟩
    exact List.prefix_append x.path more
  · rintro ⟨more, hmore⟩
    exact ⟨more, by rw [extend, hmore]⟩

theorem IsWithin.refl (x : Slot) : x.IsWithin x :=
  isWithin_iff.mpr (List.prefix_refl x.path)

/-- Two slots overlap exactly when one of them lies within the other. -/
theorem overlaps_iff_isWithin : x.overlaps y = true ↔ y.IsWithin x ∨ x.IsWithin y := by
  rw [overlaps_iff, isWithin_iff, isWithin_iff]

/-- What two slots both contain is contained in the one that is further down. -/
theorem overlaps_iff_exists_isWithin :
    x.overlaps y = true ↔ ∃ z : Slot, z.IsWithin x ∧ z.IsWithin y := by
  rw [overlaps_iff_isWithin]
  constructor
  · rintro (hyx | hxy)
    · exact ⟨y, hyx, IsWithin.refl y⟩
    · exact ⟨x, IsWithin.refl x, hxy⟩
  · rintro ⟨z, hzx, hzy⟩
    rw [isWithin_iff, isWithin_iff]
    exact List.prefix_or_prefix_of_prefix (isWithin_iff.mp hzx) (isWithin_iff.mp hzy)

theorem IsWithin.trans (hzy : z.IsWithin y) (hyx : y.IsWithin x) : z.IsWithin x :=
  isWithin_iff.mpr ((isWithin_iff.mp hyx).trans (isWithin_iff.mp hzy))

/-- Slots overlap if slots within them do. -/
theorem overlaps_of_isWithin {x' y' : Slot} (hx : x'.IsWithin x) (hy : y'.IsWithin y)
    (h : x'.overlaps y' = true) : x.overlaps y = true := by
  obtain ⟨z, hzx, hzy⟩ := overlaps_iff_exists_isWithin.mp h
  exact overlaps_iff_exists_isWithin.mpr ⟨z, hzx.trans hx, hzy.trans hy⟩

/-- Two slots overlap exactly when their paths agree wherever both have a segment. -/
theorem overlaps_iff_getElem? : x.overlaps y = true ↔
    ∀ (i : ℕ) (a b : String), x.path[i]? = some a → y.path[i]? = some b → a = b := by
  constructor
  · intro h i a b ha hb
    have hlonger : ∀ {path path' : List String} {s : String}, path <+: path' →
        path[i]? = some s → path'[i]? = some s := by
      rintro path _ s ⟨more, rfl⟩ hs
      rw [List.getElem?_append_left (List.getElem?_eq_some_iff.mp hs).1, hs]
    rcases overlaps_iff.mp h with hpre | hpre
    · exact Option.some.inj ((hlonger hpre ha).symm.trans hb)
    · exact Option.some.inj (ha.symm.trans (hlonger hpre hb))
  · intro hagree
    simp only [overlaps, beq_iff_eq]
    apply List.ext_getElem?
    intro i
    by_cases hi : i < min x.path.length y.path.length
    · have hx : i < x.path.length := by omega
      have hy : i < y.path.length := by omega
      rw [List.getElem?_take_of_lt hi, List.getElem?_take_of_lt hi, List.getElem?_eq_getElem hx,
        List.getElem?_eq_getElem hy]
      exact congrArg some (hagree i _ _ (List.getElem?_eq_getElem hx) (List.getElem?_eq_getElem hy))
    · have hlen : ∀ path : List String,
          (path.take (min x.path.length y.path.length)).length ≤ i := by
        intro path
        rw [List.length_take]
        omega
      rw [List.getElem?_eq_none (hlen x.path), List.getElem?_eq_none (hlen y.path)]

/-! ### Keys that go on -/

/-- The text is the other text, a dot and more. -/
def GoesOn (shorter longer : String) : Prop :=
  ∃ more : String, more ≠ "" ∧ longer = shorter ++ "." ++ more

theorem dotted_append {segments more : List String} (hsegments : segments ≠ [])
    (hmore : more ≠ []) : dotted (segments ++ more) = dotted segments ++ "." ++ dotted more := by
  induction segments with
  | nil => exact absurd rfl hsegments
  | cons s rest ih =>
    apply String.toList_injective
    cases rest with
    | nil =>
      rw [List.singleton_append, toList_dotted_cons s hmore]
      simp [dotted]
    | cons t others =>
      rw [List.cons_append, toList_dotted_cons s (by simp), ih (List.cons_ne_nil t others)]
      simp [toList_dotted_cons s (List.cons_ne_nil t others)]

/-- Joined texts without dots, then a dot and more, are cut into these texts and the pieces of the
rest. -/
theorem split_dotted_append {segments : List String} (hne : segments ≠ [])
    (hdot : ∀ s ∈ segments, '.' ∉ s.toList) (more : String) :
    Text.split '.' (dotted segments ++ "." ++ more) = segments ++ Text.split '.' more := by
  have hjoined : dotted segments ++ "." ++ more = dotted (segments ++ Text.split '.' more) := by
    rw [dotted_append hne (Text.split_ne_nil '.' more), dotted_split]
  rw [hjoined]
  apply split_dotted (List.append_ne_nil_of_left_ne_nil hne _)
  intro s hs
  rcases List.mem_append.mp hs with hsegment | hpiece
  · exact hdot s hsegment
  · exact Text.mark_notMem_of_mem_split hpiece

/-- The key of a slot further down goes on after a dot. -/
theorem key_extend (x : Slot) {more : List String} (h : more ≠ []) :
    (x.extend more).key = x.key ++ "." ++ dotted more :=
  dotted_append (List.cons_ne_nil root x.path) h

theorem dotted_ne_empty {segments : List String} (hne : segments ≠ [])
    (h : ∀ s ∈ segments, Text.isSegment s = true) : dotted segments ≠ "" := by
  intro hempty
  have hsplit := split_dotted hne fun s hs ↦ Text.dot_notMem_of_isSegment (h s hs)
  rw [hempty] at hsplit
  have hnone : Text.isSegment "" = true := h "" (hsplit ▸ List.mem_singleton.mpr rfl)
  exact absurd hnone (by decide)

/-- A valid slot lies within another exactly when it is that slot or its key goes on from the
other's. -/
theorem IsWithin.iff_key (hx : x.IsValid) (hy : y.IsValid) :
    y.IsWithin x ↔ x.key = y.key ∨ GoesOn x.key y.key := by
  constructor
  · rintro ⟨more, rfl⟩
    by_cases hmore : more = []
    · exact Or.inl (by rw [hmore, extend, List.append_nil])
    · have hsegments : ∀ s ∈ more, Text.isSegment s = true :=
        fun s hs ↦ hy s (List.mem_append_right x.path hs)
      exact Or.inr ⟨dotted more, dotted_ne_empty hmore hsegments, key_extend x hmore⟩
  · rintro (hsame | ⟨more, -, hmore⟩)
    · rw [eq_of_key_eq hx hy hsame]
      exact IsWithin.refl y
    · have hsplit := split_key hy
      rw [hmore, key, split_dotted_append (List.cons_ne_nil root x.path) (dot_notMem_of_isValid hx)]
        at hsplit
      exact isWithin_iff.mpr ⟨Text.split '.' more, (List.cons.inj hsplit).2⟩

/-- Overlap of valid slots is containment of keys: the keys are the same, or one of them is the
other, a dot and more. It does not depend on the order of the two, and holds exactly when some slot,
which may be taken valid, lies within both. Slots that do not overlap are those whose paths differ
at a position that both have, and no slot within the one overlaps a slot within the other. The whole
target overlaps every slot. -/
theorem overlaps_iff_key (hx : x.IsValid) (hy : y.IsValid) :
    (x.overlaps y = true ↔ x.key = y.key ∨ GoesOn x.key y.key ∨ GoesOn y.key x.key) ∧
      x.overlaps y = y.overlaps x ∧
      (x.overlaps y = true ↔ ∃ z : Slot, z.IsWithin x ∧ z.IsWithin y) ∧
      (x.overlaps y = true → ∃ z : Slot, z.IsValid ∧ z.IsWithin x ∧ z.IsWithin y) ∧
      (x.overlaps y = false ↔
        ∃ (i : ℕ) (a b : String), x.path[i]? = some a ∧ y.path[i]? = some b ∧ a ≠ b) ∧
      (x.overlaps y = false →
        ∀ x' y' : Slot, x'.IsWithin x → y'.IsWithin y → x'.overlaps y' = false) ∧
      (x.isWhole = true → x.overlaps y = true) := by
  refine ⟨?_, overlaps_comm x y, overlaps_iff_exists_isWithin, ?_, ?_, ?_, ?_⟩
  · rw [overlaps_iff_isWithin, IsWithin.iff_key hx hy, IsWithin.iff_key hy hx, eq_comm]
    tauto
  · intro h
    rcases overlaps_iff_isWithin.mp h with hyx | hxy
    · exact ⟨y, hy, hyx, IsWithin.refl y⟩
    · exact ⟨x, hx, IsWithin.refl x, hxy⟩
  · rw [← Bool.not_eq_true, overlaps_iff_getElem?]
    push Not
    rfl
  · intro h x' y' hx' hy'
    by_contra hoverlap
    rw [Bool.not_eq_false] at hoverlap
    rw [overlaps_of_isWithin hx' hy' hoverlap] at h
    exact Bool.noConfusion h
  · intro h
    exact overlaps_of_path_eq_nil (List.isEmpty_iff.mp h) y

/-- Of `a` and `ab`, the second name begins with the first, but the slots do not overlap: what
follows the key of the first within the second is no dot. The whole target contains both. -/
theorem names_that_start_alike :
    let a : Slot := ⟨["a"]⟩
    let ab : Slot := ⟨["ab"]⟩
    a.IsValid ∧ ab.IsValid ∧ a.key = "target.a" ∧ ab.key = "target.ab" ∧
      ¬ (a.key = ab.key ∨ GoesOn a.key ab.key ∨ GoesOn ab.key a.key) ∧
      (a.extend ["c"]).overlaps (ab.extend ["c"]) = false ∧
      (Slot.mk []).overlaps a = true ∧ GoesOn (Slot.mk []).key a.key := by
  have ha : IsValid ⟨["a"]⟩ := by decide
  have hab : IsValid ⟨["ab"]⟩ := by decide
  have hwhole : IsValid ⟨[]⟩ := by decide
  obtain ⟨hkeys, -, -, -, -, hbelow, -⟩ := overlaps_iff_key ha hab
  obtain ⟨hkeys', -, -, -, -, -, hroot⟩ := overlaps_iff_key hwhole ha
  refine ⟨ha, hab, rfl, rfl, ?_, hbelow (by decide) _ _ ⟨_, rfl⟩ ⟨_, rfl⟩, hroot rfl, ?_⟩
  · exact fun h ↦ absurd (hkeys.mpr h) (by decide)
  · rcases hkeys'.mp (hroot rfl) with hsame | hon | hback
    · exact absurd hsame (by decide)
    · exact hon
    · obtain ⟨more, -, hmore⟩ := hback
      have hlength := congrArg String.length hmore
      rw [String.length_append, String.length_append] at hlength
      have hroot : (key ⟨[]⟩).length < (key ⟨["a"]⟩).length := by decide
      omega

end Slot

end Recast
