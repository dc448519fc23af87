import Recast.Slot
import Mathlib.Data.List.Basic

/-!
Paths of slots and their keys. A segment holds no dot and is not empty, so a text of segments
joined by dots splits into exactly these segments (`split_dotted`), and the key of a slot with valid
segments determines the slot (`Slot.eq_of_key_eq`). Two slots overlap exactly when one path is a
prefix of the other (`Slot.overlaps_iff`). Every slot that a text names has valid segments
(`Slot.isValid_of_parse`).
-/

set_option autoImplicit false

namespace Recast

namespace Text

/-! ### Segments -/

theorem isNamePart_dot : isNamePart '.' = false := by decide

theorem isNamePart_of_isNameStart {c : Char} (h : isNameStart c = true) : isNamePart c = true := by
  unfold isNameStart at h
  unfold isNamePart
  split_ifs at h ⊢ with hascii
  · rcases Bool.or_eq_true _ _ ▸ h with halpha | hline
    · simp [Char.isAlphanum, halpha]
    · simp [hline]
  · simp [h]

/-- The characters of a name are all characters of names. -/
theorem isNamePart_of_mem {cs : List Char} (h : isNameChars cs = true) {c : Char} (hc : c ∈ cs) :
    isNamePart c = true := by
  cases cs with
  | nil => cases hc
  | cons first rest =>
    obtain ⟨hfirst, hrest⟩ := Bool.and_eq_true _ _ ▸ h
    rcases List.mem_cons.mp hc with rfl | hmem
    · exact isNamePart_of_isNameStart hfirst
    · exact List.all_eq_true.mp hrest c hmem

/-- A segment holds no dot. -/
theorem dot_notMem_of_isSegment {s : String} (h : isSegment s = true) : '.' ∉ s.toList := by
  intro hdot
  have hname : isNameChars s.toList = true := (Bool.and_eq_true _ _ ▸ h).1
  have hpart := isNamePart_of_mem hname hdot
  rw [isNamePart_dot] at hpart
  exact Bool.noConfusion hpart

/-! ### Splitting -/

theorem splitAt_of_notMem {mark : Char} {cs : List Char} (h : mark ∉ cs) :
    splitAt mark cs = [cs] := by
  induction cs with
  | nil => rfl
  | cons c rest ih =>
    obtain ⟨hne, hrest⟩ := not_or.mp (mt List.mem_cons.mpr h)
    rw [splitAt, if_neg (Ne.symm hne), ih hrest]

theorem splitAt_append {mark : Char} {cs : List Char} (h : mark ∉ cs) (rest : List Char) :
    splitAt mark (cs ++ mark :: rest) = cs :: splitAt mark rest := by
  induction cs with
  | nil => simp [splitAt]
  | cons c more ih =>
    obtain ⟨hne, hmore⟩ := not_or.mp (mt List.mem_cons.mpr h)
    rw [List.cons_append, splitAt, if_neg (Ne.symm hne), ih hmore]

/-- A segment is one piece. -/
theorem split_segment {s : String} (h : isSegment s = true) : split '.' s = [s] := by
  rw [split, splitAt_of_notMem (dot_notMem_of_isSegment h), List.map_singleton,
    String.ofList_toList]

end Text

namespace Slot

/-- Texts joined by dots split into the same texts, if none of them holds a dot. -/
theorem split_dotted {segments : List String} (hne : segments ≠ [])
    (hdot : ∀ s ∈ segments, '.' ∉ s.toList) : Text.split '.' (dotted segments) = segments := by
  induction segments with
  | nil => exact absurd rfl hne
  | cons s rest ih =>
    have hs : '.' ∉ s.toList := hdot s List.mem_cons_self
    cases rest with
    | nil =>
      rw [dotted, Text.split, Text.splitAt_of_notMem hs, List.map_singleton, String.ofList_toList]
    | cons t more =>
      have hrest := ih (List.cons_ne_nil t more) fun u hu ↦ hdot u (List.mem_cons_of_mem s hu)
      have htext : (s ++ "." ++ dotted (t :: more)).toList =
          s.toList ++ '.' :: (dotted (t :: more)).toList := by
        simp
      rw [dotted, Text.split, htext, Text.splitAt_append hs, List.map_cons, String.ofList_toList]
      · exact congrArg (s :: ·) hrest
      · exact List.cons_ne_nil t more

/-! ### Valid slots -/

/-- All segments of the path are plain attribute names. -/
def IsValid (s : Slot) : Prop := ∀ segment ∈ s.path, Text.isSegment segment = true

instance (s : Slot) : Decidable s.IsValid :=
  inferInstanceAs (Decidable (∀ segment ∈ s.path, Text.isSegment segment = true))

/-- A descriptor that is a slot itself must be valid; any other descriptor may be given. -/
def Descriptor.IsValid : Descriptor → Prop
  | .slot s => s.IsValid
  | .text _ | .other _ => True

instance (d : Descriptor) : Decidable d.IsValid :=
  match d with
  | .slot s => inferInstanceAs (Decidable s.IsValid)
  | .text _ | .other _ => inferInstanceAs (Decidable True)

theorem dot_notMem_of_isValid {s : Slot} (h : s.IsValid) :
    ∀ segment ∈ root :: s.path, '.' ∉ segment.toList := by
  intro segment hmem
  rcases List.mem_cons.mp hmem with rfl | hpath
  · decide
  · exact Text.dot_notMem_of_isSegment (h segment hpath)

/-- The key of a valid slot splits into the root and the path. -/
theorem split_key {s : Slot} (h : s.IsValid) : Text.split '.' s.key = root :: s.path :=
  split_dotted (List.cons_ne_nil root s.path) (dot_notMem_of_isValid h)

/-- Valid slots with the same key are the same. -/
theorem eq_of_key_eq {x y : Slot} (hx : x.IsValid) (hy : y.IsValid) (h : x.key = y.key) :
    x = y := by
  have hsplit : root :: x.path = root :: y.path := by rw [← split_key hx, ← split_key hy, h]
  cases x
  cases y
  exact congrArg Slot.mk (List.cons.inj hsplit).2

/-- The slot that a valid descriptor names is valid. -/
theorem isValid_of_parse {d : Descriptor} (hd : d.IsValid) {s : Slot} (h : parse d = .ok s) :
    s.IsValid := by
  cases d with
  | slot x =>
    cases h
    exact hd
  | other shown => cases h
  | text t =>
    simp only [parse] at h
    generalize stepsOf t = steps at h
    split_ifs at h with hall
    cases h
    exact fun segment hmem ↦ List.all_eq_true.mp hall segment hmem

/-- What a parse for a kind gives: the slot that the descriptor names, empty exactly when the whole
target is wanted. -/
theorem parseAs_eq_ok_iff {kind : Kind} {d : Descriptor} {s : Slot} :
    parseAs kind d = .ok s ↔ parse d = .ok s ∧ (kind = .whole ↔ s.path = []) := by
  unfold parseAs
  cases hparse : parse d with
  | error e => simp
  | ok x =>
    have hwhole : x.isWhole = true ↔ x.path = [] := List.isEmpty_iff
    cases kind <;> cases hempty : x.isWhole <;> simp_all <;> grind

/-! ### Overlap -/

/-- Two slots overlap exactly when one path is a prefix of the other. -/
theorem overlaps_iff {x y : Slot} :
    x.overlaps y = true ↔ x.path <+: y.path ∨ y.path <+: x.path := by
  unfold overlaps
  rcases Nat.le_total x.path.length y.path.length with hle | hle
  · simp only [Nat.min_eq_left hle, List.take_length, beq_iff_eq]
    constructor
    · intro htake
      exact Or.inl (htake ▸ List.take_prefix _ _)
    · rintro (hpre | hpre)
      · exact List.prefix_iff_eq_take.mp hpre
      · rw [hpre.eq_of_length_le hle, List.take_length]
  · simp only [Nat.min_eq_right hle, List.take_length, beq_iff_eq]
    constructor
    · intro htake
      exact Or.inr (htake ▸ List.take_prefix _ _)
    · rintro (hpre | hpre)
      · rw [← hpre.eq_of_length_le hle, List.take_length]
      · exact (List.prefix_iff_eq_take.mp hpre).symm

theorem overlaps_comm (x y : Slot) : x.overlaps y = y.overlaps x :=
  Bool.eq_iff_iff.mpr (by rw [overlaps_iff, overlaps_iff, or_comm])

theorem overlaps_self (x : Slot) : x.overlaps x = true :=
  overlaps_iff.mpr (Or.inl (List.prefix_refl x.path))

/-- The whole target overlaps everything. -/
theorem overlaps_of_path_eq_nil {x : Slot} (h : x.path = []) (y : Slot) : x.overlaps y = true :=
  overlaps_iff.mpr (Or.inl (h ▸ List.nil_prefix))

end Slot

end Recast
