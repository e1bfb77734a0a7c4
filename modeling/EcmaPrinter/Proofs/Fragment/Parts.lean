import EcmaPrinter.Generate.Basic
import EcmaPrinter.Proofs.Pieces

/-!
The parts of a fragment.

`Holds` says that one fragment is built into another, whatever marks it has there.  The pieces of a
part then stand among the pieces of the whole (`Fragment.Holds.pieces_infix`).

The first statement of a body may be put in parentheses, so that it is not read as a directive.
Code that holds a fragment as it is, or in this form, `Writes` the fragment.
-/

namespace EcmaPrinter

open EcmaPrinter.Generate

/-! ### Parts -/

mutual

/-- A fragment and everything it is built from, without marks. -/
def Fragment.parts : Fragment → List Fragment
  | .atom _ a => [.atom {} a]
  | .wrap _ w f => .wrap {} w f :: f.parts
  | .series _ j fs => .series {} j fs :: Fragment.partsOfAll fs
  | .declared _ l => .declared {} l :: l.parts
  | .initialized _ l r => .initialized {} l r :: (l.parts ++ r.parts)

/-- The parts of all members of a list. -/
def Fragment.partsOfAll : List Fragment → List Fragment
  | [] => []
  | f :: fs => f.parts ++ Fragment.partsOfAll fs

end

namespace Fragment

/-- The fragment `g` is built into `f`. -/
def Holds (f g : Fragment) : Prop :=
  g.withMarks {} ∈ f.parts

variable {f g h : Fragment} {fs : List Fragment}

@[simp] theorem withMarks_withMarks (m m' : Marks) (f : Fragment) :
    (f.withMarks m).withMarks m' = f.withMarks m' := by
  cases f <;> rfl

theorem mem_partsOfAll : g ∈ partsOfAll fs ↔ ∃ f ∈ fs, g ∈ f.parts := by
  induction fs with
  | nil => simp [partsOfAll]
  | cons f fs ih => simp [partsOfAll, ih]

@[simp] theorem Holds.refl (f : Fragment) : f.Holds f := by
  cases f <;> exact List.mem_cons_self

@[simp] theorem withMarks_holds (m : Marks) : (f.withMarks m).Holds g ↔ f.Holds g := by
  cases f <;> exact .rfl

@[simp] theorem holds_withMarks (m : Marks) : f.Holds (g.withMarks m) ↔ f.Holds g := by
  simp [Holds]

/-! ### What the constructors hold -/

theorem wrap_holds (m : Marks) (w : Wrap) :
    (wrap m w f).Holds g ↔ g.withMarks {} = wrap {} w f ∨ f.Holds g :=
  List.mem_cons

@[simp] theorem paren_holds : (paren f).Holds g ↔ g.withMarks {} = paren f ∨ f.Holds g :=
  wrap_holds _ _

@[simp] theorem bracket_holds : (bracket f).Holds g ↔ g.withMarks {} = bracket f ∨ f.Holds g :=
  wrap_holds _ _

@[simp] theorem brace_holds : (brace f).Holds g ↔ g.withMarks {} = brace f ∨ f.Holds g :=
  wrap_holds _ _

@[simp] theorem line_holds : (line f).Holds g ↔ g.withMarks {} = line f ∨ f.Holds g :=
  wrap_holds _ _

@[simp] theorem indent_holds : (indent f).Holds g ↔ g.withMarks {} = indent f ∨ f.Holds g :=
  wrap_holds _ _

@[simp] theorem noIn_holds : (noIn f).Holds g ↔ g.withMarks {} = noIn f ∨ f.Holds g :=
  wrap_holds _ _

@[simp] theorem stringStatement_holds :
    (stringStatement f).Holds g ↔ g.withMarks {} = stringStatement f ∨ f.Holds g :=
  wrap_holds _ _

theorem guardIn_holds (h : f.Holds g) : (guardIn f).Holds g := by
  unfold guardIn
  split
  · exact (wrap_holds _ _).mpr (.inr h)
  · exact h

@[simp] theorem ite_holds {b : Prop} [Decidable b] :
    (if b then f else g).Holds h ↔ if b then f.Holds h else g.Holds h := by
  split <;> exact .rfl

theorem series_holds (m : Marks) (j : Joint) :
    (series m j fs).Holds g ↔ g.withMarks {} = series {} j fs ∨ ∃ f ∈ fs, f.Holds g := by
  simp only [Holds, parts, List.mem_cons, mem_partsOfAll]

@[simp] theorem sequence_holds :
    (sequence fs).Holds g ↔ g.withMarks {} = sequence fs ∨ ∃ f ∈ fs, f.Holds g :=
  series_holds _ _

@[simp] theorem separated_holds :
    (separated fs).Holds g ↔ g.withMarks {} = separated fs ∨ ∃ f ∈ fs, f.Holds g :=
  series_holds _ _

theorem declarator_holds_left (right? : Option Fragment) : (declarator f right?).Holds f := by
  cases right? with
  | none => exact List.mem_cons_of_mem _ (Holds.refl f)
  | some r => exact List.mem_cons_of_mem _ (List.mem_append_left _ (Holds.refl f))

theorem declarator_holds_right (left : Fragment) (h : f.Holds g) :
    (declarator left (some f)).Holds g :=
  List.mem_cons_of_mem _ (List.mem_append_right _ h)

end Fragment

/-! ### Parts of parts -/

mutual

theorem Fragment.parts_subset :
    ∀ (f : Fragment) {g : Fragment}, g ∈ f.parts → g.parts ⊆ f.parts
  | .atom _ a, g, h => by
    obtain rfl := List.mem_singleton.mp h
    exact fun _ hmem => hmem
  | .wrap _ w f, g, h => by
    rcases List.mem_cons.mp h with rfl | h
    · exact fun _ hmem => hmem
    · exact List.subset_cons_of_subset _ (Fragment.parts_subset f h)
  | .series _ j fs, g, h => by
    rcases List.mem_cons.mp h with rfl | h
    · exact fun _ hmem => hmem
    · exact List.subset_cons_of_subset _ (Fragment.partsOfAll_subset fs h)
  | .declared _ l, g, h => by
    rcases List.mem_cons.mp h with rfl | h
    · exact fun _ hmem => hmem
    · exact List.subset_cons_of_subset _ (Fragment.parts_subset l h)
  | .initialized _ l r, g, h => by
    rcases List.mem_cons.mp h with rfl | h
    · exact fun _ hmem => hmem
    · refine List.subset_cons_of_subset _ ?_
      rcases List.mem_append.mp h with h | h
      · exact List.subset_append_of_subset_left _ (Fragment.parts_subset l h)
      · exact List.subset_append_of_subset_right _ (Fragment.parts_subset r h)

theorem Fragment.partsOfAll_subset :
    ∀ (fs : List Fragment) {g : Fragment},
      g ∈ Fragment.partsOfAll fs → g.parts ⊆ Fragment.partsOfAll fs
  | [], g, h => by cases h
  | f :: fs, g, h => by
    rcases List.mem_append.mp h with h | h
    · exact List.subset_append_of_subset_left _ (Fragment.parts_subset f h)
    · exact List.subset_append_of_subset_right _ (Fragment.partsOfAll_subset fs h)

end

theorem Fragment.Holds.trans {f g h : Fragment} (hfg : f.Holds g) (hgh : g.Holds h) :
    f.Holds h := by
  have hgh' : h.withMarks {} ∈ (g.withMarks {}).parts := (withMarks_holds {}).mpr hgh
  exact parts_subset f hfg hgh'

/-! ### The pieces of a part -/

theorem Wrap.exists_infix_pieces (w : Wrap) (inner : Bool → List Piece) (noIn : Bool) :
    ∃ b, inner b <:+: w.pieces inner noIn := by
  have henclose : ∀ l r, inner false <:+: enclose l r (inner false) := fun l r =>
    ⟨[.token l], [.token r], rfl⟩
  cases w with
  | paren | bracket | brace => exact ⟨false, henclose _ _⟩
  | noIn => exact ⟨true, List.infix_rfl⟩
  | containsIn =>
    cases noIn
    · exact ⟨false, List.infix_rfl⟩
    · exact ⟨false, henclose _ _⟩
  | stringStatement => exact ⟨noIn, (List.prefix_append _ _).isInfix⟩
  | line | indent => exact ⟨noIn, List.infix_rfl⟩

/-- The pieces of one fragment stand among those of the other, emitted in some place. -/
def Fragment.Occurs (g : Fragment) (ps : List Piece) : Prop :=
  ∃ noIn, g.pieces noIn <:+: ps

theorem Fragment.occurs_self (f : Fragment) (noIn : Bool) : f.Occurs (f.pieces noIn) :=
  ⟨noIn, List.infix_rfl⟩

theorem Fragment.Occurs.mono {g : Fragment} {ps qs : List Piece} (h : g.Occurs ps)
    (hps : ps <:+: qs) : g.Occurs qs := by
  obtain ⟨noIn, h⟩ := h
  exact ⟨noIn, h.trans hps⟩

mutual

theorem Fragment.occurs_of_mem_parts :
    ∀ (f : Fragment) {g : Fragment}, g ∈ f.parts → ∀ noIn, g.Occurs (f.pieces noIn)
  | .atom _ a, g, h, noIn => by
    obtain rfl := List.mem_singleton.mp h
    exact Fragment.occurs_self _ noIn
  | .wrap _ w f, g, h, noIn => by
    rcases List.mem_cons.mp h with rfl | h
    · exact Fragment.occurs_self _ noIn
    · obtain ⟨b, hb⟩ := w.exists_infix_pieces f.pieces noIn
      exact (Fragment.occurs_of_mem_parts f h b).mono hb
  | .series _ j fs, g, h, noIn => by
    rcases List.mem_cons.mp h with rfl | h
    · exact Fragment.occurs_self _ noIn
    · exact Fragment.occurs_of_mem_partsOfAll j fs h noIn
  | .declared _ l, g, h, noIn => by
    rcases List.mem_cons.mp h with rfl | h
    · exact Fragment.occurs_self _ noIn
    · exact Fragment.occurs_of_mem_parts l h false
  | .initialized _ l r, g, h, noIn => by
    rcases List.mem_cons.mp h with rfl | h
    · exact Fragment.occurs_self _ noIn
    · rcases List.mem_append.mp h with h | h
      · exact (Fragment.occurs_of_mem_parts l h false).mono (List.prefix_append _ _).isInfix
      · exact (Fragment.occurs_of_mem_parts r h noIn).mono
          ((List.suffix_cons _ _).trans (List.suffix_append _ _)).isInfix

theorem Fragment.occurs_of_mem_partsOfAll (j : Joint) :
    ∀ (fs : List Fragment) {g : Fragment}, g ∈ Fragment.partsOfAll fs →
      ∀ noIn, g.Occurs (Fragment.seriesPieces j fs noIn)
  | [], g, h, _ => by cases h
  | f :: fs, g, h, noIn => by
    rcases List.mem_append.mp h with h | h
    · exact (Fragment.occurs_of_mem_parts f h noIn).mono (List.prefix_append _ _).isInfix
    · refine (Fragment.occurs_of_mem_partsOfAll j fs h noIn).mono ?_
      cases fs with
      | nil => exact (List.nil_prefix).isInfix
      | cons f' fs => exact ((List.suffix_append _ _).trans (List.suffix_append _ _)).isInfix

end

theorem Fragment.Holds.occurs {f g : Fragment} (h : f.Holds g) (noIn : Bool) :
    g.Occurs (f.pieces noIn) := by
  obtain ⟨b, hb⟩ := occurs_of_mem_parts f h noIn
  exact ⟨b, pieces_withMarks {} g b ▸ hb⟩

/-! ### First statements -/

namespace Fragment

variable {f g h : Fragment}

/-- The fragment `g` is built into `f` as it is, or kept from being read as a directive. -/
def Writes (f g : Fragment) : Prop :=
  f.Holds g ∨ f.Holds (directiveSafe g)

theorem directiveSafe_idem (f : Fragment) : directiveSafe (directiveSafe f) = directiveSafe f := by
  cases f with
  | wrap m w f => cases w <;> rfl
  | _ => rfl

theorem directiveSafe_withMarks (f : Fragment) (m : Marks) :
    (directiveSafe (f.withMarks m)).withMarks {} = (directiveSafe f).withMarks {} := by
  cases f with
  | wrap m w f => cases w <;> rfl
  | _ => rfl

/-- What a fragment holds below itself, it also holds behind parentheses. -/
theorem Holds.directiveSafe (h : f.Holds g) :
    g.withMarks {} = f.withMarks {} ∨ (directiveSafe f).Holds g := by
  unfold Generate.directiveSafe
  split
  · next e =>
    rcases (wrap_holds _ _).mp h with h | h
    · exact .inl h
    · simp [h]
  · exact .inr h

theorem Writes.trans_holds (hfg : f.Writes g) (hgh : g.Holds h) : f.Writes h := by
  rcases hfg with hfg | hfg
  · exact .inl (hfg.trans hgh)
  · rcases hgh.directiveSafe with heq | hgh
    · right
      have hsafe : (Generate.directiveSafe h).withMarks {} =
          (Generate.directiveSafe g).withMarks {} := by
        rw [← directiveSafe_withMarks h {}, heq, directiveSafe_withMarks]
      unfold Holds at hfg ⊢
      rwa [hsafe]
    · exact .inl (hfg.trans hgh)

theorem Writes.trans (hfg : f.Writes g) (hgh : g.Writes h) : f.Writes h := by
  rcases hgh with hgh | hgh
  · exact hfg.trans_holds hgh
  · rcases hfg.trans_holds hgh with h | h
    · exact .inr h
    · rw [directiveSafe_idem] at h
      exact .inr h

/-- Code that is no string statement stands in the pieces as it is. -/
theorem Writes.occurs (h : f.Writes g) (hsafe : directiveSafe g = g) (noIn : Bool) :
    g.Occurs (f.pieces noIn) := by
  unfold Writes at h
  rw [hsafe, or_self] at h
  exact h.occurs noIn

end Fragment

end EcmaPrinter
