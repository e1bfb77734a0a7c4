import EcmaPrinter.Proofs.Pieces
import EcmaPrinter.Proofs.Tree.Steady
import Mathlib.Data.List.Basic

/-!
The operator `in` outside of all brackets.

A bracket here is anything that keeps an `in` from being misread in the head of a loop: the three
kinds of brackets, the holes of templates, and the middle part of a conditional expression.  Reading
pieces from the left, `unclosed` keeps the brackets that are still open, the innermost first.  An
`in` is exposed if none is open where it stands.

Pieces in which all brackets are closed in order are `Balanced`.  Such pieces can be put together
without looking inside: what is exposed in one of them is exposed in the whole, and brackets around
them hide everything.
-/

namespace EcmaPrinter

/-! ### Brackets -/

/-- The pieces that open something, with those that close it. -/
def brackets : List (Piece × Piece) :=
  [(.token "(", .token ")"), (.token "[", .token "]"), (.token "\x7b", .token "\x7d"),
   (.token "$\x7b", .token "\x7d"), (.operator "?", .operator ":")]

/-- Does the piece open or close anything? -/
def Piece.isBracket (p : Piece) : Bool :=
  brackets.any fun b => p == b.1 || p == b.2

/-- Does the piece open something? -/
def Piece.isOpening (p : Piece) : Bool :=
  brackets.any fun b => p == b.1

/-- The brackets that are open behind a piece.  One that does not close the innermost bracket closes
nothing. -/
def openBehind (opened : List Piece) (p : Piece) : List Piece :=
  if p.isOpening then p :: opened
  else if brackets.contains (opened.headD p, p) then opened.tail
  else opened

/-- The brackets that are open behind pieces, the innermost first. -/
def unclosed (opened ps : List Piece) : List Piece :=
  ps.foldl openBehind opened

@[simp] theorem unclosed_nil (S : List Piece) : unclosed S [] = S := rfl

@[simp] theorem unclosed_cons (S : List Piece) (p : Piece) (ps : List Piece) :
    unclosed S (p :: ps) = unclosed (openBehind S p) ps := rfl

@[simp] theorem unclosed_append (S ps qs : List Piece) :
    unclosed S (ps ++ qs) = unclosed (unclosed S ps) qs :=
  List.foldl_append

theorem openBehind_of_not_isBracket {p : Piece} (h : p.isBracket = false) (S : List Piece) :
    openBehind S p = S := by
  have hall : ∀ b ∈ brackets, p ≠ b.1 ∧ p ≠ b.2 := by
    simpa [Piece.isBracket] using h
  have hopening : p.isOpening = false := by
    simp only [Piece.isOpening, List.any_eq_false, beq_iff_eq]
    exact fun b hb => (hall b hb).1
  have hclosing : brackets.contains (S.headD p, p) = false := by
    rw [List.contains_eq_mem, decide_eq_false_iff_not]
    exact fun hmem => (hall _ hmem).2 rfl
  simp only [openBehind, hopening, hclosing, Bool.false_eq_true, if_false]

theorem openBehind_opening {l r : Piece} (h : (l, r) ∈ brackets) (S : List Piece) :
    openBehind S l = l :: S := by
  have hl : l.isOpening := List.any_eq_true.mpr ⟨(l, r), h, by simp⟩
  simp [openBehind, hl]

theorem openBehind_closing {l r : Piece} (h : (l, r) ∈ brackets) (S : List Piece) :
    openBehind (l :: S) r = S := by
  have hr : ∀ b ∈ brackets, b.2.isOpening = false := by decide
  simp [openBehind, hr _ h, h]

/-! ### Exposed operators -/

/-- There is an `in` outside of all brackets. -/
def ExposesIn (ps : List Piece) : Prop :=
  ∃ l r, ps = l ++ .operator "in" :: r ∧ unclosed [] l = []

/-- The same in brackets that are open already, by a walk over the pieces. -/
def exposesInside : (opened ps : List Piece) → Bool
  | _, [] => false
  | opened, p :: ps =>
    opened.isEmpty && p == .operator "in" || exposesInside (openBehind opened p) ps

theorem exposesInside_iff (S ps : List Piece) :
    exposesInside S ps ↔ ∃ l r, ps = l ++ .operator "in" :: r ∧ unclosed S l = [] := by
  induction ps generalizing S with
  | nil => simp [exposesInside]
  | cons p ps ih =>
    rw [exposesInside, Bool.or_eq_true, ih]
    constructor
    · rintro (hhere | ⟨l, r, rfl, hl⟩)
      · simp only [Bool.and_eq_true, List.isEmpty_iff, beq_iff_eq] at hhere
        exact ⟨[], ps, by rw [hhere.2, List.nil_append], hhere.1⟩
      · exact ⟨p :: l, r, rfl, hl⟩
    · rintro ⟨l, r, heq, hl⟩
      rcases l with - | ⟨q, l⟩
      · obtain ⟨rfl, rfl⟩ := List.cons_eq_cons.mp heq
        have hS : S = [] := hl
        subst hS
        exact .inl (by simp)
      · obtain ⟨rfl, rfl⟩ := List.cons_eq_cons.mp heq
        exact .inr ⟨l, r, rfl, hl⟩

theorem exposesIn_iff (ps : List Piece) : ExposesIn ps ↔ exposesInside [] ps :=
  (exposesInside_iff [] ps).symm

instance (ps : List Piece) : Decidable (ExposesIn ps) :=
  decidable_of_iff _ (exposesIn_iff ps).symm

theorem exposesInside_append (S ps qs : List Piece) :
    exposesInside S (ps ++ qs) = (exposesInside S ps || exposesInside (unclosed S ps) qs) := by
  induction ps generalizing S with
  | nil => rfl
  | cons p ps ih =>
    rw [List.cons_append, exposesInside, exposesInside, ih, Bool.or_assoc, unclosed_cons]

/-! ### Balanced pieces -/

/-- All brackets are closed, and nothing is exposed where a bracket is open around the pieces. -/
structure Balanced (ps : List Piece) : Prop where
  unclosed_eq : ∀ S, unclosed S ps = S
  hidden : ∀ b S, exposesInside (b :: S) ps = false

section

variable {ps qs : List Piece} {p l r : Piece}

theorem balanced_nil : Balanced [] :=
  ⟨fun _ => rfl, fun _ _ => rfl⟩

theorem Balanced.append (hp : Balanced ps) (hq : Balanced qs) : Balanced (ps ++ qs) where
  unclosed_eq S := by rw [unclosed_append, hp.unclosed_eq, hq.unclosed_eq]
  hidden b S := by rw [exposesInside_append, hp.hidden, hp.unclosed_eq, hq.hidden, Bool.or_self]

theorem balanced_single (h : p.isBracket = false) : Balanced [p] where
  unclosed_eq S := openBehind_of_not_isBracket h S
  hidden b S := by simp [exposesInside]

theorem Balanced.cons (hp : p.isBracket = false) (h : Balanced ps) : Balanced (p :: ps) :=
  (balanced_single hp).append h

theorem Balanced.of_append_single (hp : p.isBracket = false) (h : Balanced (ps ++ [p])) :
    Balanced ps where
  unclosed_eq S := by
    have hS := h.unclosed_eq S
    rwa [unclosed_append, (balanced_single hp).unclosed_eq] at hS
  hidden b S := by
    have hb := h.hidden b S
    rw [exposesInside_append, Bool.or_eq_false_iff] at hb
    exact hb.1

/-- Two brackets that belong together hide all that is between them. -/
theorem Balanced.between (hlr : (l, r) ∈ brackets) (h : Balanced ps) :
    Balanced (l :: (ps ++ [r])) ∧ exposesInside [] (l :: (ps ++ [r])) = false := by
  have hin : ∀ b ∈ brackets, b.1 ≠ .operator "in" ∧ b.2 ≠ .operator "in" := by decide
  have hwalk : ∀ S, exposesInside S (l :: (ps ++ [r])) = false := by
    intro S
    rw [exposesInside, openBehind_opening hlr, exposesInside_append, h.hidden, h.unclosed_eq]
    simp [exposesInside, (hin _ hlr).1]
  refine ⟨⟨fun S => ?_, fun b S => hwalk _⟩, hwalk []⟩
  rw [unclosed_cons, openBehind_opening hlr, unclosed_append, h.unclosed_eq, unclosed_cons,
    openBehind_closing hlr, unclosed_nil]

theorem balanced_flatMap {α : Type} {xs : List α} {f : α → List Piece}
    (h : ∀ x ∈ xs, Balanced (f x)) : Balanced (xs.flatMap f) := by
  induction xs with
  | nil => exact balanced_nil
  | cons x xs ih =>
    obtain ⟨hx, hxs⟩ := List.forall_mem_cons.mp h
    rw [List.flatMap_cons]
    exact hx.append (ih hxs)

/-! ### What is exposed in balanced pieces -/

@[simp] theorem not_exposesIn_nil : ¬ ExposesIn [] := by
  rw [exposesIn_iff]
  exact Bool.false_ne_true

theorem Balanced.exposesIn_append (h : Balanced ps) :
    ExposesIn (ps ++ qs) ↔ ExposesIn ps ∨ ExposesIn qs := by
  rw [exposesIn_iff, exposesIn_iff, exposesIn_iff, exposesInside_append, h.unclosed_eq,
    Bool.or_eq_true]

theorem exposesIn_cons (h : p.isBracket = false) :
    ExposesIn (p :: ps) ↔ p = .operator "in" ∨ ExposesIn ps := by
  have hsingle : ExposesIn [p] ↔ p = .operator "in" := by
    rw [exposesIn_iff]
    simp [exposesInside]
  rw [← hsingle]
  exact (balanced_single h).exposesIn_append

theorem Balanced.not_exposesIn_between (hlr : (l, r) ∈ brackets) (h : Balanced ps) :
    ¬ ExposesIn (l :: (ps ++ [r])) := by
  rw [exposesIn_iff, (h.between hlr).2]
  exact Bool.false_ne_true

end

end EcmaPrinter
