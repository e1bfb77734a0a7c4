import EcmaPrinter.Proofs.Tree.Visits
import Mathlib.Algebra.BigOperators.Group.List.Basic
import Mathlib.Algebra.FreeMonoid.Basic
import Mathlib.Data.List.Forall2

/-!
The order of a visit, and products along it.

`IsPostorder` says in which order the nodes of a tree are to be visited: those of the parts from
left to right, and the tree itself behind them.  `Tree.tally` counts nodes by a visit whose every
step writes to a log.  The log has the nodes in this order, with the sizes of their subtrees
(`Tree.tally_eq`, `IsPostorder.trace_eq`), and what is written for a subtree stands in one piece,
closed by the entry of the subtree itself (`IsPostorder.exists_suffix`).

Two visits whose steps keep a relation have related results (`Tree.visit_rel`).  From this a product
over a tree is one over the log, if only nodes without children have values (`Tree.product_eq`).
-/

namespace EcmaPrinter

/-- Is this the head of a node that never has children? -/
def Head.isChildless : Head → Bool
  | directive _ | exportAll _ | exportFromSpecifier _ _ | staticName _ | bindingName _
  | targetName _ | breakStatement _ | continueStatement _ | debuggerStatement | emptyStatement
  | boolean _ | infinity | null | number _ | regExp _ _ | string _ | this | newTarget
  | identifier _ | super | templateText _ => true
  | _ => false

namespace Tree

variable {c : Category}

/-! ### Nodes in order -/

/-- The list has all nodes of the tree with their heads: those of the parts, one part after the
other, and behind them the tree, if it is a node. -/
inductive IsPostorder : {c : Category} → Tree c → List (Head × Node) → Prop where
  | intro {c : Category} (t : Tree c) (inside : Node → List (Head × Node))
      (h : ∀ m ∈ t.parts, IsPostorder m.2 (inside m)) :
      IsPostorder t (t.parts.flatMap inside ++ t.head?.toList.map (·, ⟨c, t⟩))

theorem exists_isPostorder (t : Tree c) : ∃ order, IsPostorder t order := by
  refine parts_induction (P := fun m => ∃ order, IsPostorder m.2 order) ?_ t
  intro c t ih
  classical
  choose inside hinside using ih
  refine ⟨_, .intro t (fun m => if hm : m ∈ t.parts then inside m hm else []) fun m hm => ?_⟩
  rw [dif_pos hm]
  exact hinside m hm

theorem IsPostorder.unique {t : Tree c} {xs ys : List (Head × Node)} (hxs : IsPostorder t xs)
    (hys : IsPostorder t ys) : xs = ys := by
  induction hxs generalizing ys with
  | intro t inside _ ih =>
    cases hys with | intro _ inside' h =>
    have hparts : t.parts.flatMap inside = t.parts.flatMap inside' :=
      List.flatMap_congr fun m hm => ih m hm (h m hm)
    rw [hparts]

/-- An entry of a concatenation is an entry of one of the lists. -/
theorem exists_of_flatMap_eq {α β : Type} {f : α → List β} {xs : List α} {pre post : List β}
    {b : β} (h : xs.flatMap f = pre ++ b :: post) :
    ∃ x ∈ xs, ∃ before pre' post', f x = pre' ++ b :: post' ∧ pre = before ++ pre' := by
  induction xs generalizing pre with
  | nil => simp at h
  | cons x xs ih =>
    rw [List.flatMap_cons, List.append_eq_append_iff] at h
    obtain ⟨as, rfl, hrest⟩ | ⟨bs, hx, hrest⟩ := h
    · obtain ⟨y, hy, before, pre', post', hf, rfl⟩ := ih hrest
      exact ⟨y, .tail _ hy, f x ++ before, pre', post', hf, (List.append_assoc ..).symm⟩
    · cases bs with
      | nil =>
        have hxs : xs.flatMap f = [] ++ b :: post := hrest.symm
        obtain ⟨y, hy, before, pre', post', hf, hpre⟩ := ih hxs
        refine ⟨y, .tail _ hy, pre ++ before, pre', post', hf, ?_⟩
        rw [List.append_assoc, ← hpre, List.append_nil]
      | cons b' bs =>
        obtain ⟨rfl, -⟩ := List.cons.inj hrest
        exact ⟨x, .head _, [], pre, bs, hx, rfl⟩

/-- What is visited in a subtree ends with the subtree and is visited in one go. -/
theorem IsPostorder.exists_suffix {t : Tree c} {order pre post : List (Head × Node)}
    {entry : Head × Node} (h : IsPostorder t order) (hsplit : order = pre ++ entry :: post) :
    ∃ before own, pre ++ [entry] = before ++ own ∧ IsPostorder entry.2.2 own ∧
      entry.2.2.head? = some entry.1 := by
  induction h generalizing pre post with
  | @intro c t inside hinside ih =>
    have hpart {post : List (Head × Node)} (h : t.parts.flatMap inside = pre ++ entry :: post) :
        ∃ before own, pre ++ [entry] = before ++ own ∧ IsPostorder entry.2.2 own ∧
          entry.2.2.head? = some entry.1 := by
      obtain ⟨m, hm, before, pre', post', hinside, rfl⟩ := exists_of_flatMap_eq h
      obtain ⟨before', own, hown, horder⟩ := ih m hm hinside
      refine ⟨before ++ before', own, ?_, horder⟩
      rw [List.append_assoc, hown, List.append_assoc]
    cases hhead : t.head? with
    | none =>
      rw [hhead, Option.toList_none, List.map_nil, List.append_nil] at hsplit
      exact hpart hsplit
    | some h =>
      have horder := IsPostorder.intro t inside hinside
      rw [hhead, Option.toList_some, List.map_singleton] at hsplit horder
      rcases List.eq_nil_or_concat post with rfl | ⟨post, last, rfl⟩
      · obtain ⟨-, hentry⟩ := List.append_inj' hsplit rfl
        obtain rfl := List.singleton_inj.mp hentry
        exact ⟨[], _, hsplit.symm, horder, hhead⟩
      · rw [List.concat_eq_append, ← List.cons_append, ← List.append_assoc] at hsplit
        exact hpart (List.append_inj' hsplit rfl).1

/-! ### Visits in step with each other -/

/-- A node whose head says so has no parts. -/
theorem parts_eq_nil_of_isChildless {t : Tree c} {h : Head} (hhead : t.head? = some h)
    (hchildless : h.isChildless) : t.parts = [] := by
  have htable : (t.head?.all fun h => !h.isChildless || t.parts.isEmpty) = true := by
    cases t <;> rfl
  rw [hhead, Option.all_some, hchildless] at htable
  exact List.isEmpty_iff.mp htable

/-- Two visits have related results if related results of the children give related results. -/
theorem visit_rel {α β : Type} {R : α → β → Prop} {f : Head → List α → α} {g : Head → List β → β}
    (hstep : ∀ h xs ys, List.Forall₂ R xs ys → (h.isChildless → xs = [] ∧ ys = []) →
      R (f h xs) (g h ys)) (t : Tree c) : List.Forall₂ R (t.visit f) (t.visit g) := by
  refine parts_induction (P := fun m => List.Forall₂ R (m.2.visit f) (m.2.visit g)) ?_ t
  intro c t ih
  have hparts : List.Forall₂ R (t.parts.flatMap (·.2.visit f)) (t.parts.flatMap (·.2.visit g)) :=
    List.rel_flatMap (R := fun m n => m = n ∧ m ∈ t.parts)
      (List.forall₂_same.mpr fun _ hm => ⟨rfl, hm⟩) (fun m _ ⟨heq, hm⟩ => heq ▸ ih m hm)
  rw [visit_eq f, visit_eq g]
  cases hhead : t.head? with
  | none => exact hparts
  | some h =>
    refine .cons (hstep h _ _ hparts fun hchildless => ?_) .nil
    rw [parts_eq_nil_of_isChildless hhead hchildless]
    exact ⟨rfl, rfl⟩

/-! ### A count with a log -/

/-- Counts the nodes of a subtree, and writes its head and size down. -/
def tallyStep (h : Head) (children : List (StateM (List (Head × Nat)) Nat)) :
    StateM (List (Head × Nat)) Nat := do
  let sizes ← children.mapM id
  let size := sizes.foldl (· + ·) 1
  modify (· ++ [(h, size)])
  return size

/-- The sizes of the outermost nodes of a tree, and all that is written down on the way. -/
def tally (t : Tree c) : List Nat × List (Head × Nat) :=
  ((t.visit tallyStep).mapM id).run []

/-- A subtree with this trace is counted right, and its trace is written to the end of the log. -/
def Counts (count : StateM (List (Head × Nat)) Nat) (trace : List (Head × Nat)) : Prop :=
  ∀ log, count.run log = (trace.length, log ++ trace)

theorem run_mapM_of_counts {counts : List (StateM (List (Head × Nat)) Nat)}
    {traces : List (List (Head × Nat))} (h : List.Forall₂ Counts counts traces)
    (log : List (Head × Nat)) :
    (counts.mapM id).run log = (traces.map List.length, log ++ traces.flatten) := by
  induction h generalizing log with
  | nil => rw [List.flatten_nil, List.append_nil]; rfl
  | cons hfirst _ ih =>
    rw [List.mapM_cons, StateT.run_bind, id_eq, hfirst log, List.flatten_cons, ← List.append_assoc]
    show (do let p ← (StateT.run (List.mapM id _) _ : Id _); pure (_ :: p.1, p.2)) = _
    rw [ih]
    rfl

theorem foldl_map_length {α : Type} (xss : List (List α)) (n : Nat) :
    (xss.map List.length).foldl (· + ·) n = n + xss.flatten.length := by
  induction xss generalizing n with
  | nil => rfl
  | cons xs xss ih => simp [ih, Nat.add_assoc]

theorem counts_tallyStep {h : Head} {counts : List (StateM (List (Head × Nat)) Nat)}
    {traces : List (List (Head × Nat))} (hchildren : List.Forall₂ Counts counts traces) :
    Counts (tallyStep h counts) (traceStep h traces) := by
  intro log
  rw [tallyStep, StateT.run_bind, run_mapM_of_counts hchildren]
  show ((traces.map List.length).foldl (· + ·) 1,
    log ++ traces.flatten ++ [(h, (traces.map List.length).foldl (· + ·) 1)]) = _
  rw [foldl_map_length, Nat.add_comm, List.append_assoc, traceStep, List.length_append,
    List.length_singleton]

/-- A count writes the trace of a tree to its log. -/
theorem tally_eq (t : Tree c) : t.tally = ((t.visit traceStep).map List.length, t.trace) :=
  run_mapM_of_counts
    (t.visit_rel (g := traceStep) fun _ _ _ hchildren _ => counts_tallyStep hchildren) []

/-- The size of a tree is the length of its trace. -/
theorem size_eq (t : Tree c) : t.size = t.trace.length := by
  have hmap {sizes : List Nat} {traces : List (List (Head × Nat))}
      (h : List.Forall₂ (fun size trace => size = trace.length) sizes traces) :
      sizes = traces.map List.length :=
    List.forall₂_eq_eq_eq (α := Nat) ▸ List.forall₂_map_right_iff.mpr h
  have hvisit : t.visit sizeStep = (t.visit traceStep).map List.length := by
    refine hmap (t.visit_rel fun h sizes traces hchildren _ => ?_)
    rw [hmap hchildren, sizeStep, foldl_map_length, traceStep, List.length_append, Nat.add_comm,
      List.length_singleton]
  rw [size, hvisit, foldl_map_length, Nat.zero_add, trace]

theorem trace_eq (t : Tree c) :
    t.trace = t.parts.flatMap (·.2.trace) ++ t.head?.toList.map (·, t.size) := by
  have hparts : (t.parts.flatMap (·.2.visit traceStep)).flatten = t.parts.flatMap (·.2.trace) := by
    simp only [List.flatMap_def, List.flatten_flatten, List.map_map, trace]
    rfl
  have htrace :
      t.trace = (passed traceStep t.head? (t.parts.flatMap (·.2.visit traceStep))).flatten :=
    congrArg _ (t.visit_eq traceStep)
  rw [size_eq, htrace]
  cases t.head? with
  | none => simp [passed, hparts]
  | some h => simp [passed, traceStep, hparts]

/-- The trace has the nodes in order, each with its size. -/
theorem IsPostorder.trace_eq {t : Tree c} {order : List (Head × Node)} (h : IsPostorder t order) :
    t.trace = order.map fun entry => (entry.1, entry.2.2.size) := by
  induction h with
  | intro t inside _ ih =>
    rw [t.trace_eq, List.map_append, List.map_flatMap, List.map_map, List.flatMap_congr ih]
    rfl

theorem IsPostorder.size_eq {t : Tree c} {order : List (Head × Node)} (h : IsPostorder t order) :
    t.size = order.length := by
  rw [t.size_eq, h.trace_eq, List.length_map]

/-- The log of a node has the nodes in order, each with its size. -/
theorem IsPostorder.tally_eq {t : Tree c} {order : List (Head × Node)} {h : Head}
    (horder : IsPostorder t order) (hhead : t.head? = some h) :
    t.tally = ([order.length], order.map fun entry => (entry.1, entry.2.2.size)) := by
  have hvisit : t.visit traceStep = [t.trace] := by
    rw [trace, visit_eq, hhead]
    show [_] = [List.flatten [_]]
    rw [List.flatten_singleton]
  rw [t.tally_eq, hvisit, ← horder.trace_eq, ← horder.size_eq, t.size_eq]
  rfl

theorem IsPostorder.getLast?_eq {t : Tree c} {order : List (Head × Node)} {h : Head}
    (horder : IsPostorder t order) (hhead : t.head? = some h) :
    order.getLast? = some (h, ⟨c, t⟩) := by
  cases horder
  rw [hhead, Option.toList_some, List.map_singleton, List.getLast?_concat]

/-! ### Products -/

/-- A product over a tree is one over its trace, if only nodes without children have values. -/
theorem product_eq {α : Type} [Monoid α] {own : Head → Option α}
    (hown : ∀ h, (own h).isSome → h.isChildless) (t : Tree c) :
    t.product 1 (· * ·) own = (t.trace.filterMap fun entry => own entry.1).prod := by
  have hfold {xs : List α} {traces : List (List (Head × Nat))}
      (h : List.Forall₂ (fun x trace => x = (trace.filterMap fun entry => own entry.1).prod) xs
        traces) :
      xs.foldl (· * ·) 1 = (traces.flatten.filterMap fun entry => own entry.1).prod := by
    rw [← List.prod_eq_foldl]
    induction h with
    | nil => rfl
    | cons hfirst _ ih => simp [ih, hfirst, List.filterMap_append]
  refine hfold (t.visit_rel fun h xs traces hchildren hchildless => ?_)
  cases hvalue : own h with
  | none => simp [productStep, traceStep, hvalue, hfold hchildren, List.filterMap_append]
  | some a =>
    -- A node with a value has no children whose values could be lost.
    obtain ⟨rfl, rfl⟩ := hchildless (hown h (hvalue ▸ rfl))
    simp [productStep, traceStep, hvalue]

/-- Every program is visited node by node, children before their parents and from left to right,
and the nodes of a subtree in one piece that the subtree itself closes.  Products take the values of
nodes without children in this order. -/
theorem tally_isPostorder (p : Program) : ∃ (root : Head) (order : List (Head × Node)),
    IsPostorder p order ∧ (∀ other, IsPostorder p other → other = order) ∧
    p.tally = ([order.length], order.map fun entry => (entry.1, entry.2.2.size)) ∧
    p.trace = p.tally.2 ∧ p.size = order.length ∧
    p.head? = some root ∧ order.getLast? = some (root, ⟨_, p⟩) ∧
    (∀ pre entry post, order = pre ++ entry :: post →
      ∃ before own, pre ++ [entry] = before ++ own ∧ IsPostorder entry.2.2 own ∧
        entry.2.2.size = own.length ∧
        entry.2.2.tally = ([own.length], own.map fun entry => (entry.1, entry.2.2.size))) ∧
    ∀ {α : Type} [Monoid α] (own : Head → Option α), (∀ h, (own h).isSome → h.isChildless) →
      p.product 1 (· * ·) own = (p.tally.2.filterMap fun entry => own entry.1).prod := by
  obtain ⟨root, hroot⟩ : ∃ root, p.head? = some root := by
    cases p with
    | script => exact ⟨_, rfl⟩
    | moduleBody => exact ⟨_, rfl⟩
  obtain ⟨order, horder⟩ := p.exists_isPostorder
  have htrace : p.trace = p.tally.2 := by rw [p.tally_eq]
  refine ⟨root, order, horder, fun _ hother => hother.unique horder, horder.tally_eq hroot, htrace,
    horder.size_eq, hroot, horder.getLast?_eq hroot, ?_, ?_⟩
  · intro pre entry post hsplit
    obtain ⟨before, own, hown, hsub, hentry⟩ := horder.exists_suffix hsplit
    exact ⟨before, own, hown, hsub, hsub.size_eq, hsub.tally_eq hentry⟩
  · intro α _ own hown
    rw [← htrace]
    exact p.product_eq hown

/-- The names of `var x = [a, , b]`, in order. -/
theorem tally_isPostorder_hole :
    let name : Head → Option (FreeMonoid String)
      | .bindingName n | .identifier n => some (FreeMonoid.of n)
      | _ => none
    let p : Program := .script .nil (.cons (.variableStatement (.declaration .functionScope (.cons
      (.declarator (.ofBindingName (.bindingName "x")) (.present (.array
        (.cons (.present (.ofArgument (.ofIdentifier (.identifier "a")))) (.cons .absent (.cons
          (.present (.ofArgument (.ofIdentifier (.identifier "b")))) .nil)))))) .nil))) .nil)
    p.tally.1 = [8] ∧ p.tally.2.map (·.2) = [1, 1, 1, 3, 5, 6, 7, 8] ∧
      p.product 1 (· * ·) name = FreeMonoid.ofList ["x", "a", "b"] := by
  intro name p
  obtain ⟨_, order, -, -, htally, htrace, hsize, -, -, -, hproduct⟩ := tally_isPostorder p
  have hname : ∀ h, (name h).isSome → h.isChildless := by
    intro h hh
    cases h with
    | bindingName | identifier => rfl
    | _ => cases hh
  have hlength : order.length = 8 := hsize.symm.trans (by decide)
  exact ⟨htally ▸ hlength ▸ rfl, htrace ▸ by decide,
    (hproduct name hname).trans (htrace ▸ rfl)⟩

end Tree

end EcmaPrinter
