import EcmaPrinter.Proofs.Grammar.Statement

/-!
Every nonterminal takes off at least one terminal, so the checks in the parser never fail.

The functions of the parser stop because a call either has fewer terminals or goes to a simpler
nonterminal.  Where it has fewer, the function looks: `fewer?`.  Here it is proved that the look
always succeeds, and each function is given by the equation that one would write without it.
-/

namespace EcmaPrinter.Grammar

open EcmaPrinter
open EcmaPrinter.Text

/-- Whatever the function reads, it leaves fewer terminals than there were. -/
def Progress {α : Type} (read : List Terminal → Option (α × List Terminal)) : Prop :=
  ∀ ⦃ts a rest⦄, read ts = some (a, rest) → rest.length < ts.length

theorem fewer?_eq {ts rest : List Terminal} (h : rest.length < ts.length) :
    fewer? ts rest = some ⟨rest, h⟩ :=
  dif_pos h

/-! ### Terminals at the front -/

theorem skip?_lt {text : String} {ts rest : List Terminal} (h : skip? text ts = some rest) :
    rest.length < ts.length := by
  unfold skip? at h
  split at h
  · split at h
    · cases h
      exact Nat.lt_succ_self _
    · cases h
  · cases h

theorem keyword?_lt {name : String} {ts rest : List Terminal} (h : keyword? name ts = some rest) :
    rest.length < ts.length := by
  unfold keyword? at h
  split at h
  · split at h
    · cases h
      exact Nat.lt_succ_self _
    · cases h
  · cases h

theorem lt_of_map_eq {α β : Type} {o : Option α} {f : α → β} {t : Terminal}
    {ts rest : List Terminal} {b : β} (h : o.map (f ·, ts) = some (b, rest)) :
    rest.length < (t :: ts).length := by
  obtain ⟨_, -, heq⟩ := Option.map_eq_some_iff.mp h
  cases heq
  exact Nat.lt_succ_self _

theorem progress_row? {α : Type} (table : List (Terminal × α)) : Progress (row? table)
  | _ :: _, _, _, h => lt_of_map_eq (f := id) h

/-! ### What the nonterminals leave -/

/-- What follows an operand may be nothing. -/
theorem chain_le (p : Precedence) (left : Expression) (ts : List Terminal) {e : Expression}
    {rest : List Terminal} (h : chain p left ts = some (e, rest)) : rest.length ≤ ts.length := by
  rw [chain] at h
  split at h
  · simp only [Option.bind_eq_bind, Option.bind_eq_some_iff, Prod.exists, Subtype.exists] at h
    obtain ⟨_, _, -, _, _, -, ts', hlt, -, hchain⟩ := h
    exact Nat.le_trans (chain_le p _ ts' hchain) (Nat.le_of_lt hlt)
  · cases h
    exact Nat.le_refl _
termination_by ts.length

/-- The members and calls behind an object may be none. -/
theorem tail_le (calls : Bool) (object : Expression) (ts : List Terminal) {e : Expression}
    {rest : List Terminal} (h : tail calls object ts = some (e, rest)) :
    rest.length ≤ ts.length := by
  induction hn : ts.length using Nat.strongRecOn generalizing object ts with
  | ind n ih =>
    rw [tail.eq_def] at h
    split at h
    · rename_i t ts
      simp only [List.length_cons] at hn
      split at h
      · split at h
        · rename_i property ts
          simp only [List.length_cons] at hn
          have := ih ts.length (by omega) _ ts h rfl
          omega
        · cases h
      split at h
      · simp only [Option.bind_eq_bind, Option.bind_eq_some_iff, Prod.exists, Subtype.exists] at h
        obtain ⟨_, _, -, _, -, ts', hlt, -, htail⟩ := h
        have := ih ts'.length (by omega) _ ts' htail rfl
        omega
      split at h
      · simp only [Option.bind_eq_bind, Option.bind_eq_some_iff, Prod.exists, Subtype.exists] at h
        obtain ⟨_, _, -, ts', hlt, -, htail⟩ := h
        have := ih ts'.length (by omega) _ ts' htail rfl
        omega
      · cases h
        exact Nat.le_of_eq hn
    · cases h
      exact Nat.le_of_eq hn

theorem progress_leftHandSide : Progress leftHandSide := by
  intro ts e rest h
  rw [leftHandSide] at h
  simp only [Option.bind_eq_bind, Option.bind_eq_some_iff, Prod.exists, Subtype.exists] at h
  obtain ⟨_, _, -, ts', hlt, -, htail⟩ := h
  exact Nat.lt_of_le_of_lt (tail_le _ _ _ htail) hlt

theorem progress_member : Progress member := by
  intro ts e rest h
  rw [member] at h
  simp only [Option.bind_eq_bind, Option.bind_eq_some_iff, Prod.exists, Subtype.exists] at h
  obtain ⟨_, _, -, ts', hlt, -, htail⟩ := h
  exact Nat.lt_of_le_of_lt (tail_le _ _ _ htail) hlt

-- `unary` calls itself and `update`, which calls `unary`, always on fewer terminals.
theorem unary_lt_and_update_lt (n : Nat) : ∀ ts, ts.length = n → ∀ ⦃e rest⦄,
    (unary ts = some (e, rest) → rest.length < ts.length) ∧
      (update ts = some (e, rest) → rest.length < ts.length) := by
  induction n using Nat.strongRecOn with
  | ind n ih =>
    intro ts hn e rest
    have hupdate : update ts = some (e, rest) → rest.length < ts.length := by
      intro h
      rw [update] at h
      split at h
      · simp only [Option.bind_eq_bind, Option.bind_eq_some_iff, Prod.exists, Subtype.exists,
          Option.some.injEq, Prod.mk.injEq] at h
        obtain ⟨ts', hlt, -, _, ts'', hread, -, -, -, rfl⟩ := h
        exact Nat.lt_trans ((ih ts'.length (by omega) ts' rfl).1 hread) hlt
      · simp only [Option.bind_eq_bind, Option.bind_eq_some_iff, Prod.exists] at h
        obtain ⟨_, ts', hread, h⟩ := h
        have hlt := progress_leftHandSide hread
        split at h
        · rename_i op ts'' hop
          simp only [Option.bind_eq_some_iff, Option.some.injEq, Prod.mk.injEq] at h
          obtain ⟨-, -, -, rfl⟩ := h
          exact Nat.lt_trans (progress_row? _ hop) hlt
        · cases h
          exact hlt
    refine ⟨?_, hupdate⟩
    intro h
    rw [unary] at h
    split at h
    · simp only [Option.bind_eq_bind, Option.bind_eq_some_iff, Prod.exists, Subtype.exists,
        Option.some.injEq, Prod.mk.injEq] at h
      obtain ⟨ts', hlt, -, _, ts'', hread, -, rfl⟩ := h
      exact Nat.lt_trans ((ih ts'.length (by omega) ts' rfl).1 hread) hlt
    · exact hupdate h

theorem progress_unary : Progress unary :=
  fun ts _ _ h => (unary_lt_and_update_lt _ ts rfl).1 h

theorem progress_update : Progress update :=
  fun ts _ _ h => (unary_lt_and_update_lt _ ts rfl).2 h

theorem exponential_lt (ts : List Terminal) ⦃e : Expression⦄ ⦃rest : List Terminal⦄
    (h : exponential ts = some (e, rest)) : rest.length < ts.length := by
  rw [exponential] at h
  split at h
  · simp only [Option.bind_eq_bind, Option.bind_eq_some_iff, Prod.exists] at h
    obtain ⟨_, ts', hread, h⟩ := h
    split at h
    · cases h
    · cases h
      exact progress_unary hread
  · simp only [Option.bind_eq_bind, Option.bind_eq_some_iff, Prod.exists] at h
    obtain ⟨_, ts', hread, h⟩ := h
    split at h
    · simp only [Option.bind_eq_some_iff, Prod.exists, Subtype.exists,
        Option.some.injEq, Prod.mk.injEq] at h
      obtain ⟨ts', hlt, -, _, ts'', hread, -, rfl⟩ := h
      exact Nat.lt_trans (exponential_lt ts' hread) hlt
    · cases h
      exact progress_update hread
termination_by ts.length

/-- At a level that is a chain of operators, the first operand makes the progress. -/
theorem lt_of_chain {p : Precedence} {ts rest : List Terminal} {e : Expression}
    (h : ((level (next p) ts).bind fun r => (fewer? ts r.2).bind fun rest => chain p r.1 rest.1)
      = some (e, rest)) : rest.length < ts.length := by
  simp only [Option.bind_eq_some_iff, Prod.exists, Subtype.exists] at h
  obtain ⟨_, _, -, ts', hlt, -, hchain⟩ := h
  exact Nat.lt_of_le_of_lt (chain_le _ _ _ hchain) hlt

-- The two call each other, always on fewer terminals where the result counts.
theorem assignment_lt_and_conditional_lt (n : Nat) : ∀ ts, ts.length = n → ∀ ⦃e rest⦄,
    (assignment ts = some (e, rest) → rest.length < ts.length) ∧
      (conditional ts = some (e, rest) → rest.length < ts.length) := by
  induction n using Nat.strongRecOn with
  | ind n ih =>
    intro ts hn
    have hconditional : ∀ ⦃e rest⦄, conditional ts = some (e, rest) →
        rest.length < ts.length := by
      intro e rest h
      rw [conditional] at h
      simp only [Option.bind_eq_bind, Option.bind_eq_some_iff, Prod.exists] at h
      obtain ⟨_, ts', hread, h⟩ := h
      split at h
      · simp only [Option.bind_eq_some_iff, Prod.exists, Subtype.exists, Option.some.injEq,
          Prod.mk.injEq] at h
        obtain ⟨_, _, -, _, _, -, _, -, ts'', hlt, -, _, _, hlast, -, rfl⟩ := h
        exact Nat.lt_trans ((ih ts''.length (by omega) ts'' rfl).1 hlast) hlt
      · cases h
        rw [level.eq_def] at hread
        exact lt_of_chain (p := .logicalOr) hread
    intro e rest
    refine ⟨?_, @hconditional e rest⟩
    intro h
    rw [assignment] at h
    simp only [Option.bind_eq_bind, Option.bind_eq_some_iff, Prod.exists] at h
    obtain ⟨_, ts', hread, h⟩ := h
    split at h
    · simp only [Option.bind_eq_some_iff, Prod.exists, Subtype.exists, Option.some.injEq,
        Prod.mk.injEq] at h
      obtain ⟨_, -, ts'', hlt, -, _, _, hlast, -, rfl⟩ := h
      exact Nat.lt_trans ((ih ts''.length (by omega) ts'' rfl).1 hlast) hlt
    · cases h
      exact hconditional hread

theorem progress_assignment : Progress assignment :=
  fun ts _ _ h => (assignment_lt_and_conditional_lt _ ts rfl).1 h

theorem progress_conditional : Progress conditional :=
  fun ts _ _ h => (assignment_lt_and_conditional_lt _ ts rfl).2 h

theorem progress_level (p : Precedence) : Progress (level p) := by
  intro ts e rest h
  rw [level.eq_def] at h
  split at h
  · exact progress_assignment h
  · exact progress_conditional h
  · exact exponential_lt ts h
  · exact progress_unary h
  · exact progress_update h
  · exact progress_leftHandSide h
  · exact progress_leftHandSide h
  · exact progress_leftHandSide h
  · exact progress_leftHandSide h
  · split at h
    · exact lt_of_chain h
    · cases h

theorem progress_argument : Progress argument := by
  intro ts e rest h
  rw [argument] at h
  split at h
  · simp only [Option.bind_eq_bind, Option.bind_eq_some_iff, Prod.exists, Subtype.exists,
      Option.some.injEq, Prod.mk.injEq] at h
    obtain ⟨_, hlt, -, _, _, hread, -, rfl⟩ := h
    exact Nat.lt_trans (progress_assignment hread) hlt
  · simp only [Option.bind_eq_bind, Option.bind_eq_some_iff, Prod.exists, Option.some.injEq,
      Prod.mk.injEq] at h
    obtain ⟨_, _, hread, -, rfl⟩ := h
    exact progress_assignment hread

theorem arguments_lt (ts : List Terminal) ⦃items : Tree (.list .argument)⦄
    ⦃rest : List Terminal⦄ (h : arguments ts = some (items, rest)) :
    rest.length < ts.length := by
  rw [arguments] at h
  split at h
  · rename_i hskip
    cases h
    exact skip?_lt hskip
  · simp only [Option.bind_eq_bind, Option.bind_eq_some_iff, Prod.exists] at h
    obtain ⟨_, ts', hread, h⟩ := h
    split at h
    · simp only [Option.bind_eq_some_iff, Prod.exists, Subtype.exists, Option.some.injEq,
        Prod.mk.injEq] at h
      obtain ⟨ts'', hlt, -, _, _, hlast, -, rfl⟩ := h
      exact Nat.lt_trans (arguments_lt ts'' hlast) hlt
    · simp only [Option.bind_eq_some_iff, Option.some.injEq, Prod.mk.injEq] at h
      obtain ⟨_, hskip, -, rfl⟩ := h
      exact Nat.lt_trans (skip?_lt hskip) (progress_argument hread)
termination_by ts.length

theorem elements_lt (ts : List Terminal) ⦃items : Tree (.list (.option .argument))⦄
    ⦃rest : List Terminal⦄ (h : elements ts = some (items, rest)) :
    rest.length < ts.length := by
  rw [elements] at h
  split at h
  · rename_i hskip
    cases h
    exact skip?_lt hskip
  · split at h
    · simp only [Option.bind_eq_bind, Option.bind_eq_some_iff, Prod.exists, Subtype.exists,
        Option.some.injEq, Prod.mk.injEq] at h
      obtain ⟨ts'', hlt, -, _, _, hlast, -, rfl⟩ := h
      exact Nat.lt_trans (elements_lt ts'' hlast) hlt
    · simp only [Option.bind_eq_bind, Option.bind_eq_some_iff, Prod.exists] at h
      obtain ⟨_, ts', hread, h⟩ := h
      split at h
      · simp only [Option.bind_eq_some_iff, Prod.exists, Subtype.exists, Option.some.injEq,
          Prod.mk.injEq] at h
        obtain ⟨ts'', hlt, -, _, _, hlast, -, rfl⟩ := h
        exact Nat.lt_trans (elements_lt ts'' hlast) hlt
      · simp only [Option.bind_eq_some_iff, Option.some.injEq, Prod.mk.injEq] at h
        obtain ⟨_, hskip, -, rfl⟩ := h
        exact Nat.lt_trans (skip?_lt hskip) (progress_argument hread)
termination_by ts.length

theorem progress_primary : Progress primary := by
  intro ts e rest h
  rw [primary.eq_def] at h
  split at h
  · exact lt_of_map_eq (f := id) (by simpa using h)
  · cases h
    exact Nat.lt_succ_self _
  · exact lt_of_map_eq h
  · split at h
    · simp only [Option.bind_eq_bind, Option.bind_eq_some_iff, Prod.exists, Option.some.injEq,
        Prod.mk.injEq] at h
      obtain ⟨_, _, hread, _, hskip, -, rfl⟩ := h
      exact Nat.lt_trans (skip?_lt hskip) (Nat.lt_succ_of_lt (progress_level _ hread))
    · split at h
      · simp only [Option.bind_eq_bind, Option.bind_eq_some_iff, Prod.exists, Option.some.injEq,
          Prod.mk.injEq] at h
        obtain ⟨_, _, hread, -, rfl⟩ := h
        exact Nat.lt_succ_of_lt (elements_lt _ hread)
      · cases h
  · cases h

theorem progress_head : Progress head := by
  intro ts e rest h
  rw [head] at h
  split at h
  · simp only [Option.bind_eq_bind, Option.bind_eq_some_iff, Prod.exists, Subtype.exists] at h
    obtain ⟨ts', hlt, -, _, _, hread, h⟩ := h
    split at h
    · simp only [Option.bind_eq_some_iff, Prod.exists, Subtype.exists, Option.some.injEq,
        Prod.mk.injEq] at h
      obtain ⟨ts'', hlt, -, _, _, hlast, -, rfl⟩ := h
      exact Nat.lt_trans (arguments_lt ts'' hlast) hlt
    · cases h
      exact Nat.lt_trans (progress_member hread) hlt
  · exact progress_primary h

/-! ### The equations of the parser -/

theorem chain_eq (p : Precedence) (left : Expression) (ts : List Terminal) :
    chain p left ts = match binaryOperator? p ts with
      | some (op, ts) => do
        let (right, ts) ← level (next p) ts
        chain p (.binary left op right) ts
      | none => some (left, ts) := by
  rw [chain]
  cases hop : binaryOperator? p ts with
  | none => rfl
  | some found =>
    have hlt := progress_row? _ hop
    simp only [fewer?_eq hlt, Option.bind_eq_bind, Option.bind_some]
    refine Option.bind_congr fun read hread => ?_
    simp only [fewer?_eq (Nat.lt_trans (progress_level _ hread) hlt), Option.bind_some]

theorem assignment_eq (ts : List Terminal) :
    assignment ts = (do
      let (e, ts) ← conditional ts
      match assignmentOperator? ts with
      | some (op?, ts) => do
        let target ← toTarget? e
        let (value, ts) ← assignment ts
        some (assigned op? target value, ts)
      | none => some (e, ts)) := by
  rw [assignment]
  refine Option.bind_congr ?_
  rintro ⟨e, rest⟩ hread
  cases hop : assignmentOperator? rest with
  | none => simp only [hop]
  | some found =>
    have hlt := Nat.lt_trans (progress_row? _ hop) (progress_conditional hread)
    simp only [hop, fewer?_eq hlt, Option.bind_eq_bind, Option.bind_some]

theorem conditional_eq (ts : List Terminal) :
    conditional ts = (do
      let (test, ts) ← level .logicalOr ts
      match skip? "?" ts with
      | some ts => do
        let (consequent, ts) ← assignment ts
        let ts ← skip? ":" ts
        let (alternate, ts) ← assignment ts
        some (.conditional test consequent alternate, ts)
      | none => some (test, ts)) := by
  rw [conditional]
  refine Option.bind_congr ?_
  rintro ⟨test, rest⟩ hread
  cases hskip : skip? "?" rest with
  | none => simp only [hskip]
  | some rest' =>
    have hlt := Nat.lt_trans (skip?_lt hskip) (progress_level _ hread)
    simp only [hskip, fewer?_eq hlt, Option.bind_eq_bind, Option.bind_some]
    refine Option.bind_congr fun read hread => Option.bind_congr fun rest hskip => ?_
    have hlt' := Nat.lt_trans (skip?_lt hskip) (Nat.lt_trans (progress_assignment hread) hlt)
    simp only [fewer?_eq hlt', Option.bind_some]

theorem exponential_eq (ts : List Terminal) :
    exponential ts = (match prefixOperator? ts with
      | some _ => do
        let (e, ts) ← unary ts
        match skip? "**" ts with
        | some _ => none
        | none => some (e, ts)
      | none => do
        let (left, ts) ← update ts
        match skip? "**" ts with
        | some ts => do
          let (right, ts) ← exponential ts
          some (.binary left .power right, ts)
        | none => some (left, ts)) := by
  rw [exponential]
  cases prefixOperator? ts with
  | some _ => rfl
  | none =>
    refine Option.bind_congr ?_
    rintro ⟨left, rest⟩ hread
    cases hskip : skip? "**" rest with
    | none => simp only [hskip]
    | some rest' =>
      have hlt := Nat.lt_trans (skip?_lt hskip) (progress_update hread)
      simp only [hskip, fewer?_eq hlt, Option.bind_eq_bind, Option.bind_some]

theorem unary_eq (ts : List Terminal) :
    unary ts = (match prefixOperator? ts with
      | some (op?, ts) => do
        let (e, ts) ← unary ts
        some (prefixed op? e, ts)
      | none => update ts) := by
  rw [unary]
  cases hop : prefixOperator? ts with
  | none => rfl
  | some found =>
    simp only [fewer?_eq (progress_row? _ hop), Option.bind_eq_bind, Option.bind_some]

theorem update_eq (ts : List Terminal) :
    update ts = (match updateOperator? ts with
      | some (op, ts) => do
        let (e, ts) ← unary ts
        let target ← toTarget? e
        some (.update true op target, ts)
      | none => do
        let (e, ts) ← leftHandSide ts
        match updateOperator? ts with
        | some (op, ts) => do
          let target ← toTarget? e
          some (.update false op target, ts)
        | none => some (e, ts)) := by
  rw [update]
  cases hop : updateOperator? ts with
  | none => rfl
  | some found =>
    simp only [fewer?_eq (progress_row? _ hop), Option.bind_eq_bind, Option.bind_some]

theorem leftHandSide_eq (ts : List Terminal) :
    leftHandSide ts = (do
      let (e, ts) ← head ts
      tail true e ts) := by
  rw [leftHandSide]
  refine Option.bind_congr fun read hread => ?_
  simp only [fewer?_eq (progress_head hread), Option.bind_eq_bind, Option.bind_some]

theorem member_eq (ts : List Terminal) :
    member ts = (do
      let (e, ts) ← head ts
      tail false e ts) := by
  rw [member]
  refine Option.bind_congr fun read hread => ?_
  simp only [fewer?_eq (progress_head hread), Option.bind_eq_bind, Option.bind_some]

theorem head_eq (ts : List Terminal) :
    head ts = (match keyword? "new" ts with
      | some ts => do
        let (callee, ts) ← member ts
        match skip? "(" ts with
        | some ts => do
          let (items, ts) ← arguments ts
          some (.construct callee items, ts)
        | none => some (.construct callee .nil, ts)
      | none => primary ts) := by
  rw [head]
  cases hnew : keyword? "new" ts with
  | none => rfl
  | some rest =>
    have hlt := keyword?_lt hnew
    simp only [fewer?_eq hlt, Option.bind_eq_bind, Option.bind_some]
    refine Option.bind_congr ?_
    rintro ⟨callee, rest'⟩ hread
    cases hskip : skip? "(" rest' with
    | none => rfl
    | some rest'' =>
      have hlt' := Nat.lt_trans (skip?_lt hskip) (Nat.lt_trans (progress_member hread) hlt)
      simp only [fewer?_eq hlt', Option.bind_some]

theorem tail_eq (calls : Bool) (e : Expression) (t : String) (rest : List Terminal) :
    tail calls e (.punctuator t :: rest) =
      if t = "." then
        match rest with
        | .word property :: rest => tail calls (.staticMember (.ofCallee e) property) rest
        | _ => none
      else if t = "[" then do
        let (i, rest) ← level .sequence rest
        let rest ← skip? "]" rest
        tail calls (.computedMember (.ofCallee e) i) rest
      else if t = "(" ∧ calls then do
        let (items, rest) ← arguments rest
        tail calls (.call (.ofCallee e) items) rest
      else some (e, .punctuator t :: rest) := by
  rw [tail.eq_def]
  simp only
  split
  · rfl
  split
  · refine Option.bind_congr fun read hread => Option.bind_congr fun rest' hskip => ?_
    have hlt := Nat.lt_trans (skip?_lt hskip) (progress_level _ hread)
    simp only [fewer?_eq hlt, Option.bind_eq_bind, Option.bind_some]
  split
  · refine Option.bind_congr fun read hread => ?_
    simp only [fewer?_eq (arguments_lt _ hread), Option.bind_eq_bind, Option.bind_some]
  · rfl

theorem argument_eq (ts : List Terminal) :
    argument ts = (match skip? "..." ts with
      | some ts => do
        let (e, ts) ← assignment ts
        some (.spread e, ts)
      | none => do
        let (e, ts) ← assignment ts
        some (.ofArgument e, ts)) := by
  rw [argument]
  cases hskip : skip? "..." ts with
  | none => rfl
  | some rest => simp only [fewer?_eq (skip?_lt hskip), Option.bind_eq_bind, Option.bind_some]

theorem arguments_eq (ts : List Terminal) :
    arguments ts = (match skip? ")" ts with
      | some ts => some (.nil, ts)
      | none => do
        let (a, ts) ← argument ts
        match skip? "," ts with
        | some ts => do
          let (items, ts) ← arguments ts
          some (.cons a items, ts)
        | none => do
          let ts ← skip? ")" ts
          some (.cons a .nil, ts)) := by
  rw [arguments]
  cases skip? ")" ts with
  | some rest => rfl
  | none =>
    refine Option.bind_congr ?_
    rintro ⟨a, rest⟩ hread
    cases hskip : skip? "," rest with
    | none => simp only [hskip]
    | some rest' =>
      have hlt := Nat.lt_trans (skip?_lt hskip) (progress_argument hread)
      simp only [hskip, fewer?_eq hlt, Option.bind_eq_bind, Option.bind_some]

theorem elements_eq (ts : List Terminal) :
    elements ts = (match skip? "]" ts with
      | some ts => some (.nil, ts)
      | none =>
        match skip? "," ts with
        | some ts => do
          let (es, ts) ← elements ts
          some (.cons .absent es, ts)
        | none => do
          let (a, ts) ← argument ts
          match skip? "," ts with
          | some ts => do
            let (es, ts) ← elements ts
            some (.cons (.present a) es, ts)
          | none => do
            let ts ← skip? "]" ts
            some (.cons (.present a) .nil, ts)) := by
  rw [elements]
  cases skip? "]" ts with
  | some rest => rfl
  | none =>
    cases hhole : skip? "," ts with
    | some rest => simp only [fewer?_eq (skip?_lt hhole), Option.bind_eq_bind, Option.bind_some]
    | none =>
      refine Option.bind_congr ?_
      rintro ⟨a, rest⟩ hread
      cases hskip : skip? "," rest with
      | none => simp only [hskip]
      | some rest' =>
        have hlt := Nat.lt_trans (skip?_lt hskip) (progress_argument hread)
        simp only [hskip, fewer?_eq hlt, Option.bind_eq_bind, Option.bind_some]

/-! ### Statements -/

theorem statementEnd?_le {ts rest : List Terminal} (h : statementEnd? ts = some rest) :
    rest.length ≤ ts.length := by
  unfold statementEnd? at h
  split at h
  · cases h
    exact Nat.le_refl _
  · split at h
    · cases h
      exact Nat.le_succ _
    · split at h
      · cases h
        exact Nat.le_refl _
      · cases h
  · cases h

theorem progress_group : Progress group := by
  intro ts e rest h
  simp only [group, Option.bind_eq_bind, Option.bind_eq_some_iff, Prod.exists, Option.some.injEq,
    Prod.mk.injEq] at h
  obtain ⟨_, hopen, _, _, hread, _, hclose, -, rfl⟩ := h
  have := skip?_lt hopen
  have := progress_level _ hread
  have := skip?_lt hclose
  omega

theorem progress_optional (closing : String) : Progress (optional closing) := by
  intro ts e rest h
  unfold optional at h
  split at h
  · rename_i hskip
    cases h
    exact skip?_lt hskip
  · simp only [Option.bind_eq_bind, Option.bind_eq_some_iff, Prod.exists, Option.some.injEq,
      Prod.mk.injEq] at h
    obtain ⟨_, _, hread, _, hclose, -, rfl⟩ := h
    exact Nat.lt_trans (skip?_lt hclose) (progress_level _ hread)

theorem progress_stepsHead : Progress stepsHead := by
  intro ts e rest h
  simp only [stepsHead, Option.bind_eq_bind, Option.bind_eq_some_iff, Prod.exists,
    Option.some.injEq, Prod.mk.injEq] at h
  obtain ⟨_, _, hstart, _, _, htest, _, _, hupdate, -, rfl⟩ := h
  have := progress_optional _ hstart
  have := progress_optional _ htest
  have := progress_optional _ hupdate
  omega

theorem progress_loopHead : Progress loopHead := by
  intro ts e rest h
  simp only [loopHead, Option.bind_eq_bind, Option.bind_eq_some_iff] at h
  obtain ⟨ts', hopen, h⟩ := h
  have hlt := skip?_lt hopen
  split at h
  · rename_i first w after hread
    have hafter := progress_leftHandSide hread
    simp only [List.length_cons] at hafter
    split at h
    · simp only [keysHead, Option.bind_eq_bind, Option.bind_eq_some_iff, Prod.exists,
        Option.some.injEq, Prod.mk.injEq] at h
      obtain ⟨_, -, _, _, hobject, _, hclose, -, rfl⟩ := h
      have := progress_level _ hobject
      have := skip?_lt hclose
      omega
    split at h
    · simp only [valuesHead, Option.bind_eq_bind, Option.bind_eq_some_iff, Prod.exists,
        Option.some.injEq, Prod.mk.injEq] at h
      obtain ⟨_, -, _, _, hitems, _, hclose, -, rfl⟩ := h
      have := progress_assignment hitems
      have := skip?_lt hclose
      omega
    · exact Nat.lt_trans (progress_stepsHead h) hlt
  · exact Nat.lt_trans (progress_stepsHead h) hlt

theorem progress_expressionStatement : Progress expressionStatement := by
  intro ts s rest h
  simp only [expressionStatement, Option.bind_eq_bind, Option.bind_eq_some_iff, Prod.exists,
    Option.some.injEq, Prod.mk.injEq] at h
  obtain ⟨_, _, hread, _, hend, -, rfl⟩ := h
  exact Nat.lt_of_le_of_lt (statementEnd?_le hend) (progress_level _ hread)

/-- Statements make progress as long as there are at most `n` terminals. -/
def ProgressTo (n : Nat) : Prop :=
  ∀ ⦃ts⦄, ts.length ≤ n → ∀ ⦃s rest⦄, statement ts = some (s, rest) → rest.length < ts.length

/-- The word itself is taken off before. -/
theorem wordStatement_le {name : String} {ts rest : List Terminal} {s : Tree .statement}
    (ih : ProgressTo ts.length) (h : wordStatement name ts = some (s, rest)) :
    rest.length ≤ ts.length := by
  rw [wordStatement] at h
  split at h
  · simp only [Option.bind_eq_bind, Option.bind_eq_some_iff, Prod.exists, Subtype.exists] at h
    obtain ⟨_, _, -, _, hlt, -, _, _, hread, h⟩ := h
    have := ih (Nat.le_of_lt hlt) hread
    split at h
    · simp only [Option.bind_eq_some_iff, Prod.exists, Subtype.exists, Option.some.injEq,
        Prod.mk.injEq] at h
      obtain ⟨_, hlt, -, _, _, hread, -, rfl⟩ := h
      have := ih (Nat.le_of_lt hlt) hread
      omega
    · cases h
      omega
  split at h
  · simp only [Option.bind_eq_bind, Option.bind_eq_some_iff, Prod.exists, Subtype.exists,
      Option.some.injEq, Prod.mk.injEq] at h
    obtain ⟨_, _, -, _, hlt, -, _, _, hread, -, rfl⟩ := h
    exact Nat.le_of_lt (Nat.lt_trans (ih (Nat.le_of_lt hlt) hread) hlt)
  split at h
  · simp only [Option.bind_eq_bind, Option.bind_eq_some_iff, Prod.exists, Subtype.exists,
      Option.some.injEq, Prod.mk.injEq] at h
    obtain ⟨_, _, -, _, hlt, -, _, _, hread, -, rfl⟩ := h
    exact Nat.le_of_lt (Nat.lt_trans (ih (Nat.le_of_lt hlt) hread) hlt)
  split at h
  · simp only [Option.bind_eq_bind, Option.bind_eq_some_iff, Prod.exists, Subtype.exists,
      Option.some.injEq, Prod.mk.injEq] at h
    obtain ⟨_, _, -, _, hlt, -, _, _, hread, -, rfl⟩ := h
    exact Nat.le_of_lt (Nat.lt_trans (ih (Nat.le_of_lt hlt) hread) hlt)
  split at h
  · simp only [Option.bind_eq_bind, Option.bind_eq_some_iff, Prod.exists, Option.some.injEq,
      Prod.mk.injEq] at h
    obtain ⟨_, _, hbody, _, hwhile, _, _, hgroup, _, hend, -, rfl⟩ := h
    have := ih (Nat.le_refl _) hbody
    have := keyword?_lt hwhile
    have := progress_group hgroup
    have := statementEnd?_le hend
    omega
  split at h
  · split at h
    · cases h
    · simp only [Option.bind_eq_bind, Option.bind_eq_some_iff, Prod.exists, Subtype.exists,
        Option.some.injEq, Prod.mk.injEq] at h
      obtain ⟨_, hlt, -, _, _, hread, -, rfl⟩ := h
      exact Nat.le_of_lt (Nat.lt_trans (ih (Nat.le_of_lt hlt) hread) hlt)
  · exact Nat.lt_succ_iff.mp (progress_expressionStatement h)

theorem statements_lt (ts : List Terminal) (ih : ProgressTo ts.length)
    {ss : Tree (.list .statement)} {rest : List Terminal}
    (h : statements ts = some (ss, rest)) : rest.length < ts.length := by
  rw [statements] at h
  split at h
  · rename_i hskip
    cases h
    exact skip?_lt hskip
  · simp only [Option.bind_eq_bind, Option.bind_eq_some_iff, Prod.exists, Subtype.exists,
      Option.some.injEq, Prod.mk.injEq] at h
    obtain ⟨_, _, -, ts', hlt, -, _, _, hread, -, rfl⟩ := h
    have ih' : ProgressTo ts'.length := fun _ hle => ih (Nat.le_trans hle (Nat.le_of_lt hlt))
    exact Nat.lt_trans (statements_lt ts' ih' hread) hlt
termination_by ts.length

theorem progressTo (n : Nat) : ProgressTo n := by
  induction n with
  | zero =>
    intro ts hts s rest h
    obtain rfl : ts = [] := List.length_eq_zero_iff.mp (Nat.le_zero.mp hts)
    rw [statement.eq_def] at h
    exact progress_expressionStatement h
  | succ n ih =>
    intro ts hts s rest h
    rw [statement.eq_def] at h
    split at h
    · rename_i name ts
      have hn : ts.length ≤ n := Nat.le_of_succ_le_succ hts
      exact Nat.lt_succ_of_le (wordStatement_le (fun _ hle => ih (Nat.le_trans hle hn)) h)
    · rename_i t ts
      have hn : ts.length ≤ n := Nat.le_of_succ_le_succ hts
      split at h
      · cases h
        exact Nat.lt_succ_self _
      split at h
      · simp only [Option.bind_eq_bind, Option.bind_eq_some_iff, Prod.exists, Option.some.injEq,
          Prod.mk.injEq] at h
        obtain ⟨_, _, hread, -, rfl⟩ := h
        exact Nat.lt_succ_of_lt (statements_lt ts (fun _ hle => ih (Nat.le_trans hle hn)) hread)
      · exact progress_expressionStatement h
    · exact progress_expressionStatement h

theorem progress_statement : Progress statement :=
  fun ts _ _ h => progressTo ts.length (Nat.le_refl _) h

theorem wordStatement_eq (name : String) (ts : List Terminal) :
    wordStatement name ts =
      (if name = "if" then do
        let (test, ts) ← group ts
        let (consequent, ts) ← statement ts
        match keyword? "else" ts with
        | some ts => do
          let (alternate, ts) ← statement ts
          some (.ifStatement test consequent (.present alternate), ts)
        | none => some (.ifStatement test consequent .absent, ts)
      else if name = "while" then do
        let (test, ts) ← group ts
        let (body, ts) ← statement ts
        some (.whileLoop test body, ts)
      else if name = "with" then do
        let (object, ts) ← group ts
        let (body, ts) ← statement ts
        some (.withStatement object body, ts)
      else if name = "for" then do
        let (head, ts) ← loopHead ts
        let (body, ts) ← statement ts
        some (head.toStatement body, ts)
      else if name = "do" then do
        let (body, ts) ← statement ts
        let ts ← keyword? "while" ts
        let (test, ts) ← group ts
        let ts ← statementEnd? ts
        some (.doWhile body test, ts)
      else match skip? ":" ts with
        | some ts =>
          if reservedWords.contains name then none
          else do
            let (body, ts) ← statement ts
            some (.labeled name body, ts)
        | none => expressionStatement (.word name :: ts)) := by
  rw [wordStatement]
  split
  · refine Option.bind_congr ?_
    rintro ⟨test, rest⟩ hgroup
    have hlt := progress_group hgroup
    simp only [fewer?_eq hlt, Option.bind_eq_bind, Option.bind_some]
    refine Option.bind_congr ?_
    rintro ⟨consequent, rest'⟩ hread
    cases helse : keyword? "else" rest' with
    | none => rfl
    | some rest'' =>
      have hlt' := Nat.lt_trans (keyword?_lt helse) (Nat.lt_trans (progress_statement hread) hlt)
      simp only [fewer?_eq hlt', Option.bind_some]
  split
  · refine Option.bind_congr fun read hgroup => ?_
    simp only [fewer?_eq (progress_group hgroup), Option.bind_eq_bind, Option.bind_some]
  split
  · refine Option.bind_congr fun read hgroup => ?_
    simp only [fewer?_eq (progress_group hgroup), Option.bind_eq_bind, Option.bind_some]
  split
  · refine Option.bind_congr fun read hhead => ?_
    simp only [fewer?_eq (progress_loopHead hhead), Option.bind_eq_bind, Option.bind_some]
  split
  · rfl
  cases hskip : skip? ":" ts with
  | none => rfl
  | some rest => simp only [fewer?_eq (skip?_lt hskip), Option.bind_eq_bind, Option.bind_some]

theorem statements_eq (ts : List Terminal) :
    statements ts = (match skip? "\x7d" ts with
      | some ts => some (.nil, ts)
      | none => do
        let (s, ts) ← statement ts
        let (ss, ts) ← statements ts
        some (.cons s ss, ts)) := by
  rw [statements]
  cases skip? "\x7d" ts with
  | some rest => rfl
  | none =>
    refine Option.bind_congr fun read hread => ?_
    simp only [fewer?_eq (progress_statement hread), Option.bind_eq_bind, Option.bind_some]

end EcmaPrinter.Grammar
