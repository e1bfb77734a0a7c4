import EcmaPrinter.Proofs.Grammar.Progress

/-!
How the expression parser reads a stretch of terminals that something follows.

A terminal that can continue an expression has a strength, the precedence of what it would
continue.  What follows a stretch ends it at a level of the parser if its first terminal is
weaker than the level (`Ends`).  `ReadsAs q X e` says what the parser makes of the stretch `X` at
all levels up to `q`: it gives `e` and stops behind `X`, and where an operator of the level itself
follows it goes on with `e` as the left operand.  The second part is what makes an induction
over left-associative operators possible.

The lemmas `ReadsAs.of_...` build such facts from the level at which a stretch is read to all the
levels below it, so that a shape of expression only has to be looked at once, at its own level.
-/

namespace EcmaPrinter.Grammar

open EcmaPrinter

/-! ### Operators as terminals -/

section

variable {α : Type} {table : List (Terminal × α)} {t : Terminal}

theorem row?_cons_eq {a : α} (h : table.lookup t = some a) (ts : List Terminal) :
    row? table (t :: ts) = some (a, ts) := by
  rw [row?, h]
  rfl

/-- What a property of the terminals in a table excludes is not in the table. -/
theorem row?_cons_eq_none {P : Terminal → Prop} (hall : ∀ entry ∈ table, P entry.1) (ht : ¬ P t)
    (ts : List Terminal) : row? table (t :: ts) = none := by
  have hlookup : table.lookup t = none := by
    rw [List.lookup_eq_none_iff]
    intro entry hentry
    rw [bne_iff_ne]
    rintro rfl
    exact ht (hall entry hentry)
  rw [row?, hlookup]
  rfl

end

/-- The grammar has the binary operators at their precedences, under their texts, and no others. -/
theorem mem_binaryOperators_iff {p : Precedence} {t : Terminal} {op : BinaryOperator} :
    (t, op) ∈ binaryOperators p ↔ t = .ofText op.text ∧ p = op.precedence := by
  constructor
  · have hall : ∀ p, ∀ entry ∈ binaryOperators p,
        entry.1 = .ofText entry.2.text ∧ p = entry.2.precedence := by
      intro p
      cases p <;> decide
    exact hall p (t, op)
  · rintro ⟨rfl, rfl⟩
    cases op <;> decide

theorem lookup_binaryOperators (op : BinaryOperator) :
    (binaryOperators op.precedence).lookup (.ofText op.text) = some op := by
  cases op <;> decide

theorem lookup_assignmentOperators (op : AssignmentOperator) :
    assignmentOperators.lookup (.ofText op.text) = some (some op) := by
  cases op <;> decide

theorem lookup_prefixOperators (op : UnaryOperator) :
    prefixOperators.lookup (.ofText op.text) = some (some op) := by
  cases op <;> decide

theorem lookup_updateOperators (op : UpdateOperator) :
    updateOperators.lookup (.ofText op.text) = some op := by
  cases op <;> decide

/-! ### Strength -/

/-- One more than the rank of what the terminal can continue; zero if it continues nothing.  An
assignment operator counts as strong as `?`, because it continues the last part of a conditional
expression. -/
def strength (t : Terminal) : Nat :=
  if t = .punctuator "." ∨ t = .punctuator "[" ∨ t = .punctuator "(" then 18
  else if (updateOperator? [t]).isSome then 16
  else match Precedence.all.find? fun p => (binaryOperator? p [t]).isSome with
    | some p => p.rank + 1
    | none => if t = .punctuator "?" ∨ (assignmentOperator? [t]).isSome then 3 else 0

@[simp] theorem strength_binary (op : BinaryOperator) :
    strength (.ofText op.text) = op.precedence.rank + 1 := by
  cases op <;> decide

@[simp] theorem strength_assignment (op : AssignmentOperator) :
    strength (.ofText op.text) = 3 := by
  cases op <;> decide

@[simp] theorem strength_update (op : UpdateOperator) : strength (.ofText op.text) = 16 := by
  cases op <;> decide

/-- What follows ends an expression at a level: it does not start with a terminal that would
continue one there. -/
def Ends (p : Precedence) (rest : List Terminal) : Prop :=
  ∀ t ∈ rest.head?, strength t ≤ p.rank

@[simp] theorem ends_nil (p : Precedence) : Ends p [] := by
  simp [Ends]

@[simp] theorem ends_cons (p : Precedence) (t : Terminal) (ts : List Terminal) :
    Ends p (t :: ts) ↔ strength t ≤ p.rank := by
  simp [Ends]

theorem Ends.mono {p q : Precedence} (hpq : p ≤ q) {rest : List Terminal} (h : Ends p rest) :
    Ends q rest :=
  fun t ht => Nat.le_trans (h t ht) hpq

/-- No terminal continues an assignment and not a conditional expression. -/
theorem strength_ne_two (t : Terminal) : strength t ≠ 2 := by
  unfold strength
  split
  · decide
  split
  · decide
  split
  · next p hp =>
    have hsome := List.find?_some hp
    cases p with
    | assignment => cases hsome
    | _ => decide
  split <;> decide

theorem Ends.assignment_of_conditional {rest : List Terminal} (h : Ends .conditional rest) :
    Ends .assignment rest :=
  fun t ht => Nat.le_of_lt_succ (Nat.lt_of_le_of_ne (h t ht) (strength_ne_two t))

section

variable {p : Precedence} {rest : List Terminal}

theorem Ends.row?_eq_none {α : Type} {table : List (Terminal × α)}
    (hall : ∀ entry ∈ table, p.rank < strength entry.1) (h : Ends p rest) :
    row? table rest = none := by
  cases rest with
  | nil => rfl
  | cons t ts =>
    rw [ends_cons] at h
    exact row?_cons_eq_none (P := (p.rank < strength ·)) hall (Nat.not_lt.mpr h) ts

theorem Ends.binaryOperator?_eq_none (h : Ends p rest) : binaryOperator? p rest = none := by
  refine h.row?_eq_none fun entry hentry => ?_
  obtain ⟨hterminal, hlevel⟩ := mem_binaryOperators_iff.mp hentry
  rw [hterminal, hlevel, strength_binary]
  exact Nat.lt_succ_self _

theorem Ends.updateOperator?_eq_none (hp : p ≤ .update) (h : Ends p rest) :
    updateOperator? rest = none := by
  have hall : ∀ entry ∈ updateOperators, strength entry.1 = 16 := by decide
  have hrank : p.rank ≤ 15 := hp
  exact h.row?_eq_none fun entry hentry => by rw [hall entry hentry]; omega

theorem Ends.assignmentOperator?_eq_none (hp : p ≤ .assignment) (h : Ends p rest) :
    assignmentOperator? rest = none := by
  have hall : ∀ entry ∈ assignmentOperators, strength entry.1 = 3 := by decide
  have hrank : p.rank ≤ 1 := hp
  exact h.row?_eq_none fun entry hentry => by rw [hall entry hentry]; omega

/-- A punctuator that is too strong does not stand at the front. -/
theorem Ends.skip?_eq_none (h : Ends p rest) (text : String)
    (hlt : p.rank < strength (.punctuator text)) : skip? text rest = none := by
  cases rest with
  | nil => rfl
  | cons t ts =>
    cases t with
    | punctuator s =>
      have hne : s ≠ text := by
        rintro rfl
        rw [ends_cons] at h
        omega
      simp [skip?, hne]
    | _ => rfl

theorem Ends.tail_eq (hp : p ≤ .call) (h : Ends p rest) (calls : Bool) (e : Expression) :
    tail calls e rest = some (e, rest) := by
  have hrank : p.rank ≤ 17 := hp
  cases rest with
  | nil => simp [tail]
  | cons t ts =>
    rw [ends_cons] at h
    cases t with
    | punctuator s =>
      have hne : s ≠ "." ∧ s ≠ "[" ∧ s ≠ "(" := by
        refine ⟨?_, ?_, ?_⟩ <;> rintro rfl
        · have : strength (.punctuator ".") = 18 := by decide
          omega
        · have : strength (.punctuator "[") = 18 := by decide
          omega
        · have : strength (.punctuator "(") = 18 := by decide
          omega
      rw [Grammar.tail_eq]
      simp [hne]
    | _ => simp [tail]

end

/-! ### The levels of the parser -/

/-- Is the precedence one of left-associative operators? -/
def isChain : Precedence → Bool
  | .sequence | .logicalOr | .logicalAnd | .bitwiseOr | .bitwiseXor | .bitwiseAnd | .equality
  | .relational | .shift | .additive | .multiplicative => true
  | _ => false

theorem eq_of_rank_eq {p q : Precedence} (h : p.rank = q.rank) : p = q := by
  have hall : ∀ r : Precedence, Precedence.all[r.rank]? = some r := fun r => by cases r <;> rfl
  have hsome : some p = some q := by rw [← hall p, ← hall q, h]
  exact Option.some.inj hsome

theorem next_le_of_lt {p q : Precedence} (h : p < q) : next p ≤ q := by
  have hrank : p.rank < q.rank := h
  have hnext : (next p).rank ≤ p.rank + 1 := by cases p <;> decide
  exact Nat.le_trans hnext hrank

theorem lt_next {p : Precedence} (h : p < .exponential) : p.rank < (next p).rank := by
  cases p with
  | member | primary => exact absurd h (by decide)
  | _ => exact Nat.lt_succ_self _

theorem le_next (p : Precedence) : p ≤ next p := by
  cases p <;> decide

theorem rank_next {p : Precedence} (hp : isChain p) : (next p).rank = p.rank + 1 := by
  cases p with
  | primary => cases hp
  | _ => rfl

theorem next_le_exponential {p : Precedence} (hp : isChain p) : next p ≤ .exponential := by
  cases p with
  | assignment | conditional | exponential | unary | update | construction | call | member
  | primary => cases hp
  | _ => decide

theorem level_of_isChain {p : Precedence} (hp : isChain p) (ts : List Terminal) :
    level p ts = (level (next p) ts).bind fun r => chain p r.1 r.2 := by
  rw [level.eq_def]
  cases p with
  | assignment | conditional | exponential | unary | update | construction | call | member
  | primary => cases hp
  | _ =>
    refine Option.bind_congr fun read hread => ?_
    simp only [fewer?_eq (progress_level _ hread), Option.bind_eq_bind, Option.bind_some]

theorem Ends.chain_eq {p : Precedence} {rest : List Terminal} (h : Ends p rest) (e : Expression) :
    chain p e rest = some (e, rest) := by
  rw [Grammar.chain_eq, h.binaryOperator?_eq_none]

/-- At the level `p`, the stretch gives `e` if what follows ends it. -/
def Reads (p : Precedence) (X : List Terminal) (e : Expression) : Prop :=
  ∀ rest, Ends p rest → level p (X ++ rest) = some (e, rest)

/-- A stretch that gives `e` at a level starts a chain with `e` at the level below. -/
theorem Reads.chain_eq {p : Precedence} (hp : isChain p) {X : List Terminal} {e : Expression}
    (h : Reads (next p) X e) {rest : List Terminal} (hrest : Ends (next p) rest) :
    level p (X ++ rest) = chain p e rest := by
  rw [level_of_isChain hp, h rest hrest]
  rfl

/-- Below powers, every level starts with the next one. -/
theorem Reads.of_next {p : Precedence} (hp : p < .exponential) {X : List Terminal} {e : Expression}
    (h : Reads (next p) X e) : Reads p X e := by
  intro rest hrest
  have hread := h rest (hrest.mono (le_next p))
  by_cases hchain : isChain p
  · rw [h.chain_eq hchain (hrest.mono (le_next p)), hrest.chain_eq]
  · cases p with
    | assignment =>
      have hcond : conditional (X ++ rest) = some (e, rest) := by simpa [level, next] using hread
      rw [level, assignment_eq, hcond]
      simp [hrest.assignmentOperator?_eq_none (Nat.le_refl _)]
    | conditional =>
      have hor : level .logicalOr (X ++ rest) = some (e, rest) := hread
      rw [level, conditional_eq, hor]
      simp [hrest.skip?_eq_none "?" (by decide)]
    | exponential | unary | update | construction | call | member | primary =>
      exact absurd hp (by decide)
    | _ => exact absurd rfl hchain

/-- A stretch that can be read at a level can be read at all lower ones. -/
theorem Reads.lower {p q : Precedence} (hpq : p ≤ q) (hq : q ≤ .exponential) {X : List Terminal}
    {e : Expression} (h : Reads q X e) : Reads p X e := by
  rcases Nat.eq_or_lt_of_le hpq with heq | hlt
  · exact eq_of_rank_eq heq ▸ h
  · have hp : p < .exponential := Nat.lt_of_lt_of_le hlt hq
    exact (h.lower (next_le_of_lt hlt) hq).of_next hp
termination_by q.rank - p.rank
decreasing_by exact Nat.sub_lt_sub_left hlt (lt_next hp)

/-! ### Stretches -/

/-- The stretch does not start with what closes or separates. -/
def Opens (X : List Terminal) : Prop :=
  ∀ text ∈ [")", "]", ",", "..."], ∀ rest, skip? text (X ++ rest) = none

theorem Opens.append {X : List Terminal} (h : Opens X) (Y : List Terminal) : Opens (X ++ Y) :=
  fun text ht rest => by rw [List.append_assoc, h text ht]

theorem opens_cons {t : Terminal} (h : ∀ text ∈ [")", "]", ",", "..."], t ≠ .punctuator text)
    (X : List Terminal) : Opens (t :: X) := by
  intro text htext rest
  have hne := h text htext
  cases t with
  | punctuator s =>
    have hs : s ≠ text := fun hs => hne (congrArg Terminal.punctuator hs)
    simp [skip?, hs]
  | _ => rfl

/-- What the parser makes of the stretch `X`: the expression `e`, at all levels up to `q`. -/
structure ReadsAs (q : Precedence) (X : List Terminal) (e : Expression) : Prop where
  opens : Opens X
  /-- The stretch is read where what follows ends it. -/
  reads : ∀ p ≤ q, p ≤ .update → Reads p X e
  /-- Where operators of the level follow, the stretch is their left operand. -/
  chains : ∀ p ≤ q, isChain p → ∀ rest, Ends (next p) rest →
    level p (X ++ rest) = chain p e rest
  /-- No operator stands in front. -/
  bare : .update ≤ q → ∀ rest, prefixOperator? (X ++ rest) = none
  fresh : .construction ≤ q → ∀ rest, updateOperator? (X ++ rest) = none
  /-- Members and calls that follow belong to `e`. -/
  leftHand : .construction ≤ q → ∀ rest, (q = .construction → Ends .call rest) →
    leftHandSide (X ++ rest) = tail true e rest
  /-- So do members behind `new`, where `e` may not have a call in it. -/
  asMember : .construction ≤ q → q ≠ .call → ∀ rest, (q = .construction → Ends .call rest) →
    member (X ++ rest) = tail false e rest

/-- A stretch that is read at a level of binary operators, or below. -/
theorem ReadsAs.of_reads {q : Precedence} (hq : q ≤ .exponential) {X : List Terminal}
    {e : Expression} (hopens : Opens X) (h : Reads q X e)
    (hchain : isChain q → ∀ rest, Ends (next q) rest → level q (X ++ rest) = chain q e rest) :
    ReadsAs q X e where
  opens := hopens
  reads p hp _ := h.lower hp hq
  chains p hp hc rest hrest := by
    by_cases heq : p = q
    · subst heq
      exact hchain hc rest hrest
    · have hlt : p < q := Nat.lt_of_le_of_ne hp fun h => heq (eq_of_rank_eq h)
      exact (h.lower (next_le_of_lt hlt) hq).chain_eq hc hrest
  bare hu := absurd (Nat.le_trans hu hq) (by decide)
  fresh hu := absurd (Nat.le_trans hu hq) (by decide)
  leftHand hu := absurd (Nat.le_trans hu hq) (by decide)
  asMember hu := absurd (Nat.le_trans hu hq) (by decide)

section

variable {X : List Terminal} {e : Expression}

/-- Above powers there are two more levels; all levels below follow from powers. -/
theorem reads_of_exponential {q : Precedence} (hexp : Reads .exponential X e)
    (hunary : .unary ≤ q → Reads .unary X e) (hupdate : .update ≤ q → Reads .update X e) :
    ∀ p ≤ q, p ≤ .update → Reads p X e := by
  intro p hp hp'
  rcases Nat.lt_trichotomy p.rank 14 with hlt | heq | hgt
  · exact hexp.lower (Nat.le_of_lt_succ hlt) (Nat.le_refl _)
  · obtain rfl : p = .unary := eq_of_rank_eq heq
    exact hunary hp
  · obtain rfl : p = .update := eq_of_rank_eq (Nat.le_antisymm hp' hgt)
    exact hupdate hp

theorem chains_of_exponential {q : Precedence} (hexp : Reads .exponential X e) :
    ∀ p ≤ q, isChain p → ∀ rest, Ends (next p) rest → level p (X ++ rest) = chain p e rest :=
  fun _ _ hc _ hrest =>
    (hexp.lower (next_le_exponential hc) (Nat.le_refl _)).chain_eq hc hrest

/-- An operator in front of its operand. -/
theorem ReadsAs.of_unary (hopens : Opens X) (hleads : ∀ rest, (prefixOperator? (X ++ rest)).isSome)
    (h : ∀ rest, Ends .unary rest → unary (X ++ rest) = some (e, rest)) :
    ReadsAs .unary X e := by
  have hunary : Reads .unary X e := fun rest hrest => by rw [level, h rest hrest]
  have hexp : Reads .exponential X e := by
    intro rest hrest
    obtain ⟨r, hr⟩ := Option.isSome_iff_exists.mp (hleads rest)
    rw [level, exponential_eq, hr]
    simp [h rest (hrest.mono (by decide)), hrest.skip?_eq_none "**" (by decide)]
  refine ⟨hopens,
    reads_of_exponential hexp (fun _ => hunary) (fun hu => absurd hu (by decide)),
    chains_of_exponential hexp, ?_, ?_, ?_, ?_⟩
  all_goals exact fun hu => absurd hu (by decide)

/-- A stretch without an operator in front that is read at the level of updates is read at all
levels below. -/
theorem reads_of_update {q : Precedence} (hbare : ∀ rest, prefixOperator? (X ++ rest) = none)
    (h : ∀ rest, Ends .update rest → update (X ++ rest) = some (e, rest)) :
    (∀ p ≤ q, p ≤ .update → Reads p X e) ∧
    ∀ p ≤ q, isChain p → ∀ rest, Ends (next p) rest → level p (X ++ rest) = chain p e rest := by
  have hupdate : Reads .update X e := fun rest hrest => by rw [level, h rest hrest]
  have hunary : Reads .unary X e := by
    intro rest hrest
    rw [level, unary_eq, hbare]
    exact h rest (hrest.mono (by decide))
  have hexp : Reads .exponential X e := by
    intro rest hrest
    rw [level, exponential_eq, hbare]
    simp [h rest (hrest.mono (by decide)), hrest.skip?_eq_none "**" (by decide)]
  exact ⟨reads_of_exponential hexp (fun _ => hunary) fun _ => hupdate,
    chains_of_exponential hexp⟩

/-- Counting up or down. -/
theorem ReadsAs.of_update (hopens : Opens X)
    (hbare : ∀ rest, prefixOperator? (X ++ rest) = none)
    (h : ∀ rest, Ends .update rest → update (X ++ rest) = some (e, rest)) :
    ReadsAs .update X e := by
  obtain ⟨hreads, hchains⟩ := reads_of_update hbare h
  refine ⟨hopens, hreads, hchains, fun _ => hbare, ?_, ?_, ?_⟩
  all_goals exact fun hu => absurd hu (by decide)

/-- A chain of members and calls. -/
theorem ReadsAs.of_leftHand {q : Precedence} (hopens : Opens X)
    (hbare : ∀ rest, prefixOperator? (X ++ rest) = none)
    (hfresh : ∀ rest, updateOperator? (X ++ rest) = none)
    (hleft : ∀ rest, (q = .construction → Ends .call rest) →
      leftHandSide (X ++ rest) = tail true e rest)
    (hmember : q ≠ .call → ∀ rest, (q = .construction → Ends .call rest) →
      member (X ++ rest) = tail false e rest) :
    ReadsAs q X e := by
  have hupdate : ∀ rest, Ends .update rest → update (X ++ rest) = some (e, rest) := by
    intro rest hrest
    have hcall : Ends .call rest := hrest.mono (by decide)
    rw [update_eq, hfresh]
    simp [hleft rest fun _ => hcall, hcall.tail_eq (Nat.le_refl _),
      hrest.updateOperator?_eq_none (Nat.le_refl _)]
  obtain ⟨hreads, hchains⟩ := reads_of_update hbare hupdate
  exact ⟨hopens, hreads, hchains, fun _ => hbare, fun _ => hfresh, fun _ => hleft, fun _ => hmember⟩

/-- What a chain can start with. -/
theorem ReadsAs.of_head (hopens : Opens X)
    (hbare : ∀ rest, prefixOperator? (X ++ rest) = none)
    (hfresh : ∀ rest, updateOperator? (X ++ rest) = none)
    (h : ∀ rest, head (X ++ rest) = some (e, rest)) : ReadsAs .primary X e := by
  refine .of_leftHand hopens hbare hfresh ?_ ?_
  · intro rest _
    rw [leftHandSide_eq, h]
    rfl
  · intro _ rest _
    rw [member_eq, h]
    rfl

end

/-! ### Parentheses, members, calls and `new` -/

/-- A stretch in parentheses. -/
def grouped (X : List Terminal) : List Terminal :=
  .punctuator "(" :: (X ++ [.punctuator ")"])

/-- Parentheses let an expression stand anywhere. -/
theorem ReadsAs.grouped {q : Precedence} {X : List Terminal} {e : Expression}
    (h : ReadsAs q X e) : ReadsAs .primary (grouped X) e := by
  refine .of_head ?_ (fun _ => by rfl) (fun _ => by rfl) ?_
  · exact opens_cons (by decide) _
  intro rest
  have hinner : level .sequence (X ++ .punctuator ")" :: rest)
      = some (e, .punctuator ")" :: rest) :=
    h.reads .sequence (Nat.zero_le _) (by decide) _ (by rw [ends_cons]; decide)
  rw [head_eq, Grammar.grouped]
  simp [keyword?, primary, hinner, skip?]

theorem tail_dot (calls : Bool) (e : Expression) (property : String) (rest : List Terminal) :
    tail calls e (.punctuator "." :: .word property :: rest) =
      tail calls (.staticMember (.ofCallee e) property) rest := by
  rw [tail_eq]
  simp

theorem tail_bracket (calls : Bool) (e : Expression) {q : Precedence} {X : List Terminal}
    {i : Expression} (h : ReadsAs q X i) (rest : List Terminal) :
    tail calls e (.punctuator "[" :: (X ++ .punctuator "]" :: rest)) =
      tail calls (.computedMember (.ofCallee e) i) rest := by
  have hinner : level .sequence (X ++ .punctuator "]" :: rest)
      = some (i, .punctuator "]" :: rest) :=
    h.reads .sequence (Nat.zero_le _) (by decide) _ (by rw [ends_cons]; decide)
  rw [tail_eq]
  simp [hinner, skip?]

theorem tail_arguments (e : Expression) {ts rest : List Terminal} {items : Tree (.list .argument)}
    (h : arguments ts = some (items, rest)) :
    tail true e (.punctuator "(" :: ts) = tail true (.call (.ofCallee e) items) rest := by
  rw [tail_eq]
  simp [h]

/-- Behind `new`, arguments are left to it. -/
theorem tail_false_arguments (e : Expression) (ts : List Terminal) :
    tail false e (.punctuator "(" :: ts) = some (e, .punctuator "(" :: ts) := by
  rw [tail_eq]
  simp

section

variable {q : Precedence} {X Y : List Terminal} {e e' : Expression}

/-- A member access behind its object. -/
theorem ReadsAs.extend (hq : .call ≤ q) (h : ReadsAs q X e)
    (hY : ∀ calls rest, tail calls e (Y ++ rest) = tail calls e' rest) :
    ReadsAs (.ofMember q) (X ++ Y) e' := by
  have hq' : .construction ≤ q := Nat.le_trans (by decide) hq
  have hne : q = .construction → False := by rintro rfl; exact absurd hq (by decide)
  refine .of_leftHand (h.opens.append Y) ?_ ?_ ?_ ?_
  · intro rest
    rw [List.append_assoc, h.bare (Nat.le_trans (by decide) hq)]
  · intro rest
    rw [List.append_assoc, h.fresh hq']
  · intro rest _
    rw [List.append_assoc, h.leftHand hq' _ fun he => (hne he).elim, hY]
  · intro hcall rest _
    have hne' : q ≠ .call := by rintro rfl; exact hcall rfl
    rw [List.append_assoc, h.asMember hq' hne' _ fun he => (hne he).elim, hY]

/-- A call behind its callee. -/
theorem ReadsAs.call (hq : .call ≤ q) (h : ReadsAs q X e)
    (hY : ∀ rest, tail true e (Y ++ rest) = tail true e' rest) : ReadsAs .call (X ++ Y) e' := by
  have hq' : .construction ≤ q := Nat.le_trans (by decide) hq
  have hne : q = .construction → False := by rintro rfl; exact absurd hq (by decide)
  refine .of_leftHand (h.opens.append Y) ?_ ?_ ?_ fun hc => absurd rfl hc
  · intro rest
    rw [List.append_assoc, h.bare (Nat.le_trans (by decide) hq)]
  · intro rest
    rw [List.append_assoc, h.fresh hq']
  · intro rest _
    rw [List.append_assoc, h.leftHand hq' _ fun he => (hne he).elim, hY]

/-- A `new` with arguments. -/
theorem ReadsAs.construct (hq : .member ≤ q) (h : ReadsAs q X e) {A : List Terminal}
    {items : Tree (.list .argument)} (hA : ∀ rest, arguments (A ++ rest) = some (items, rest)) :
    ReadsAs .primary (.word "new" :: (X ++ .punctuator "(" :: A)) (.construct e items) := by
  have hne : q = .construction → False := by rintro rfl; exact absurd hq (by decide)
  have hne' : q ≠ .call := by rintro rfl; exact absurd hq (by decide)
  refine .of_head ?_ (fun _ => by rfl) (fun _ => by rfl) ?_
  · exact opens_cons (by decide) _
  intro rest
  have hcallee : member (X ++ .punctuator "(" :: (A ++ rest))
      = some (e, .punctuator "(" :: (A ++ rest)) := by
    rw [h.asMember (Nat.le_trans (by decide) hq) hne' _ fun he => (hne he).elim,
      tail_false_arguments]
  rw [head_eq]
  simp [keyword?, hcallee, skip?, hA]

/-- A `new` without arguments. -/
theorem ReadsAs.constructBare (hq : .construction ≤ q) (hne : q ≠ .call) (h : ReadsAs q X e) :
    ReadsAs .construction (.word "new" :: X) (.construct e .nil) := by
  have hhead : ∀ rest, Ends .call rest →
      head (.word "new" :: (X ++ rest)) = some (.construct e .nil, rest) := by
    intro rest hrest
    have hcallee : member (X ++ rest) = some (e, rest) := by
      rw [h.asMember hq hne rest fun _ => hrest, hrest.tail_eq (Nat.le_refl _)]
    rw [head_eq]
    simp [keyword?, hcallee, hrest.skip?_eq_none "(" (by decide)]
  refine .of_leftHand ?_ (fun _ => by rfl) (fun _ => by rfl) ?_ ?_
  · exact opens_cons (by decide) _
  · intro rest hrest
    rw [List.cons_append, leftHandSide_eq, hhead rest (hrest rfl)]
    rfl
  · intro _ rest hrest
    rw [List.cons_append, member_eq, hhead rest (hrest rfl)]
    rfl

end

/-! ### Operators -/

section

variable {q q' : Precedence} {X Y : List Terminal} {e e' : Expression}

theorem ReadsAs.prefixed (hq : .unary ≤ q) (h : ReadsAs q X e) {t : Terminal}
    {op? : Option UnaryOperator} (ht : ∀ ts, prefixOperator? (t :: ts) = some (op?, ts))
    (hopens : Opens (t :: X)) : ReadsAs .unary (t :: X) (prefixed op? e) := by
  refine .of_unary hopens (fun rest => by rw [List.cons_append, ht]; rfl) ?_
  intro rest hrest
  have hoperand : unary (X ++ rest) = some (e, rest) := by
    simpa [level] using h.reads .unary hq (by decide) rest hrest
  rw [List.cons_append, unary_eq, ht]
  simp [hoperand]

theorem updateOperator?_cons (op : UpdateOperator) (ts : List Terminal) :
    updateOperator? (.ofText op.text :: ts) = some (op, ts) :=
  row?_cons_eq (lookup_updateOperators op) ts

theorem binaryOperator?_cons (op : BinaryOperator) (ts : List Terminal) :
    binaryOperator? op.precedence (.ofText op.text :: ts) = some (op, ts) :=
  row?_cons_eq (lookup_binaryOperators op) ts

theorem ReadsAs.updateBefore (hq : .construction ≤ q) (h : ReadsAs q X e) (op : UpdateOperator)
    {target : Tree .simpleTarget} (htarget : toTarget? e = some target) :
    ReadsAs .update (.ofText op.text :: X) (.update true op target) := by
  refine .of_update (opens_cons (by cases op <;> decide) X) ?_ ?_
  · intro rest
    cases op <;> rfl
  intro rest hrest
  have hoperand : unary (X ++ rest) = some (e, rest) := by
    have hq' : .update ≤ q := Nat.le_trans (by decide) hq
    rw [unary_eq, h.bare hq']
    simpa [level] using h.reads .update hq' (Nat.le_refl _) rest hrest
  rw [List.cons_append, update_eq, updateOperator?_cons]
  simp [hoperand, htarget]

theorem ReadsAs.updateAfter (hq : .construction ≤ q) (h : ReadsAs q X e) (op : UpdateOperator)
    {target : Tree .simpleTarget} (htarget : toTarget? e = some target) :
    ReadsAs .update (X ++ [.ofText op.text]) (.update false op target) := by
  refine .of_update (h.opens.append _) ?_ ?_
  · intro rest
    rw [List.append_assoc, h.bare (Nat.le_trans (by decide) hq)]
  intro rest hrest
  have hends : Ends .call (.ofText op.text :: rest) := by
    rw [ends_cons, strength_update]
    decide
  have hoperand : leftHandSide (X ++ .ofText op.text :: rest)
      = some (e, .ofText op.text :: rest) := by
    rw [h.leftHand hq _ fun _ => hends, hends.tail_eq (Nat.le_refl _)]
  have hfresh := h.fresh hq (.ofText op.text :: rest)
  rw [List.append_assoc, List.singleton_append, update_eq, hfresh]
  simp [hoperand, updateOperator?_cons, htarget]

/-- A power.  Its left operand has no operator in front. -/
theorem ReadsAs.power (hq : .update ≤ q) (h : ReadsAs q X e) (hq' : .exponential ≤ q')
    (h' : ReadsAs q' Y e') :
    ReadsAs .exponential (X ++ .punctuator "**" :: Y) (.binary e .power e') := by
  refine .of_reads (Nat.le_refl _) (h.opens.append _) ?_ fun hc => Bool.noConfusion hc
  intro rest hrest
  have hleft : update (X ++ .punctuator "**" :: (Y ++ rest))
      = some (e, .punctuator "**" :: (Y ++ rest)) := by
    simpa [level] using
      h.reads .update hq (Nat.le_refl _) (.punctuator "**" :: (Y ++ rest))
        (by rw [ends_cons]; decide)
  have hright : exponential (Y ++ rest) = some (e', rest) := by
    simpa [level] using h'.reads .exponential hq' (by decide) rest hrest
  have hbare := h.bare hq (.punctuator "**" :: (Y ++ rest))
  rw [List.append_assoc, List.cons_append, level, exponential_eq, hbare]
  simp [hleft, skip?, hright]

/-- A left-associative operator.  Its right operand is of a higher level. -/
theorem ReadsAs.binary (op : BinaryOperator) (hop : isChain op.precedence)
    (hq : op.precedence ≤ q) (h : ReadsAs q X e) (hq' : op.precedence < q')
    (h' : ReadsAs q' Y e') :
    ReadsAs op.precedence (X ++ .ofText op.text :: Y) (.binary e op e') := by
  have hnext : next op.precedence ≤ .exponential := next_le_exponential hop
  -- the left operand starts the chain, and the operator adds its right operand
  have hchain : ∀ rest, Ends (next op.precedence) rest →
      level op.precedence (X ++ (.ofText op.text :: (Y ++ rest)))
        = chain op.precedence (.binary e op e') rest := by
    intro rest hrest
    have hends : Ends (next op.precedence) (.ofText op.text :: (Y ++ rest)) := by
      have hrank := rank_next hop
      simp only [ends_cons, strength_binary]
      omega
    have hright : level (next op.precedence) (Y ++ rest) = some (e', rest) :=
      h'.reads _ (next_le_of_lt hq') (Nat.le_trans hnext (by decide)) rest hrest
    rw [h.chains _ hq hop _ hends, chain_eq, binaryOperator?_cons]
    simp [hright]
  refine .of_reads (Nat.le_trans (le_next _) hnext) (h.opens.append _) ?_ ?_
  · intro rest hrest
    rw [List.append_assoc, List.cons_append, hchain rest (hrest.mono (le_next _)),
      hrest.chain_eq]
  · intro _ rest hrest
    rw [List.append_assoc, List.cons_append, hchain rest hrest]

theorem ReadsAs.conditional {q'' : Precedence} {Z : List Terminal} {e'' : Expression}
    (hq : .logicalOr ≤ q) (h : ReadsAs q X e) (hq' : .assignment ≤ q') (h' : ReadsAs q' Y e')
    (hq'' : .assignment ≤ q'') (h'' : ReadsAs q'' Z e'') :
    ReadsAs .conditional (X ++ .punctuator "?" :: (Y ++ .punctuator ":" :: Z))
      (.conditional e e' e'') := by
  refine .of_reads (by decide) (h.opens.append _) ?_ fun hc => Bool.noConfusion hc
  intro rest hrest
  have htest := h.reads .logicalOr hq (by decide)
    (.punctuator "?" :: (Y ++ .punctuator ":" :: (Z ++ rest))) (by rw [ends_cons]; decide)
  have hconsequent : assignment (Y ++ .punctuator ":" :: (Z ++ rest))
      = some (e', .punctuator ":" :: (Z ++ rest)) := by
    simpa [level] using h'.reads .assignment hq' (by decide)
      (.punctuator ":" :: (Z ++ rest)) (by rw [ends_cons]; decide)
  have halternate : assignment (Z ++ rest) = some (e'', rest) := by
    simpa [level] using h''.reads .assignment hq'' (by decide) rest
      hrest.assignment_of_conditional
  rw [level, Grammar.conditional_eq]
  simp [htest, skip?, hconsequent, halternate]

theorem ReadsAs.assigned (hq : .construction ≤ q) (h : ReadsAs q X e)
    {target : Tree .simpleTarget} (htarget : toTarget? e = some target)
    {op? : Option AssignmentOperator} {t : Terminal}
    (ht : ∀ ts, assignmentOperator? (t :: ts) = some (op?, ts)) (hstrength : strength t = 3)
    (hq' : .assignment ≤ q') (h' : ReadsAs q' Y e') :
    ReadsAs .assignment (X ++ t :: Y) (assigned op? target e') := by
  refine .of_reads (by decide) (h.opens.append _) ?_ fun hc => Bool.noConfusion hc
  intro rest hrest
  have hleft : level .logicalOr (X ++ t :: (Y ++ rest)) = some (e, t :: (Y ++ rest)) :=
    h.reads .logicalOr (Nat.le_trans (by decide) hq) (by decide)
      (t :: (Y ++ rest)) (by rw [ends_cons, hstrength]; decide)
  have hquestion : skip? "?" (t :: (Y ++ rest)) = none := by
    cases t with
    | punctuator s =>
      have hne : s ≠ "?" := by
        rintro rfl
        have hnone : assignmentOperator? [.punctuator "?"] = none := by decide
        cases hnone.symm.trans (ht [])
      simp [skip?, hne]
    | _ => rfl
  have hright : assignment (Y ++ rest) = some (e', rest) := by
    simpa [level] using h'.reads .assignment hq' (by decide) rest hrest
  rw [level, List.append_assoc, List.cons_append, assignment_eq, Grammar.conditional_eq]
  simp [hleft, hquestion, ht, htarget, hright]

end

/-! ### Arguments and elements -/

/-- What the parser makes of the stretch `X` as an argument or element. -/
structure ReadsArgument (X : List Terminal) (a : Tree .argument) : Prop where
  opens : ∀ text ∈ [")", "]", ","], ∀ rest, skip? text (X ++ rest) = none
  reads : ∀ rest, Ends .assignment rest → argument (X ++ rest) = some (a, rest)

section

variable {q : Precedence} {X : List Terminal} {e : Expression}

theorem ReadsAs.ofArgument (hq : .assignment ≤ q) (h : ReadsAs q X e) :
    ReadsArgument X (.ofArgument e) where
  opens text ht := h.opens text (by simp at ht ⊢; rcases ht with rfl | rfl | rfl <;> simp)
  reads rest hrest := by
    have hvalue : assignment (X ++ rest) = some (e, rest) := by
      simpa [level] using h.reads .assignment hq (by decide) rest hrest
    rw [argument_eq, h.opens "..." (by simp)]
    simp [hvalue]

theorem ReadsAs.spread (hq : .assignment ≤ q) (h : ReadsAs q X e) :
    ReadsArgument (.punctuator "..." :: X) (.spread e) where
  opens text ht rest := by
    simp at ht
    rcases ht with rfl | rfl | rfl <;> rfl
  reads rest hrest := by
    have hvalue : assignment (X ++ rest) = some (e, rest) := by
      simpa [level] using h.reads .assignment hq (by decide) rest hrest
    rw [List.cons_append, argument_eq]
    simp [skip?, hvalue]

end

section

variable {X : List Terminal} {a : Tree .argument} {ts rest : List Terminal}

theorem arguments_nil (rest : List Terminal) :
    arguments (.punctuator ")" :: rest) = some (.nil, rest) := by
  rw [arguments_eq]
  simp [skip?]

theorem ReadsArgument.arguments_last (h : ReadsArgument X a) (rest : List Terminal) :
    arguments (X ++ .punctuator ")" :: rest) = some (.cons a .nil, rest) := by
  have hread := h.reads (.punctuator ")" :: rest) (by rw [ends_cons]; decide)
  rw [arguments_eq, h.opens ")" (by simp)]
  simp [hread, skip?]

theorem ReadsArgument.arguments_cons (h : ReadsArgument X a) {items : Tree (.list .argument)}
    (hts : arguments ts = some (items, rest)) :
    arguments (X ++ .punctuator "," :: ts) = some (.cons a items, rest) := by
  have hread := h.reads (.punctuator "," :: ts) (by rw [ends_cons]; decide)
  rw [arguments_eq, h.opens ")" (by simp)]
  simp [hread, skip?, hts]

theorem elements_nil (rest : List Terminal) :
    elements (.punctuator "]" :: rest) = some (.nil, rest) := by
  rw [elements_eq]
  simp [skip?]

theorem elements_hole {es : Tree (.list (.option .argument))}
    (hts : elements ts = some (es, rest)) :
    elements (.punctuator "," :: ts) = some (.cons .absent es, rest) := by
  rw [elements_eq]
  simp [skip?, hts]

theorem ReadsArgument.elements_last (h : ReadsArgument X a) (rest : List Terminal) :
    elements (X ++ .punctuator "]" :: rest) = some (.cons (.present a) .nil, rest) := by
  have hread := h.reads (.punctuator "]" :: rest) (by rw [ends_cons]; decide)
  rw [elements_eq, h.opens "]" (by simp), h.opens "," (by simp)]
  simp [hread, skip?]

theorem ReadsArgument.elements_cons (h : ReadsArgument X a)
    {es : Tree (.list (.option .argument))} (hts : elements ts = some (es, rest)) :
    elements (X ++ .punctuator "," :: ts) = some (.cons (.present a) es, rest) := by
  have hread := h.reads (.punctuator "," :: ts) (by rw [ends_cons]; decide)
  rw [elements_eq, h.opens "]" (by simp), h.opens "," (by simp)]
  simp [hread, skip?, hts]

/-- An array. -/
theorem ReadsAs.array {es : Tree (.list (.option .argument))}
    (h : ∀ rest, elements (X ++ rest) = some (es, rest)) :
    ReadsAs .primary (.punctuator "[" :: X) (.array es) := by
  refine .of_head ?_ (fun _ => by rfl) (fun _ => by rfl) ?_
  · exact opens_cons (by decide) _
  intro rest
  rw [List.cons_append, head_eq]
  simp [keyword?, primary, h]

end

/-! ### Words and literals -/

section

variable {t : Terminal} {e : Expression}

/-- A single terminal that stands for an expression. -/
theorem ReadsAs.of_terminal (hleads : prefixOperator? [t] = none)
    (hupdate : updateOperator? [t] = none) (hopens : Opens [t])
    (h : ∀ rest, head (t :: rest) = some (e, rest)) : ReadsAs .primary [t] e := by
  refine .of_head hopens (fun rest => ?_) (fun rest => ?_) h
  · simpa [prefixOperator?, row?] using hleads
  · simpa [updateOperator?, row?] using hupdate

/-- Operators are punctuators and reserved words. -/
def canOperate : Terminal → Bool
  | .word name => reservedWords.contains name
  | .punctuator _ => true
  | _ => false

/-- A terminal that is no operator and stands for an expression. -/
theorem ReadsAs.of_primary (ht : canOperate t = false)
    (h : ∀ rest, primary (t :: rest) = some (e, rest)) : ReadsAs .primary [t] e := by
  have hword : ∀ {name : String}, reservedWords.contains name → t ≠ .word name := by
    rintro name hname rfl
    rw [canOperate, hname] at ht
    cases ht
  refine .of_terminal ?_ ?_ ?_ ?_
  · exact row?_cons_eq_none (P := (canOperate ·)) (by decide) (by simp [ht]) []
  · exact row?_cons_eq_none (P := (canOperate ·)) (by decide) (by simp [ht]) []
  · intro text _ rest
    cases t with
    | punctuator s => cases ht
    | _ => rfl
  · intro rest
    have hnew : keyword? "new" (t :: rest) = none := by
      cases t with
      | word name =>
        have hne : name ≠ "new" := fun hn => hword (by decide) (congrArg Terminal.word hn)
        simp [keyword?, hne]
      | _ => rfl
    rw [head_eq, hnew]
    exact h rest

theorem ReadsAs.number (v : Number.Double) : ReadsAs .primary [.number v] (.number v) :=
  .of_primary rfl fun rest => by rw [primary]

theorem ReadsAs.string (value : String) :
    ReadsAs .primary [.string (Text.textUnits value.toList)] (.string value) :=
  .of_primary rfl fun rest => by
    rw [primary, Text.ofUnits?_textUnits]
    simp

theorem ReadsAs.identifier {name : String} (h : isIdentifier name) :
    ReadsAs .primary [.word name] (.ofIdentifier (.identifier name)) := by
  have hfree : reservedWords.contains name = false := by
    simp only [isIdentifier, Bool.and_eq_true] at h
    simpa using h.2
  refine .of_primary hfree fun rest => ?_
  have hword : wordExpression? name = some (.ofIdentifier (.identifier name)) := by
    have hne : ∀ {n : String}, reservedWords.contains n → name ≠ n := by
      rintro n hn rfl
      rw [hfree] at hn
      cases hn
    have hthis : name ≠ "this" := hne (by decide)
    have hnull : name ≠ "null" := hne (by decide)
    have htrue : name ≠ "true" := hne (by decide)
    have hfalse : name ≠ "false" := hne (by decide)
    rw [wordExpression?, if_neg hthis, if_neg hnull, if_neg htrue, if_neg hfalse, hfree]
    rfl
  rw [primary, hword]
  rfl

/-- A reserved word that is an expression. -/
theorem ReadsAs.keyword {name : String} (hleads : prefixOperator? [.word name] = none)
    (hupdate : updateOperator? [.word name] = none) (hnew : name ≠ "new")
    (h : wordExpression? name = some e) : ReadsAs .primary [.word name] e := by
  refine .of_terminal hleads hupdate (fun _ _ _ => rfl) ?_
  intro rest
  rw [head_eq]
  simp [keyword?, hnew, primary, h]

end

end EcmaPrinter.Grammar
