import EcmaPrinter.Text.WebSafe

/-!
Cooked text: what the characters of a string literal or a template stand for.

The value of a literal is a list of UTF-16 units.  A reader goes through the characters one by
one and only keeps in mind where it stands: between characters, behind a backslash, in the middle
of a hexadecimal escape, and so on (`Place`).  A text is legal if no step fails and the reader
does not end in the middle of an escape; its units are then its cooked value (`cooked?`).

Reading is compositional (`cook_append`), so what a literal stands for can be computed escape by
escape.  The first result of this kind is that a quoted text stands for the text
(`literalUnits?_quoteChars`).
-/

namespace EcmaPrinter.Text

/-- What holds of the members of a list, checked one by one.  A statement about all members is
decided by going through all characters there are, so it is given as a Boolean. -/
theorem forall_mem_of_all {α : Type} {P : α → Prop} [DecidablePred P] {l : List α}
    (h : l.all fun a => decide (P a)) : ∀ a ∈ l, P a := by
  simpa using h

/-! ### UTF-16 units -/

/-- The units of a code point. -/
def codeUnits (n : Nat) : List Nat :=
  if n < 0x10000 then [n]
  else [0xD800 + (n - 0x10000) / 0x400, 0xDC00 + (n - 0x10000) % 0x400]

theorem utf16Units_eq (c : Char) : utf16Units c = codeUnits c.toNat := rfl

/-- The units of a text. -/
def textUnits (text : List Char) : List Nat :=
  text.flatMap utf16Units

/-- The characters with the given units, if every surrogate stands in a pair. -/
def ofUnits? : List Nat → Option (List Char)
  | [] => some []
  | [u] => if 0xD800 ≤ u ∧ u < 0xE000 then none else some [Char.ofNat u]
  | u :: v :: rest =>
    if 0xD800 ≤ u ∧ u < 0xDC00 then
      if 0xDC00 ≤ v ∧ v < 0xE000 then
        (ofUnits? rest).map
          (Char.ofNat (0x10000 + (u - 0xD800) * 0x400 + (v - 0xDC00)) :: ·)
      else none
    else if 0xDC00 ≤ u ∧ u < 0xE000 then none
    else (ofUnits? (v :: rest)).map (Char.ofNat u :: ·)

/-- No character is a surrogate, and none lies beyond the last plane. -/
theorem toNat_valid (c : Char) : c.toNat < 0xD800 ∨ 0xE000 ≤ c.toNat ∧ c.toNat < 0x110000 := by
  have h : c.toNat.isValidChar := c.valid
  unfold Nat.isValidChar at h
  omega

theorem ofUnits?_utf16Units_append (c : Char) (us : List Nat) :
    ofUnits? (utf16Units c ++ us) = (ofUnits? us).map (c :: ·) := by
  have hv := toNat_valid c
  rw [utf16Units_eq]
  unfold codeUnits
  split
  · next h =>
    have h₁ : ¬(0xD800 ≤ c.toNat ∧ c.toNat < 0xE000) := by omega
    have h₂ : ¬(0xD800 ≤ c.toNat ∧ c.toNat < 0xDC00) := by omega
    have h₃ : ¬(0xDC00 ≤ c.toNat ∧ c.toNat < 0xE000) := by omega
    cases us with
    | nil => simp [ofUnits?, h₁]
    | cons v us => simp [ofUnits?, h₂, h₃]
  · next h =>
    -- a pair: its two halves give the offset back
    have hhigh : 0xD800 ≤ 0xD800 + (c.toNat - 0x10000) / 0x400 ∧
        0xD800 + (c.toNat - 0x10000) / 0x400 < 0xDC00 := by omega
    have hlow : 0xDC00 ≤ 0xDC00 + (c.toNat - 0x10000) % 0x400 ∧
        0xDC00 + (c.toNat - 0x10000) % 0x400 < 0xE000 := by omega
    have hsum : 0x10000 + (0xD800 + (c.toNat - 0x10000) / 0x400 - 0xD800) * 0x400 +
        (0xDC00 + (c.toNat - 0x10000) % 0x400 - 0xDC00) = c.toNat := by omega
    rw [List.cons_append, List.cons_append, List.nil_append, ofUnits?, if_pos hhigh, if_pos hlow,
      hsum, Char.ofNat_toNat]

/-- A text is given back by its units. -/
theorem ofUnits?_textUnits (text : List Char) : ofUnits? (textUnits text) = some text := by
  induction text with
  | nil => rfl
  | cons c text ih =>
    show ofUnits? (utf16Units c ++ textUnits text) = _
    rw [ofUnits?_utf16Units_append, ih]
    rfl

/-! ### Reading escapes -/

/-- The two kinds of text that can hold escapes. -/
inductive Literal where
  /-- A string between two copies of a quotation mark. -/
  | string (mark : Char)
  | template
  deriving DecidableEq, Repr

/-- Where a reader stands inside a literal. -/
inductive Place where
  /-- Between two characters. -/
  | plain
  /-- Behind a backslash. -/
  | escape
  /-- Behind `\0`, which no digit may follow. -/
  | zero
  /-- Behind a `$` of a template, which no brace may follow. -/
  | dollar
  /-- Behind a carriage return, to which a line feed would belong. -/
  | carriage
  /-- In an escape that has `missing + 1` more digits. -/
  | hex (missing value : Nat)
  /-- Behind `\u`. -/
  | unit
  /-- In an escape with braces, which has no digits yet or this value. -/
  | braced (value? : Option Nat)
  deriving DecidableEq, Repr

/-- The places where a literal can end. -/
def Place.isRest : Place → Bool
  | .plain | .zero | .dollar | .carriage => true
  | _ => false

/-- Does the character end a line? -/
def isLineEnd (c : Char) : Bool :=
  c == '\n' || c == '\r' || isSeparatorLine c

/-- A character that is not part of an escape. -/
def plainStep (l : Literal) (c : Char) : Option (Place × List Nat) :=
  if c == backslash then some (.escape, [])
  else match l with
    | .string mark =>
      if c == mark || isLineEnd c then none else some (.plain, utf16Units c)
    | .template =>
      if c == '\x60' then none
      else if c == '$' then some (.dollar, [36])
      else if c == '\r' then some (.carriage, [10])
      else some (.plain, utf16Units c)

/-- What the letter of an escape without digits stands for. -/
def letterUnits (c : Char) : List Nat :=
  if c == 'b' then [8]
  else if c == 't' then [9]
  else if c == 'n' then [10]
  else if c == 'v' then [11]
  else if c == 'f' then [12]
  else if c == 'r' then [13]
  else utf16Units c

/-- The character behind a backslash.  A line end there is left out of the value. -/
def escapeStep (c : Char) : Option (Place × List Nat) :=
  if c == '\r' then some (.carriage, [])
  else if isLineEnd c then some (.plain, [])
  else if c == '0' then some (.zero, [0])
  else if c.isDigit then none
  else if c == 'x' then some (.hex 1 0, [])
  else if c == 'u' then some (.unit, [])
  else some (.plain, letterUnits c)

/-- A digit of an escape with a fixed number of digits. -/
def hexStep (missing value : Nat) (c : Char) : Option (Place × List Nat) :=
  (hexValue? c).map fun d =>
    match missing with
    | 0 => (.plain, [16 * value + d])
    | n + 1 => (.hex n (16 * value + d), [])

/-- A digit or the closing brace of an escape with braces. -/
def bracedStep (value? : Option Nat) (c : Char) : Option (Place × List Nat) :=
  if c == '}' then value?.map fun v => (.plain, codeUnits v)
  else match hexValue? c with
    | some d =>
      let v := 16 * value?.getD 0 + d
      if v < 0x110000 then some (.braced (some v), []) else none
    | none => none

/-- Read one character: the place behind it, and the units that are complete with it. -/
def step (l : Literal) : Place → Char → Option (Place × List Nat)
  | .plain, c => plainStep l c
  | .escape, c => escapeStep c
  | .zero, c => if c.isDigit then none else plainStep l c
  | .dollar, c => if c == '{' then none else plainStep l c
  | .carriage, c => if c == '\n' then some (.plain, []) else plainStep l c
  | .hex missing value, c => hexStep missing value c
  | .unit, c => if c == '{' then some (.braced none, []) else hexStep 3 0 c
  | .braced value?, c => bracedStep value? c

/-- A result with further units in front. -/
def withUnits (us : List Nat) (result : Option (Place × List Nat)) : Option (Place × List Nat) :=
  result.map fun r => (r.1, us ++ r.2)

/-- Read a text from a place on. -/
def cook (l : Literal) : Place → List Char → Option (Place × List Nat)
  | place, [] => some (place, [])
  | place, c :: text =>
    match step l place c with
    | some (next, us) => withUnits us (cook l next text)
    | none => none

/-- The cooked value of a legal text. -/
def cooked? (l : Literal) (text : List Char) : Option (List Nat) :=
  match cook l .plain text with
  | some (place, us) => if place.isRest then some us else none
  | none => none

/-- Is the character a quotation mark? -/
def isQuote (c : Char) : Bool :=
  c == singleQuote || c == doubleQuote

/-- The value of a string literal with its quotation marks. -/
def literalUnits? : List Char → Option (List Nat)
  | [] => none
  | mark :: rest =>
    if isQuote mark && rest.getLast? == some mark then cooked? (.string mark) rest.dropLast
    else none

/-! ### Reading in parts -/

@[simp] theorem withUnits_some (us vs : List Nat) (place : Place) :
    withUnits us (some (place, vs)) = some (place, us ++ vs) := rfl

@[simp] theorem withUnits_none (us : List Nat) : withUnits us none = none := rfl

@[simp] theorem withUnits_nil (r : Option (Place × List Nat)) : withUnits [] r = r := by
  rcases r with - | r <;> rfl

@[simp] theorem withUnits_withUnits (us vs : List Nat) (r : Option (Place × List Nat)) :
    withUnits us (withUnits vs r) = withUnits (us ++ vs) r := by
  rcases r with - | r
  · rfl
  · simp [withUnits]

@[simp] theorem cook_nil (l : Literal) (place : Place) : cook l place [] = some (place, []) := rfl

theorem cook_cons {l : Literal} {place next : Place} {c : Char} {us : List Nat}
    (h : step l place c = some (next, us)) (text : List Char) :
    cook l place (c :: text) = withUnits us (cook l next text) := by
  rw [cook, h]

/-- The first step of a reading that succeeds. -/
theorem cook_cons_eq_some {l : Literal} {place final : Place} {c : Char} {text : List Char}
    {us : List Nat} (h : cook l place (c :: text) = some (final, us)) :
    ∃ next vs ws, step l place c = some (next, vs) ∧ cook l next text = some (final, ws) ∧
      us = vs ++ ws := by
  rcases hstep : step l place c with - | ⟨next, vs⟩
  · rw [cook, hstep] at h
    cases h
  · rw [cook_cons hstep] at h
    rcases hcook : cook l next text with - | ⟨final', ws⟩
    · rw [hcook] at h
      cases h
    · rw [hcook, withUnits_some] at h
      obtain ⟨rfl, rfl⟩ : final' = final ∧ vs ++ ws = us := by simpa using h
      exact ⟨next, vs, ws, rfl, hcook, rfl⟩

/-- Reading a text in two parts: the second one is read from where the first one ended. -/
theorem cook_append {l : Literal} {place next : Place} {text : List Char} {us : List Nat}
    (h : cook l place text = some (next, us)) (more : List Char) :
    cook l place (text ++ more) = withUnits us (cook l next more) := by
  induction text generalizing place us with
  | nil =>
    obtain ⟨rfl, rfl⟩ : place = next ∧ [] = us := by simpa using h
    rw [List.nil_append, withUnits_nil]
  | cons c text ih =>
    obtain ⟨place', vs, ws, hstep, hcook, rfl⟩ := cook_cons_eq_some h
    rw [List.cons_append, cook_cons hstep, ih hcook, withUnits_withUnits]

/-- A text each of whose characters is spelled by something that stands for it. -/
theorem cook_flatMap {l : Literal} {spelling : Char → List Char} (text : List Char)
    (h : ∀ c ∈ text, cook l .plain (spelling c) = some (.plain, utf16Units c)) :
    cook l .plain (text.flatMap spelling) = some (.plain, textUnits text) := by
  induction text with
  | nil => rfl
  | cons c text ih =>
    have hc := h c List.mem_cons_self
    have ht := ih fun d hd => h d (List.mem_cons_of_mem c hd)
    rw [List.flatMap_cons, cook_append hc, ht]
    rfl

/-! ### Where escapes start -/

section Places

variable {l : Literal} {place next : Place} {c : Char} {us : List Nat}

theorem plainStep_ne_escape (hc : c ≠ backslash) (hstep : plainStep l c = some (next, us)) :
    next ≠ .escape := by
  simp only [plainStep, beq_iff_eq, hc, if_false] at hstep
  cases l with
  | string mark =>
    simp only at hstep
    split at hstep
    · cases hstep
    · cases hstep
      decide
  | template =>
    simp only at hstep
    repeat' split at hstep
    all_goals cases hstep
    all_goals decide

theorem escapeStep_ne_escape (hstep : escapeStep c = some (next, us)) : next ≠ .escape := by
  unfold escapeStep at hstep
  repeat' split at hstep
  all_goals cases hstep
  all_goals decide

theorem hexStep_ne_escape {missing value : Nat}
    (hstep : hexStep missing value c = some (next, us)) :
    next ≠ .escape := by
  obtain ⟨d, -, heq⟩ := Option.map_eq_some_iff.mp hstep
  cases missing <;> cases heq <;> simp

theorem bracedStep_ne_escape {value? : Option Nat} (hstep : bracedStep value? c = some (next, us)) :
    next ≠ .escape := by
  unfold bracedStep at hstep
  split at hstep
  · obtain ⟨v, -, heq⟩ := Option.map_eq_some_iff.mp hstep
    cases heq
    decide
  · split at hstep
    · simp only at hstep
      split at hstep
      · cases hstep
        simp
      · cases hstep
    · cases hstep

/-- Nothing but a backslash opens an escape. -/
theorem next_ne_escape (hstep : step l place c = some (next, us))
    (h : c ≠ backslash ∨ place = .escape) : next ≠ .escape := by
  cases place with
  | escape => exact escapeStep_ne_escape hstep
  | plain => exact plainStep_ne_escape (h.resolve_right (by simp)) hstep
  | zero | dollar =>
    simp only [step] at hstep
    split at hstep
    · cases hstep
    · exact plainStep_ne_escape (h.resolve_right (by simp)) hstep
  | carriage =>
    simp only [step] at hstep
    split at hstep
    · cases hstep
      decide
    · exact plainStep_ne_escape (h.resolve_right (by simp)) hstep
  | hex missing value => exact hexStep_ne_escape hstep
  | unit =>
    simp only [step] at hstep
    split at hstep
    · cases hstep
      decide
    · exact hexStep_ne_escape hstep
  | braced value? => exact bracedStep_ne_escape hstep

end Places

/-- Where a literal can end, a backslash opens an escape. -/
theorem step_backslash_of_isRest {place : Place} (h : place.isRest) (l : Literal) :
    step l place backslash = some (.escape, []) := by
  cases place with
  | plain | zero | dollar | carriage => rfl
  | escape | hex | unit | braced => cases h

/-- Outside of escapes a backslash opens one. -/
theorem step_backslash {l : Literal} {place : Place} {r : Place × List Nat}
    (hstep : step l place backslash = some r) (hplace : place ≠ .escape) :
    place.isRest ∧ r = (.escape, []) := by
  cases place with
  | escape => exact absurd rfl hplace
  | plain | zero | dollar | carriage =>
    cases hstep
    exact ⟨rfl, rfl⟩
  | hex | unit | braced => cases hstep

/-! ### Quoted text -/

theorem isQuote_iff {c : Char} : isQuote c ↔ c = singleQuote ∨ c = doubleQuote := by
  simp [isQuote]

/-- A character that needs no escape stands for itself. -/
theorem plainStep_string {mark c : Char} (hc : c ≠ backslash) (hmark : c ≠ mark)
    (hline : isLineEnd c = false) :
    plainStep (.string mark) c = some (.plain, utf16Units c) := by
  simp [plainStep, hc, hmark, hline]

/-- The characters other than the delimiter that are escaped. -/
def escapedChars : List Char :=
  ['\x08', '\t', '\n', '\x0b', '\x0c', '\r', backslash, '\u2028', '\u2029']

theorem escapeChar_eq_self {mark c : Char} (h : c ∉ mark :: escapedChars) :
    escapeChar mark c = [c] := by
  simp_all [escapeChar, escapedChars]

/-- Each character of a quoted text is spelled by something that stands for it. -/
theorem cook_escapeChar {mark : Char} (hmark : isQuote mark) (c : Char) :
    cook (.string mark) .plain (escapeChar mark c) = some (.plain, utf16Units c) := by
  by_cases hescaped : c ∈ mark :: escapedChars
  · revert c
    rcases isQuote_iff.mp hmark with rfl | rfl
    · exact forall_mem_of_all (by decide)
    · exact forall_mem_of_all (by decide)
  · have hline : isLineEnd c = false := by
      simp_all [escapedChars, isLineEnd, isSeparatorLine]
    have hstep : step (.string mark) .plain c = some (.plain, utf16Units c) := by
      refine plainStep_string ?_ ?_ hline
      · rintro rfl
        exact hescaped (by simp [escapedChars])
      · rintro rfl
        exact hescaped List.mem_cons_self
    rw [escapeChar_eq_self hescaped, cook_cons hstep]
    simp

theorem cooked?_flatMap_escapeChar {mark : Char} (hmark : isQuote mark) (value : List Char) :
    cooked? (.string mark) (value.flatMap (escapeChar mark)) = some (textUnits value) := by
  have hcook : cook (.string mark) .plain (value.flatMap (escapeChar mark)) =
      some (.plain, textUnits value) := cook_flatMap value fun c _ => cook_escapeChar hmark c
  rw [cooked?, hcook]
  rfl

/-- A quoted text stands for the text. -/
theorem literalUnits?_quoteChars {mark : Char} (hmark : isQuote mark) (value : List Char) :
    literalUnits? (quoteChars mark value) = some (textUnits value) := by
  simp [literalUnits?, quoteChars, hmark, cooked?_flatMap_escapeChar hmark]

theorem isQuote_cheaperQuote (value : List Char) : isQuote (cheaperQuote value) := by
  unfold cheaperQuote
  split <;> rfl

/-- A string literal stands for its value. -/
theorem literalUnits?_quote (value : String) :
    literalUnits? (quote value).toList = some (textUnits value.toList) := by
  rw [quote, quoteWith, String.toList_ofList]
  exact literalUnits?_quoteChars (isQuote_cheaperQuote _) _

end EcmaPrinter.Text
