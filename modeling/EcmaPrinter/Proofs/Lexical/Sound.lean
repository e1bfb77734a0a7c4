import EcmaPrinter.Generate.Expression
import EcmaPrinter.Proofs.Lexical.Path
import EcmaPrinter.Proofs.Number.Literal

/-!
The tokens that code is made of are sound: keywords and punctuators, names, numbers, string
literals, directives, regular expressions and template text.
-/

namespace EcmaPrinter.Lexical

open EcmaPrinter
open EcmaPrinter.Number
open EcmaPrinter.Text

/-! ### Names and punctuators -/

/-- Characters without escapes stand for themselves in a name. -/
theorem scanName_part {cs : List Char} (h : ∀ c ∈ cs, isIdentifierPart c) :
    scanName (.part false) cs = some (cs, []) := by
  induction cs with
  | nil => rfl
  | cons c cs ih =>
    have hc := h c List.mem_cons_self
    have hne : c ≠ backslash := by
      rintro rfl
      cases hc
    have ih := ih fun d hd => h d (List.mem_cons_of_mem c hd)
    simp [scanName, nameStep, fitsName, hc, hne, ih]

theorem scanName_of_isName {cs : List Char} (h : isName cs) :
    scanName (.part true) cs = some (cs, []) := by
  have hall := all_isIdentifierPart_of_isName h
  cases cs with
  | nil => cases h
  | cons c cs =>
    obtain ⟨hc, -⟩ : isIdentifierStart c ∧ ∀ d ∈ cs, isIdentifierPart d := by
      simpa [isName] using h
    have hne : c ≠ backslash := by
      rintro rfl
      cases hc
    have hscan := scanName_part fun d hd => hall d (List.mem_cons_of_mem c hd)
    simp [scanName, nameStep, fitsName, hc, hne, hscan]

/-- A piece that is a name, a punctuator or the mark of a substitution. -/
def isFixed (p : Piece) : Bool :=
  p != .statementEnd && (charsOf {} p != ['}'] || p == .token "\x7d") &&
    match kindOf p with
    | .word => isName (charsOf {} p)
    | .punctuator => punctuators.contains (charsOf {} p)
    | .substitution => true
    | _ => false

theorem chars_of_substitution {p : Piece} (h : kindOf p = .substitution) :
    charsOf {} p = ['$', '{'] := by
  have htext : ∀ cs, textKind cs ≠ .substitution := by
    intro cs
    rcases textKind_cases cs with h | h | h <;> rw [h] <;> decide
  cases p with
  | token text =>
    simp only [kindOf] at h
    split at h
    · next heq =>
      subst heq
      rfl
    · split at h
      · cases h
      · exact absurd h (htext _)
  | operator text => exact absurd h (htext _)
  | raw | number | comma | semicolon | statementEnd => cases h

theorem spelling_of_isFixed {p : Piece} (h : isFixed p) :
    ∃ v, Spelling (kindOf p) (charsOf {} p) v := by
  simp only [isFixed, Bool.and_eq_true] at h
  obtain ⟨-, h⟩ := h
  cases hkind : kindOf p with
  | word =>
    rw [hkind] at h
    exact ⟨_, .word (scanName_of_isName h)⟩
  | punctuator =>
    rw [hkind] at h
    exact ⟨_, .punctuator (by simpa using h)⟩
  | substitution =>
    rw [chars_of_substitution hkind]
    exact ⟨_, .substitution⟩
  | number | string | regExp | chunk =>
    rw [hkind] at h
    cases h

theorem isName_of_isFixed {p : Piece} (h : isFixed p) (hkind : kindOf p = .word) :
    isName (charsOf {} p) := by
  simp only [isFixed, hkind, Bool.and_eq_true] at h
  exact h.2

theorem sound_of_isFixed {p : Piece} (h : isFixed p) : Sound {} p := by
  obtain ⟨v, hv⟩ := spelling_of_isFixed h
  have hname := isName_of_isFixed h
  simp only [isFixed, Bool.and_eq_true, bne_iff_ne, Bool.or_eq_true, beq_iff_eq] at h
  obtain ⟨⟨hsolid, hbrace⟩, hkind⟩ := h
  have hnumber : ∀ x, p ≠ .number x := by
    rintro x rfl
    cases hkind
  refine ⟨⟨v, ⟨hsolid, fun x heq => absurd heq (hnumber x), hv⟩, ?_⟩, ?_, ?_, ?_⟩
  · exact fun x heq => absurd heq (hnumber x)
  · intro hword c hc
    exact all_isIdentifierPart_of_isName (hname hword) c (List.mem_of_getLast? hc)
  · intro _ heq
    exact hbrace.resolve_left fun hne => hne heq
  · intro hword _
    exact backslash_not_mem_of_isName (hname hword)

/-- A name is a sound token. -/
theorem isFixed_name {name : String} (h : isIdentifierName name) :
    isFixed (.token name) ∧ kindOf (.token name) = .word := by
  have hname : isName name.toList := by rwa [isIdentifierName_eq] at h
  have hall := all_isIdentifierPart_of_isName hname
  rcases hchars : name.toList with - | ⟨c, cs⟩
  · rw [hchars] at hname
    cases hname
  · have hc : isIdentifierStart c := by
      rw [hchars] at hname
      exact (Bool.and_eq_true_iff.mp hname).1
    have hslash : c ≠ '/' := by
      rintro rfl
      cases hc
    have hmark : name ≠ "$\x7b" := by
      rintro rfl
      cases hall '{' (by decide)
    have hbrace : '}' ∉ name.toList := fun hmem => by cases hall '}' hmem
    have hkind : kindOf (.token name) = .word := by
      simp [kindOf, hmark, hchars, hslash, textKind, hc]
    have hne : name.toList ≠ ['}'] := fun heq => hbrace (by simp [heq])
    refine ⟨?_, hkind⟩
    simp [isFixed, hkind, charsOf, hname, hne]

/-! ### Numbers -/

theorem sound_number {x : Double} (hnan : x.isNaN = false)
    (hsign : x.negative = false ∨ x.isZero) : Sound {} (.number x) := by
  obtain ⟨q, hrounds, hspells⟩ := Double.isSpelled_numberText {} hnan hsign
  have hstands : Stands (.number x) (.number q) := by
    rintro y heq
    obtain rfl : x = y := by simpa using heq
    exact ⟨q, rfl, hrounds⟩
  refine ⟨⟨.number q, ⟨nofun, ?_, .number hspells⟩, hstands⟩, nofun, ?_, nofun⟩
  · rintro y heq
    obtain rfl : x = y := by simpa using heq
    exact hnan
  · intro _ heq
    have hspells : Spells q ['}'] := heq ▸ hspells
    obtain ⟨c, tail, heq, hc⟩ := hspells.first
    obtain ⟨rfl, -⟩ := List.cons.inj heq
    rcases hc with hc | hc <;> cases hc

/-! ### Strings and directives -/

theorem kindOf_quoted {mark : Char} (hmark : isQuote mark) (cs : List Char) :
    kindOf (.token (String.ofList (mark :: cs))) = .string := by
  have hne : String.ofList (mark :: cs) ≠ "$\x7b" := by
    intro heq
    have hchars : mark :: cs = ['$', '{'] := by
      have := congrArg String.toList heq
      rwa [String.toList_ofList] at this
    obtain ⟨rfl, -⟩ := List.cons.inj hchars
    cases hmark
  have hcases : mark ≠ '/' ∧ isIdentifierStart mark = false ∧ mark ≠ backslash := by
    rcases isQuote_iff.mp hmark with rfl | rfl <;> decide
  rw [kindOf, if_neg hne, String.toList_ofList, if_neg (by simpa using hcases.1)]
  simp [textKind, hmark, hcases]

theorem sound_quoted {mark : Char} (hmark : isQuote mark) {body : List Char}
    (h : (cooked? (.string mark) body).isSome) :
    Sound {} (.token (String.ofList (mark :: (body ++ [mark])))) := by
  obtain ⟨us, hus⟩ := Option.isSome_iff_exists.mp h
  have hkind := kindOf_quoted hmark (body ++ [mark])
  refine ⟨⟨.text us, ⟨by simp, by simp, ?_⟩, by simp [Stands]⟩, ?_, ?_, ?_⟩
  · rw [hkind, charsOf, String.toList_ofList]
    exact .string hmark hus
  · simp only [hkind, reduceCtorEq, false_implies]
  · rw [charsOf, String.toList_ofList]
    intro _ heq
    have hnil := (List.cons.inj heq).2
    simp at hnil
  · simp only [hkind, reduceCtorEq, false_implies]

/-- What stands between the marks of a quoted string is legal there. -/
theorem isSome_cooked?_escapes {mark : Char} (hmark : isQuote mark) (cs : List Char) :
    (cooked? (.string mark) (cs.flatMap (escapeChar mark))).isSome := by
  rw [cooked?_flatMap_escapeChar hmark]
  rfl

/-! A directive is written between double marks where that is possible.  Where it is legal between
the marks of either kind, it is legal between those that it gets. -/

/-- The raw text of a directive: legal between quotation marks of one kind. -/
def isDirective (raw : String) : Bool :=
  (cooked? (.string doubleQuote) raw.toList).isSome ||
    (cooked? (.string singleQuote) raw.toList).isSome

/-- Outside of escapes a text has no mark of its own kind. -/
theorem step_mark {mark : Char} (hmark : isQuote mark) {place : Place} (hplace : place ≠ .escape) :
    step (.string mark) place mark = none := by
  cases place with
  | escape => exact absurd rfl hplace
  | plain | zero | dollar | carriage | hex | unit | braced =>
    rcases isQuote_iff.mp hmark with rfl | rfl <;> rfl

/-- A text that is legal between double marks has no double mark without a backslash. -/
theorem fitsDoubleQuotes_of_cook {place final : Place} {cs : List Char} {us : List Nat}
    (h : cook (.string doubleQuote) place cs = some (final, us)) (hfinal : final.isRest)
    (hplace : place ≠ .escape) : fitsDoubleQuotes cs := by
  have hmark : ∀ {place : Place} {r : Place × List Nat} {c : Char}, place ≠ .escape →
      step (.string doubleQuote) place c = some r → c ≠ doubleQuote := by
    rintro place r c hplace hstep rfl
    rw [step_mark rfl hplace] at hstep
    cases hstep
  fun_induction fitsDoubleQuotes cs generalizing place us with
  | case1 => rfl
  | case2 c =>
    obtain ⟨next, vs, ws, hstep, hcook, -⟩ := cook_cons_eq_some h
    have hne : c ≠ backslash := by
      rintro rfl
      cases (step_backslash hstep hplace).2
      cases hcook
      cases hfinal
    simp [hne, hmark hplace hstep]
  | case3 c d rest hc ih =>
    obtain rfl : c = backslash := by simpa using hc
    obtain ⟨next, vs, ws, hstep, hcook, -⟩ := cook_cons_eq_some h
    cases (step_backslash hstep hplace).2
    obtain ⟨next, vs, ws, hstep, hcook, -⟩ := cook_cons_eq_some hcook
    exact ih hcook (next_ne_escape hstep (.inr rfl))
  | case4 c d rest hc ih =>
    have hne : c ≠ backslash := by simpa using hc
    obtain ⟨next, vs, ws, hstep, hcook, -⟩ := cook_cons_eq_some h
    simp [hmark hplace hstep, ih hcook (next_ne_escape hstep (.inl hne))]

/-- The kind of the marks matters only for the marks themselves. -/
theorem step_eq_of_ne {mark mark' : Char} {place : Place} {c : Char} (h : c ≠ mark)
    (h' : c ≠ mark') : step (.string mark) place c = step (.string mark') place c := by
  have hplain : plainStep (.string mark) c = plainStep (.string mark') c := by
    simp [plainStep, h, h']
  cases place <;> simp only [step, hplain]

/-- A text that is legal between single marks and has no bare double mark is legal between double
marks. -/
theorem cook_double_eq_single {place final : Place} {cs : List Char} {us : List Nat}
    (h : cook (.string singleQuote) place cs = some (final, us)) (hfits : fitsDoubleQuotes cs)
    (hplace : place ≠ .escape) : cook (.string doubleQuote) place cs = some (final, us) := by
  have hstep' : ∀ {place : Place} {r : Place × List Nat} {c : Char}, place ≠ .escape →
      c ≠ doubleQuote → step (.string singleQuote) place c = some r →
        step (.string doubleQuote) place c = some r := by
    intro place r c hplace hc hstep
    rw [← hstep]
    refine step_eq_of_ne hc ?_
    rintro rfl
    rw [step_mark rfl hplace] at hstep
    cases hstep
  fun_induction fitsDoubleQuotes cs generalizing place us with
  | case1 => exact h
  | case2 c =>
    obtain ⟨next, vs, ws, hstep, hcook, rfl⟩ := cook_cons_eq_some h
    obtain ⟨-, hc⟩ : c ≠ backslash ∧ c ≠ doubleQuote := by simpa using hfits
    rw [cook_cons (hstep' hplace hc hstep)]
    cases hcook
    rfl
  | case3 c d rest hc ih =>
    obtain rfl : c = backslash := by simpa using hc
    obtain ⟨next, vs, ws, hstep, hcook, rfl⟩ := cook_cons_eq_some h
    cases (step_backslash hstep hplace).2
    obtain ⟨next, vs, ws', hescape, hcook', rfl⟩ := cook_cons_eq_some hcook
    have hrest := ih hcook' hfits (next_ne_escape hescape (.inr rfl))
    have hescape : step (.string doubleQuote) .escape d = some (next, vs) := hescape
    rw [cook_cons (hstep' hplace (by decide) hstep), cook_cons hescape, hrest]
    rfl
  | case4 c d rest hc ih =>
    have hne : c ≠ backslash := by simpa using hc
    obtain ⟨hquote, hfits⟩ : c ≠ doubleQuote ∧ fitsDoubleQuotes (d :: rest) := by
      simpa using hfits
    obtain ⟨next, vs, ws, hstep, hcook, rfl⟩ := cook_cons_eq_some h
    rw [cook_cons (hstep' hplace hquote hstep), ih hcook hfits (next_ne_escape hstep (.inl hne))]
    rfl

/-- A directive is legal between the marks that it gets. -/
theorem cooked?_directiveQuote {raw : String} (h : isDirective raw) :
    (cooked? (.string (directiveQuote raw)) raw.toList).isSome := by
  have hcook : ∀ {l : Literal}, (cooked? l raw.toList).isSome →
      ∃ final us, cook l .plain raw.toList = some (final, us) ∧ final.isRest := by
    intro l hsome
    unfold cooked? at hsome
    split at hsome
    · next place us heq =>
      split at hsome
      · next hrest => exact ⟨place, us, heq, hrest⟩
      · cases hsome
    · cases hsome
  unfold directiveQuote
  split
  · next hfits =>
    rcases (Bool.or_eq_true_iff.mp h) with h | h
    · exact h
    · obtain ⟨final, us, heq, hrest⟩ := hcook h
      simp [cooked?, cook_double_eq_single heq hfits (by decide), hrest]
  · next hfits =>
    rcases (Bool.or_eq_true_iff.mp h) with h | h
    · obtain ⟨final, us, heq, hrest⟩ := hcook h
      exact absurd (fitsDoubleQuotes_of_cook heq hrest (by decide)) hfits
    · exact h

/-! ### Regular expressions and template text -/

/-- A legal pattern of a regular expression. -/
def isPattern (pattern : List Char) : Bool :=
  pattern != [] && pattern.head? != some '*' && scanPattern {} (pattern ++ ['/']) == some []

theorem IsPattern.of_isPattern {pattern : List Char} (h : isPattern pattern) :
    IsPattern pattern := by
  simp only [isPattern, Bool.and_eq_true, bne_iff_ne, beq_iff_eq] at h
  exact ⟨h.1.1, h.1.2, h.2⟩

theorem all_isIdentifierPart_flags (flags : RegExpFlags) :
    flags.text.toList.all isIdentifierPart := by
  obtain ⟨g, i, m, y, u⟩ := flags
  revert g i m y u
  decide

theorem kindOf_regExp (cs : List Char) : kindOf (.token (String.ofList ('/' :: cs))) = .regExp := by
  have hne : String.ofList ('/' :: cs) ≠ "$\x7b" := by
    intro heq
    have hchars : '/' :: cs = ['$', '{'] := by
      have := congrArg String.toList heq
      rwa [String.toList_ofList] at this
    cases hchars
  rw [kindOf, if_neg hne, String.toList_ofList]
  rfl

theorem sound_regExp {pattern : String} (h : isPattern pattern.toList) (flags : RegExpFlags) :
    Sound {} (.token (String.ofList ('/' :: (pattern.toList ++ '/' :: flags.text.toList)))) := by
  have hkind := kindOf_regExp (pattern.toList ++ '/' :: flags.text.toList)
  refine ⟨⟨.regExp ('/' :: (pattern.toList ++ '/' :: flags.text.toList)), ⟨by simp, by simp, ?_⟩,
    by simp [Stands]⟩, ?_, ?_, ?_⟩
  · rw [hkind, charsOf, String.toList_ofList]
    exact .regExp (.of_isPattern h) (all_isIdentifierPart_flags flags)
  · simp only [hkind, reduceCtorEq, false_implies]
  · simp [charsOf]
  · simp only [hkind, reduceCtorEq, false_implies]

theorem sound_raw {raw : String} (h : (cooked? .template raw.toList).isSome) (hne : raw ≠ "") :
    Sound {} (.raw raw) := by
  obtain ⟨us, hus⟩ := Option.isSome_iff_exists.mp h
  refine ⟨⟨.text us, ⟨nofun, nofun, .chunk ?_ hus⟩, nofun⟩, nofun, ?_, nofun⟩
  · simpa [charsOf] using hne
  · intro hchunk
    exact absurd rfl hchunk

end EcmaPrinter.Lexical
