import EcmaPrinter.Proofs.Lexical.Token
import EcmaPrinter.Proofs.Text.Decoded
import Mathlib.Algebra.BigOperators.Group.List.Basic
import Mathlib.Tactic.Ring

/-!
String literals and the text that they stand for.

A literal is a text between two quotation marks, with some of its characters escaped.  Whichever
mark is taken, a reader gives the text back (`readValue_quoteWith`), and nothing in between can end
the literal early.  Escaping costs a backslash for every mark of the kind that is taken
(`weigh_quoteChars`), so the mark that occurs less often gives the shorter literal.

A web-safe spelling of a literal is a literal of the same value, between the same marks
(`literalUnits?_webSafeChars`).
-/

namespace EcmaPrinter.Text

open EcmaPrinter.Lexical

variable {mark : Char}

/-! ### Between the marks -/

/-- The number of marks in a text that are not escaped. -/
def countBare (mark : Char) : List Char → ℕ
  | [] => 0
  | [c] => if c = mark then 1 else 0
  | c :: d :: rest =>
    if c = backslash then countBare mark rest
    else (if c = mark then 1 else 0) + countBare mark (d :: rest)

/-- A character that neither is a mark nor starts an escape. -/
theorem countBare_cons {c : Char} (hmark : c ≠ mark) (hback : c ≠ backslash) (rest : List Char) :
    countBare mark (c :: rest) = countBare mark rest := by
  cases rest with
  | nil => simp [countBare, hmark]
  | cons d rest => simp [countBare, hmark, hback]

theorem countBare_digits (hmark : isQuote mark) {ds : List Char} (hds : ds.all Char.isDigit)
    (rest : List Char) : countBare mark (ds ++ rest) = countBare mark rest := by
  induction ds with
  | nil => rfl
  | cons d ds ih =>
    obtain ⟨hd, hds⟩ : d.isDigit ∧ ds.all Char.isDigit := by simpa using hds
    have hne : d ≠ mark := by
      rintro rfl
      rcases isQuote_iff.mp hmark with rfl | rfl <;> cases hd
    have hback : d ≠ backslash := by
      rintro rfl
      cases hd
    rw [List.cons_append, countBare_cons hne hback, ih hds]

/-- Is the text a backslash with a character that ends no line, and digits? -/
def isEscape : List Char → Bool
  | c :: d :: digits => c == backslash && !isLineEnd d && digits.all Char.isDigit
  | _ => false

theorem isEscape_escapeChar (hmark : isQuote mark) :
    ∀ c ∈ mark :: escapedChars, isEscape (escapeChar mark c) := by
  rcases isQuote_iff.mp hmark with rfl | rfl
  · exact forall_mem_of_all (by decide)
  · exact forall_mem_of_all (by decide)

/-- A character is written as itself or as an escape.  Line ends and marks are always escaped. -/
theorem escapeChar_cases (hmark : isQuote mark) (c : Char) :
    (escapeChar mark c = [c] ∧ c ≠ mark ∧ c ≠ backslash ∧ isLineEnd c = false) ∨
      ∃ d digits, escapeChar mark c = backslash :: d :: digits ∧ isLineEnd d = false ∧
        digits.all Char.isDigit := by
  -- the characters that can be escaped are a finite list, and all others stand for themselves
  by_cases hc : c ∈ mark :: escapedChars
  · have hescape := isEscape_escapeChar hmark c hc
    unfold isEscape at hescape
    split at hescape
    · next b d digits heq =>
      simp only [Bool.and_eq_true, beq_iff_eq, Bool.not_eq_true'] at hescape
      obtain ⟨⟨rfl, hline⟩, hdigits⟩ := hescape
      exact .inr ⟨d, digits, heq, hline, hdigits⟩
    · cases hescape
  · simp only [List.mem_cons, escapedChars, not_or] at hc
    refine .inl ⟨escapeChar_eq_self (by simpa [escapedChars] using hc), ?_⟩
    simp [hc, isLineEnd, isSeparatorLine]

/-- No mark of a text is left bare. -/
theorem countBare_flatMap_escapeChar (hmark : isQuote mark) (value : List Char) :
    countBare mark (value.flatMap (escapeChar mark)) = 0 := by
  induction value with
  | nil => rfl
  | cons c value ih =>
    rw [List.flatMap_cons]
    rcases escapeChar_cases hmark c with ⟨heq, hne, hback, -⟩ | ⟨d, digits, heq, -, hdigits⟩
    · rw [heq, List.singleton_append, countBare_cons hne hback, ih]
    · rw [heq, List.cons_append, List.cons_append, countBare, if_pos rfl,
        countBare_digits hmark hdigits, ih]

/-- A literal stands on one line. -/
theorem not_isLineEnd_of_mem_quoteChars (hmark : isQuote mark) {value : List Char} {c : Char}
    (hc : c ∈ quoteChars mark value) : isLineEnd c = false := by
  have hquote : isLineEnd mark = false := by
    rcases isQuote_iff.mp hmark with rfl | rfl <;> rfl
  have hdigit {d : Char} (hd : d.isDigit) : isLineEnd d = false := by
    rw [Bool.eq_false_iff]
    intro hline
    simp only [isLineEnd, isSeparatorLine, Bool.or_eq_true, beq_iff_eq] at hline
    rcases hline with (rfl | rfl) | rfl | rfl <;> cases hd
  simp only [quoteChars, List.mem_cons, List.mem_append, List.mem_flatMap, List.not_mem_nil,
    or_false] at hc
  rcases hc with rfl | ⟨d, -, hc⟩ | rfl
  · exact hquote
  · rcases escapeChar_cases hmark d with ⟨heq, -, -, hline⟩ | ⟨e, digits, heq, hline, hdigits⟩
    · rw [heq, List.mem_singleton] at hc
      exact hc ▸ hline
    · rw [heq] at hc
      simp only [List.mem_cons] at hc
      rcases hc with rfl | rfl | hc
      · rfl
      · exact hline
      · exact hdigit (List.all_eq_true.mp hdigits c hc)
  · exact hquote

/-! ### The cheaper mark -/

/-- The sum of the weights of characters. -/
def weigh (weight : Char → ℕ) (cs : List Char) : ℕ :=
  (cs.map weight).sum

variable {weight : Char → ℕ}

theorem weigh_append (xs ys : List Char) :
    weigh weight (xs ++ ys) = weigh weight xs + weigh weight ys := by
  simp [weigh]

/-- A mark costs a backslash.  Whether another character is escaped does not depend on the mark. -/
theorem escapeChar_eq (hmark : isQuote mark) (c : Char) :
    escapeChar mark c =
      if c = mark then backslash :: escapeChar backslash c else escapeChar backslash c := by
  by_cases hc : c ∈ mark :: escapedChars
  · revert c
    rcases isQuote_iff.mp hmark with rfl | rfl
    · exact forall_mem_of_all (by decide)
    · exact forall_mem_of_all (by decide)
  · have hne : c ≠ mark := fun heq => hc (heq ▸ List.mem_cons_self)
    have hother : c ∉ backslash :: escapedChars := by
      simp only [List.mem_cons, escapedChars, not_or] at hc ⊢
      simp [hc]
    rw [if_neg hne, escapeChar_eq_self hc, escapeChar_eq_self hother]

/-- Of its marks, a literal weighs the two around it and a backslash for each one inside. -/
theorem weigh_quoteChars (hmark : isQuote mark) (value : List Char) :
    weigh weight (quoteChars mark value) =
      2 * weight mark + weigh weight (value.flatMap (escapeChar backslash)) +
        value.count mark * weight backslash := by
  have hbody : weigh weight (value.flatMap (escapeChar mark)) =
      weigh weight (value.flatMap (escapeChar backslash)) +
        value.count mark * weight backslash := by
    induction value with
    | nil => simp [weigh]
    | cons c value ih =>
      rw [List.flatMap_cons, List.flatMap_cons, weigh_append, weigh_append, ih, escapeChar_eq hmark,
        List.count_cons]
      split
      · -- a mark of the text: its backslash is what the count adds
        next hc =>
        subst hc
        simp [weigh]
        ring
      · next hc =>
        simp [hc]
        ring
  have hmarks : quoteChars mark value =
      [mark] ++ (value.flatMap (escapeChar mark) ++ [mark]) := rfl
  -- what is escaped for another reason costs the same between marks of either kind
  rw [hmarks, weigh_append, weigh_append, hbody]
  simp [weigh]
  ring

/-- No mark makes a lighter literal than the cheaper one. -/
theorem weigh_quote_le (hweight : weight singleQuote = weight doubleQuote) (hmark : isQuote mark)
    (value : List Char) :
    weigh weight (quoteChars (cheaperQuote value) value) ≤
      weigh weight (quoteChars mark value) := by
  have hcount : value.count (cheaperQuote value) ≤ value.count mark := by
    unfold cheaperQuote
    rcases isQuote_iff.mp hmark with rfl | rfl <;> split <;> omega
  have hsame : weight (cheaperQuote value) = weight mark := by
    unfold cheaperQuote
    rcases isQuote_iff.mp hmark with rfl | rfl <;> split <;> simp [hweight]
  rw [weigh_quoteChars (isQuote_cheaperQuote value), weigh_quoteChars hmark, hsame]
  gcongr

theorem length_ofList (cs : List Char) :
    (String.ofList cs).length = weigh (fun _ => 1) cs := by
  simp [weigh]

theorem utf8ByteSize_ofList (cs : List Char) :
    (String.ofList cs).utf8ByteSize = weigh Char.utf8Size cs := by
  induction cs with
  | nil => rfl
  | cons c cs ih =>
    rw [String.ofList_cons, String.utf8ByteSize_append, ih]
    simp [weigh]

/-! ### Literals -/

theorem toList_quoteWith (mark : Char) (value : String) :
    (quoteWith mark value).toList = quoteChars mark value.toList :=
  String.toList_ofList

/-- A literal is taken off a text, whatever follows it, as the units of its value. -/
theorem readValue_quoteWith (hmark : isQuote mark) (value : String) (rest : List Char) :
    readValue .div ((quoteWith mark value).toList ++ rest) =
      some (.text (textUnits value.toList), rest) := by
  rw [toList_quoteWith]
  exact readValue_append (.string hmark (cooked?_flatMap_escapeChar hmark value.toList))
    (by decide) ⟨by simp [goesOn], nofun, nofun⟩

/-- Between marks of either kind, a text is written as a literal that reads as this text and that
ends with its second bare mark; no line ends in it.  The literal that is chosen is one of the two,
and neither is shorter, in characters or in bytes. -/
theorem quote_decodes (value : String) :
    (∀ mark, isQuote mark →
      (∃ units, (∀ rest, readValue .div ((quoteWith mark value).toList ++ rest) =
          some (.text units, rest)) ∧
        ofUnits? units = some value.toList) ∧
      (∃ body, (quoteWith mark value).toList = mark :: (body ++ [mark]) ∧
        countBare mark body = 0) ∧
      ∀ c ∈ (quoteWith mark value).toList, isLineEnd c = false) ∧
    (∃ mark, isQuote mark ∧ quote value = quoteWith mark value) ∧
    ∀ mark, isQuote mark →
      (quote value).length ≤ (quoteWith mark value).length ∧
      (quote value).utf8ByteSize ≤ (quoteWith mark value).utf8ByteSize := by
  refine ⟨fun mark hmark => ⟨?_, ?_, fun c hc => ?_⟩, ?_, fun mark hmark => ⟨?_, ?_⟩⟩
  · exact ⟨_, readValue_quoteWith hmark value, ofUnits?_textUnits value.toList⟩
  · exact ⟨_, toList_quoteWith mark value, countBare_flatMap_escapeChar hmark value.toList⟩
  · rw [toList_quoteWith] at hc
    exact not_isLineEnd_of_mem_quoteChars hmark hc
  · exact ⟨_, isQuote_cheaperQuote value.toList, rfl⟩
  · rw [quote, quoteWith, quoteWith, length_ofList, length_ofList]
    exact weigh_quote_le rfl hmark value.toList
  · rw [quote, quoteWith, quoteWith, utf8ByteSize_ofList, utf8ByteSize_ofList]
    exact weigh_quote_le rfl hmark value.toList

/-- A text with both marks, a backslash and two ends of lines. -/
theorem quote_decodes_mixed :
    let value := "it\x27s \x22a\x22\\\n\u2028"
    quoteWith singleQuote value = "\x27it\\\x27s \x22a\x22\\\\\\n\\u2028\x27" ∧
    quoteWith doubleQuote value = "\x22it\x27s \\\x22a\\\x22\\\\\\n\\u2028\x22" ∧
    quote value = quoteWith singleQuote value ∧
    (∃ units, (∀ rest, readValue .div ((quoteWith singleQuote value).toList ++ rest) =
        some (.text units, rest)) ∧
      ofUnits? units = some value.toList) ∧
    (quote value).length ≤ (quoteWith doubleQuote value).length := by
  intro value
  obtain ⟨hboth, -, hle⟩ := quote_decodes value
  exact ⟨by decide, by decide, by decide, (hboth singleQuote rfl).1,
    (hle doubleQuote rfl).1⟩

/-! ### Web-safe literals -/

/-- The web-safe spelling of a literal is a literal with the same value. -/
theorem literalUnits?_webSafeChars {cs : List Char} {us : List Nat}
    (h : literalUnits? cs = some us) : literalUnits? (webSafeChars cs) = some us := by
  unfold literalUnits? at h
  split at h
  · cases h
  · next mark rest =>
    split at h
    · next hmarks =>
      simp only [Bool.and_eq_true, beq_iff_eq] at hmarks
      obtain ⟨hmark, hlast⟩ := hmarks
      obtain ⟨body, rfl⟩ : ∃ body, rest = body ++ [mark] := List.getLast?_eq_some_iff.mp hlast
      rw [List.dropLast_concat] at h
      -- the marks are plain ASCII and stay, so all happens between them
      rw [webSafeChars_quoted hmark h]
      simp [literalUnits?, hmark, cooked?_webSafeChars h]
    · cases h

/-- Web-safe spellings keep the values of literals: that of every string literal, that of every text
of a template without a tag, and so the text that was quoted. -/
theorem webSafe_keeps_value :
    (∀ (text : String) (us : List Nat), literalUnits? text.toList = some us →
      literalUnits? (webSafe text).toList = some us) ∧
    (∀ (text : String) (us : List Nat), cooked? .template text.toList = some us →
      cooked? .template (webSafe text).toList = some us) ∧
    ∀ value : String,
      literalUnits? (webSafe (quote value)).toList = some (textUnits value.toList) := by
  have hstring (text : String) (us : List Nat) (h : literalUnits? text.toList = some us) :
      literalUnits? (webSafe text).toList = some us := by
    rw [webSafe, String.toList_ofList]
    exact literalUnits?_webSafeChars h
  refine ⟨hstring, fun text us h => ?_, fun value => hstring _ _ (literalUnits?_quote value)⟩
  rw [webSafe, String.toList_ofList]
  exact cooked?_webSafeChars h

/-- A literal with an escaped and an unescaped letter beyond ASCII, a NUL, a line continuation, a
character outside the first plane and a script tag, and a template text with two kinds of line ends
in it. -/
theorem webSafe_keeps_value_mixed :
    let text := "\x22\\\u00e9\x00\\\u2028𐐀</script>\\\\\u00e9\x22"
    let chunk := "\r\n\\\u2029<SCRIPT $\u00e9"
    let value := "\u00e9\x22\u2028"
    let units := [233, 0, 0xD801, 0xDC00] ++ textUnits "</script>\\\u00e9".toList
    literalUnits? text.toList = some units ∧
    webSafe text =
      "\x22\\u00E9\\x00\\\n\\uD801\\uDC00</\\x73cript>\\\\\\u00E9\x22" ∧
    literalUnits? (webSafe text).toList = some units ∧
    cooked? .template chunk.toList = some (10 :: textUnits "<SCRIPT $\u00e9".toList) ∧
    webSafe chunk = "\r\n\\\n<\\x53CRIPT $\\u00E9" ∧
    cooked? .template (webSafe chunk).toList = some (10 :: textUnits "<SCRIPT $\u00e9".toList) ∧
    literalUnits? (webSafe (quote value)).toList = some (textUnits value.toList) := by
  intro text chunk value units
  obtain ⟨hstring, htemplate, hquote⟩ := webSafe_keeps_value
  have htext : literalUnits? text.toList = some units := by decide
  have hchunk : cooked? .template chunk.toList =
      some (10 :: textUnits "<SCRIPT $\u00e9".toList) := by decide
  exact ⟨htext, by decide, hstring text units htext, hchunk, by decide,
    htemplate chunk _ hchunk, hquote value⟩

end EcmaPrinter.Text
