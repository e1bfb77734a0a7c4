import EcmaPrinter.Proofs.Text.Safe

/-!
Script tags as they are written, and which of them a web-safe spelling keeps.

A tag is told by its start, `<script` or `</script` in any case, and by the character behind it.
The scan for tags (`hasTag`) knows six such characters, so a spelling has no tag before one of them,
and the texts that are spelled as they are can be described without the scan
(`webSafe_eq_self_iff_inlinable`).

HTML knows a seventh one, the line feed.  A start before a line feed is nothing to the scan, and all
of its characters are plain.  It goes through both steps of a spelling as it is, and no step makes
one.  So the tags that HTML reads in a spelling are those of the text that stand before a line feed
(`tag_infix_webSafe_iff`).
-/

namespace EcmaPrinter

open EcmaPrinter.Text

/-! ### Tags -/

/-- A script tag, opening or closing, with the character behind its name. -/
inductive ScriptTag : List Char → Prop
  | opening {name : List Char} {c : Char} (hname : name.map Char.toLower = "script".toList)
      (hc : c ∈ ['\t', '\r', '\x0c', ' ', '/', '>']) : ScriptTag ('<' :: (name ++ [c]))
  | closing {name : List Char} {c : Char} (hname : name.map Char.toLower = "script".toList)
      (hc : c ∈ ['\t', '\r', '\x0c', ' ', '/', '>']) : ScriptTag ('<' :: '/' :: (name ++ [c]))

/-- The start of a script tag, opening or closing, up to the end of its name. -/
inductive TagStart : List Char → Prop
  | opening {name : List Char} (hname : name.map Char.toLower = "script".toList) :
      TagStart ('<' :: name)
  | closing {name : List Char} (hname : name.map Char.toLower = "script".toList) :
      TagStart ('<' :: '/' :: name)

theorem scriptTag_iff {tag : List Char} :
    ScriptTag tag ↔ ∃ start c, TagStart start ∧ c ∈ ['\t', '\r', '\x0c', ' ', '/', '>'] ∧
      tag = start ++ [c] := by
  constructor
  · rintro (⟨hname, hc⟩ | ⟨hname, hc⟩)
    · exact ⟨_, _, .opening hname, hc, rfl⟩
    · exact ⟨_, _, .closing hname, hc, rfl⟩
  · rintro ⟨start, c, hstart, hc, rfl⟩
    cases hstart with
    | opening hname => exact .opening hname hc
    | closing hname => exact .closing hname hc

theorem endsTagName_iff {c : Char} :
    endsTagName c ↔ c ∈ ['\t', '\r', '\x0c', ' ', '/', '>'] := by
  simp [endsTagName, or_assoc]

theorem isPlain_iff {c : Char} : isPlain c ↔ c.toNat < 128 ∧ c ≠ '\x00' := by
  simp [isPlain, isAscii]

/-! ### What the scan finds -/

section Name

variable {name : List Char} (hname : name.map Char.toLower = "script".toList)

include hname

/-- Behind a name, the next character decides. -/
theorem startsTagName_append (c : Char) (after : List Char) :
    startsTagName (name ++ c :: after) = endsTagName c := by
  have hlength : name.length = 6 := by simpa using congrArg List.length hname
  have htake : (name ++ c :: after).take 6 = name := by rw [← hlength, List.take_left]
  have hdrop : (name ++ c :: after).drop 6 = c :: after := by rw [← hlength, List.drop_left]
  simp [startsTagName, htake, hdrop, hname]

/-- A name starts with a letter. -/
theorem exists_name_eq_cons : ∃ c cs, name = c :: cs ∧ c.toLower = 's' := by
  cases name with
  | nil => cases hname
  | cons c cs => exact ⟨c, cs, rfl, (List.cons.inj hname).1⟩

end Name

/-- A start makes a tag exactly before the characters that the scan knows. -/
theorem TagStart.startsTag_append {start : List Char} (h : TagStart start) (c : Char)
    (after : List Char) : startsTag (start ++ c :: after) = endsTagName c := by
  cases h with
  | @opening name hname =>
    obtain ⟨d, ds, rfl, hd⟩ := exists_name_eq_cons hname
    have hslash : d ≠ '/' := by
      rintro rfl
      cases hd
    have hclosing : matchesAll ((· == '/') :: tagName) (d :: ds ++ c :: after) = false := by
      simp [matchesAll, hslash]
    rw [List.cons_append, startsTag_cons, hclosing, Bool.or_false, ← startsTagName_eq]
    exact startsTagName_append hname c after
  | closing hname => exact startsTagName_append hname c after

/-- Where the scan finds a name, there is one. -/
theorem exists_name_of_startsTagName {cs : List Char} (h : startsTagName cs) :
    ∃ name c after, name.map Char.toLower = "script".toList ∧ endsTagName c ∧
      cs = name ++ c :: after := by
  simp only [startsTagName, Bool.and_eq_true, beq_iff_eq] at h
  obtain ⟨hname, hends⟩ := h
  obtain ⟨c, hc, hends⟩ := (Option.any_eq_true _ _).mp hends
  obtain ⟨after, hafter⟩ := List.head?_eq_some_iff.mp hc
  refine ⟨cs.take 6, c, after, hname, hends, ?_⟩
  rw [← hafter, List.take_append_drop]

/-- Where the scan finds a tag, there is one. -/
theorem exists_tagStart_of_startsTag {cs : List Char} (h : startsTag cs) :
    ∃ start c after, TagStart start ∧ endsTagName c ∧ cs = start ++ c :: after := by
  unfold startsTag at h
  split at h
  · obtain ⟨name, c, after, hname, hc, rfl⟩ := exists_name_of_startsTagName h
    exact ⟨_, c, after, .closing hname, hc, rfl⟩
  · obtain ⟨name, c, after, hname, hc, rfl⟩ := exists_name_of_startsTagName h
    exact ⟨_, c, after, .opening hname, hc, rfl⟩
  · cases h

/-- The scan finds the tags of a text. -/
theorem hasTag_iff_scriptTag {text : List Char} :
    hasTag text ↔ ∃ tag, ScriptTag tag ∧ tag <:+: text := by
  rw [hasTag_iff]
  constructor
  · rintro ⟨rest, ⟨before, rfl⟩, hrest⟩
    obtain ⟨start, c, after, hstart, hc, rfl⟩ := exists_tagStart_of_startsTag hrest
    exact ⟨start ++ [c], scriptTag_iff.mpr ⟨start, c, hstart, endsTagName_iff.mp hc, rfl⟩,
      before, after, by simp⟩
  · rintro ⟨tag, htag, before, after, rfl⟩
    obtain ⟨start, c, hstart, hc, rfl⟩ := scriptTag_iff.mp htag
    refine ⟨start ++ c :: after, ⟨before, by simp⟩, ?_⟩
    rw [hstart.startsTag_append]
    exact endsTagName_iff.mpr hc

/-- A text with a script tag in it is not safe. -/
theorem ScriptTag.hasTag {tag : List Char} (h : ScriptTag tag) {text : List Char}
    (hwithin : tag <:+: text) : hasTag text :=
  hasTag_iff_scriptTag.mpr ⟨tag, h, hwithin⟩

/-! ### Texts that can be inlined -/

/-- The text can stand in a script element as it is. -/
structure Inlinable (text : List Char) : Prop where
  ascii : ∀ c ∈ text, c.toNat < 128 ∧ c ≠ '\x00'
  tagless : ∀ tag, ScriptTag tag → ¬tag <:+: text

/-- A text is safe exactly if it can be inlined. -/
theorem isSafe_iff_inlinable {text : List Char} : isSafe text ↔ Inlinable text := by
  have htags : hasTag text = false ↔ ∀ tag, ScriptTag tag → ¬tag <:+: text := by
    rw [← Bool.not_eq_true, hasTag_iff_scriptTag]
    simp only [not_exists, not_and]
  simp only [isSafe, isPlainText, Bool.and_eq_true, Bool.not_eq_true', htags, List.all_eq_true,
    isPlain_iff]
  exact ⟨fun h => ⟨h.1, h.2⟩, fun h => ⟨h.ascii, h.tagless⟩⟩

theorem webSafe_eq_self_iff_inlinable {text : String} :
    webSafe text = text ↔ Inlinable text.toList :=
  webSafe_eq_self_iff.trans isSafe_iff_inlinable

theorem inlinable_webSafe (text : String) : Inlinable (webSafe text).toList :=
  isSafe_iff_inlinable.mp (isSafe_webSafe text)

/-! ### Text behind a `<`

A text that starts with `<` can only be where a `<` is.  Neither step of a spelling adds or removes
a `<`, so it is enough to see what stands behind each of them. -/

namespace Text

/-- Nothing starts in a part without the first character. -/
theorem cons_infix_append_iff {c : Char} {body cs : List Char} (h : c ∉ cs) (ds : List Char) :
    c :: body <:+: cs ++ ds ↔ c :: body <:+: ds := by
  induction cs with
  | nil => rfl
  | cons d cs ih =>
    simp only [List.mem_cons, not_or] at h
    rw [List.cons_append, List.infix_cons_iff, List.cons_prefix_cons, ih h.2]
    exact or_iff_right fun hprefix => h.1 hprefix.1

/-- A character that opens neither an escape nor a tag and is not escaped itself. -/
def isInert (c : Char) : Bool :=
  isPlain c && c != backslash && c != '<'

theorem isInert_iff {c : Char} : isInert c ↔ isPlain c ∧ c ≠ backslash ∧ c ≠ '<' := by
  simp [isInert, and_assoc]

/-- The text behind a `<` that a spelling keeps: it makes no tag of the `<`, whatever follows. -/
structure Kept (body : List Char) : Prop where
  inert : ∀ c ∈ body, isInert c
  /-- More than a slash, so that it does not end before the name of a tag. -/
  long : 1 < body.length
  startsTag_eq : ∀ rest, startsTag ('<' :: (body ++ rest)) = false

/-! ### Spelling in plain characters -/

/-- Where an escape starts, so does its spelling. -/
theorem exists_plainText_backslash (cs : List Char) :
    ∃ ds, plainText (backslash :: cs) = backslash :: ds := by
  cases cs with
  | nil => exact ⟨[], rfl⟩
  | cons d cs =>
    obtain ⟨ds, hds⟩ := exists_plainEscape_eq_cons d
    simp only [plainText, beq_self_eq_true, if_true, escapedSpelling]
    split
    · exact ⟨_, rfl⟩
    · split
      · exact ⟨_, rfl⟩
      · exact ⟨_, by rw [hds, List.cons_append]⟩

/-- Inert text is at the start of the spelling if it is at the start of the text. -/
theorem prefix_plainText_iff {body : List Char} (h : ∀ c ∈ body, isInert c) (cs : List Char) :
    body <+: plainText cs ↔ body <+: cs := by
  induction body generalizing cs with
  | nil => simp
  | cons b body ih =>
    obtain ⟨hb, hbody⟩ := List.forall_mem_cons.mp h
    obtain ⟨hplain, hback, -⟩ := isInert_iff.mp hb
    cases cs with
    | nil => rfl
    | cons c cs =>
      rw [List.cons_prefix_cons]
      by_cases hc : c = backslash
      · -- an escape stays one, and inert text does not start with it
        subst hc
        obtain ⟨ds, hds⟩ := exists_plainText_backslash cs
        rw [hds, List.cons_prefix_cons]
        exact iff_of_false (fun h => hback h.1) fun h => hback h.1
      · rw [plainText_cons hc]
        by_cases hc : isPlain c
        · rw [plainSpelling_of_isPlain hc, List.singleton_append, List.cons_prefix_cons, ih hbody]
        · obtain ⟨ds, hds⟩ := exists_plainEscape_eq_cons c
          rw [plainSpelling, if_neg hc, hds, List.cons_append, List.cons_prefix_cons]
          refine iff_of_false (fun h => hback h.1) fun h => hc ?_
          rw [← h.1]
          exact hplain

theorem lt_not_mem_plainEscape (c : Char) : '<' ∉ plainEscape c :=
  fun h => absurd (mem_plainEscape h) (by decide)

/-- An escape is spelled with the character in it, or with another escape. -/
theorem lt_cons_infix_escapedSpelling_append_iff {body : List Char} (c : Char) (ds : List Char) :
    '<' :: body <:+: escapedSpelling c ++ ds ↔ '<' :: body <:+: plainSpelling c ++ ds := by
  unfold escapedSpelling
  split
  · next hline =>
    have hspelling : '<' ∉ plainSpelling c := by
      simp only [isSeparatorLine, Bool.or_eq_true, beq_iff_eq] at hline
      rcases hline with rfl | rfl <;> decide
    rw [cons_infix_append_iff hspelling, cons_infix_append_iff (by decide)]
  · split
    · next hc =>
      have hback : '<' ∉ [backslash] := by decide
      rw [plainSpelling_of_isPlain hc]
      exact cons_infix_append_iff hback (c :: ds)
    · next hc => rw [plainSpelling, if_neg hc]

namespace Kept

variable {body : List Char} (h : Kept body)

include h

theorem infix_plainSpelling_append_iff (c : Char) {cs : List Char}
    (ih : '<' :: body <:+: plainText cs ↔ '<' :: body <:+: cs) :
    '<' :: body <:+: plainSpelling c ++ plainText cs ↔ '<' :: body <:+: c :: cs := by
  rw [List.infix_cons_iff, List.cons_prefix_cons, ← ih]
  by_cases hc : isPlain c
  · rw [plainSpelling_of_isPlain hc, List.singleton_append, List.infix_cons_iff,
      List.cons_prefix_cons, prefix_plainText_iff h.inert]
  · have hne : '<' ≠ c := by
      rintro rfl
      exact hc (by decide)
    rw [plainSpelling, if_neg hc, cons_infix_append_iff (lt_not_mem_plainEscape c)]
    exact (or_iff_right fun h => hne h.1).symm

/-- The first step keeps the text behind a `<`. -/
theorem infix_plainText_iff (cs : List Char) :
    '<' :: body <:+: plainText cs ↔ '<' :: body <:+: cs := by
  induction cs using plainText.induct with
  | case1 => rfl
  | case2 c =>
    have hnil : '<' :: body <:+: plainText [] ↔ '<' :: body <:+: [] := Iff.rfl
    simpa [plainText] using h.infix_plainSpelling_append_iff c hnil
  | case3 c d rest hc ih =>
    obtain rfl := beq_iff_eq.mp hc
    have hback : '<' ∉ [backslash] := by decide
    calc '<' :: body <:+: plainText (backslash :: d :: rest)
        ↔ '<' :: body <:+: escapedSpelling d ++ plainText rest := by simp [plainText]
      _ ↔ '<' :: body <:+: plainSpelling d ++ plainText rest :=
        lt_cons_infix_escapedSpelling_append_iff d _
      _ ↔ '<' :: body <:+: d :: rest := h.infix_plainSpelling_append_iff d ih
      _ ↔ '<' :: body <:+: backslash :: d :: rest := (cons_infix_append_iff hback _).symm
  | case4 c d rest hc ih =>
    rw [plainText, if_neg hc]
    exact h.infix_plainSpelling_append_iff c ih

end Kept

/-! ### Escaping tags -/

/-- A text matches the shape of its own characters. -/
theorem matchesAll_chars_iff {body cs : List Char} :
    matchesAll (body.map (· == ·)) cs ↔ body <+: cs := by
  induction body generalizing cs with
  | nil => simp [matchesAll]
  | cons b body ih =>
    cases cs with
    | nil => simp [matchesAll]
    | cons c cs => simp [matchesAll, List.cons_prefix_cons, ih]

/-- Inert text is at the start of the spelling if it is at the start of the text. -/
theorem prefix_escapeTags_iff {body : List Char} (h : ∀ c ∈ body, isInert c) (cs : List Char) :
    body <+: escapeTags cs ↔ body <+: cs := by
  have hshape : ∀ p ∈ body.map (· == ·), p '<' = false := by
    intro p hp
    obtain ⟨c, hc, rfl⟩ := List.mem_map.mp hp
    exact beq_false_of_ne (isInert_iff.mp (h c hc)).2.2
  rw [← matchesAll_chars_iff, matchesAll_escapeTags hshape, matchesAll_chars_iff]

/-- A tag has its first letter escaped, behind a slash if it is a closing one. -/
theorem exists_escapeTagName_eq {cs : List Char} (h : startsTag ('<' :: cs)) :
    ∃ slash letter rest, slash.length ≤ 1 ∧ '<' ∉ slash ++ [letter] ∧
      cs = slash ++ [letter] ++ rest ∧ escapeTagName cs = slash ++ byteEscape letter ++ rest := by
  obtain ⟨start, c, after, hstart, -, heq⟩ := exists_tagStart_of_startsTag h
  cases hstart with
  | opening hname =>
    obtain ⟨d, ds, rfl, hd⟩ := exists_name_eq_cons hname
    obtain rfl := (List.cons.inj heq).2
    have hd : d ≠ '/' ∧ '<' ≠ d := by
      constructor <;> rintro rfl <;> cases hd
    exact ⟨[], d, ds ++ c :: after, by simp, by simp [hd.2], rfl, by simp [escapeTagName, hd.1]⟩
  | closing hname =>
    obtain ⟨d, ds, rfl, hd⟩ := exists_name_eq_cons hname
    obtain rfl := (List.cons.inj heq).2
    have hd : '<' ≠ d := by
      rintro rfl
      cases hd
    exact ⟨['/'], d, ds ++ c :: after, by simp, by simp [hd], rfl, rfl⟩

namespace Kept

variable {body : List Char} (h : Kept body)

include h

/-- The text does not reach over the first character of an escape. -/
theorem not_prefix_of_backslash {slash : List Char} (hslash : slash.length ≤ 1) (ds : List Char) :
    ¬body <+: slash ++ backslash :: ds := by
  rintro ⟨rest, heq⟩
  have hshort : slash.length < body.length := Nat.lt_of_le_of_lt hslash h.long
  have hget : (body ++ rest)[slash.length]? = some backslash := by simp [heq]
  rw [List.getElem?_append_left hshort] at hget
  exact (isInert_iff.mp (h.inert _ (List.mem_of_getElem? hget))).2.1 rfl

/-- The second step keeps the text behind a `<`.  A tag is not that text, and escaping its first
letter puts no `<` anywhere. -/
theorem infix_escapeTags_iff (cs : List Char) :
    '<' :: body <:+: escapeTags cs ↔ '<' :: body <:+: cs := by
  induction cs with
  | nil => rfl
  | cons c cs ih =>
    by_cases htag : startsTag (c :: cs)
    · -- at a tag the text is on neither side, so only what follows the escaped letter counts
      obtain rfl : c = '<' := by
        by_cases hc : c = '<'
        · exact hc
        · rw [startsTag_cons_of_ne hc] at htag
          cases htag
      have hcs : ¬body <+: cs := by
        rintro ⟨rest, rfl⟩
        rw [h.startsTag_eq rest] at htag
        cases htag
      obtain ⟨slash, letter, rest, hslash, hlt, heq, hescaped⟩ :=
        exists_escapeTagName_eq ((startsTag_cons_escapeTags '<' cs).trans htag)
      have hno : '<' ∉ slash ++ byteEscape letter := by
        intro hmem
        rcases List.mem_append.mp hmem with hmem | hmem
        · exact hlt (List.mem_append_left _ hmem)
        · exact lt_not_mem_byteEscape letter hmem
      have hname : ¬body <+: slash ++ byteEscape letter ++ rest := by
        rw [List.append_assoc]
        exact h.not_prefix_of_backslash hslash _
      calc '<' :: body <:+: escapeTags ('<' :: cs)
          ↔ '<' :: body <:+: '<' :: (slash ++ byteEscape letter ++ rest) := by
            rw [escapeTags, if_pos htag, hescaped]
        _ ↔ '<' :: body <:+: slash ++ byteEscape letter ++ rest := by
            rw [List.infix_cons_iff, List.cons_prefix_cons]
            exact or_iff_right fun h => hname h.2
        _ ↔ '<' :: body <:+: rest := cons_infix_append_iff hno rest
        _ ↔ '<' :: body <:+: escapeTags cs := by rw [heq, cons_infix_append_iff hlt]
        _ ↔ '<' :: body <:+: cs := ih
        _ ↔ '<' :: body <:+: '<' :: cs := by
            rw [List.infix_cons_iff, List.cons_prefix_cons]
            exact (or_iff_right fun h => hcs h.2).symm
    · rw [escapeTags, if_neg htag, List.infix_cons_iff, List.infix_cons_iff, List.cons_prefix_cons,
        List.cons_prefix_cons, prefix_escapeTags_iff h.inert, ih]

theorem infix_webSafe_iff (text : String) :
    '<' :: body <:+: (webSafe text).toList ↔ '<' :: body <:+: text.toList := by
  rw [webSafe, String.toList_ofList, webSafeChars, h.infix_escapeTags_iff, h.infix_plainText_iff]

end Kept

/-! ### Tags before a line feed -/

/-- The letters of a name are inert. -/
theorem isInert_of_mem_name {name : List Char} (hname : name.map Char.toLower = "script".toList)
    {c : Char} (hc : c ∈ name) : isInert c := by
  have hlower : c.toLower ∈ "script".toList := hname ▸ List.mem_map_of_mem hc
  unfold Char.toLower at hlower
  split at hlower
  · next hupper =>
    have hge : 65 ≤ c.toNat := UInt32.le_iff_toNat_le.mp hupper.1
    have hle : c.toNat ≤ 90 := UInt32.le_iff_toNat_le.mp hupper.2
    refine isInert_iff.mpr ⟨isPlain_iff.mpr ⟨by omega, ?_⟩, ?_, ?_⟩ <;>
    · rintro rfl
      revert hge hle
      decide
  · have hall : "script".toList.all isInert := by decide
    exact List.all_eq_true.mp hall c hlower

end Text

/-- Before a line feed, the start of a tag is kept. -/
theorem TagStart.exists_kept {start : List Char} (h : TagStart start) :
    ∃ body, start ++ ['\n'] = '<' :: body ∧ Kept body := by
  have hline (rest : List Char) : startsTag (start ++ ['\n'] ++ rest) = false := by
    rw [List.append_assoc]
    exact h.startsTag_append '\n' rest
  have hinert {name : List Char} (hname : name.map Char.toLower = "script".toList) :
      ∀ c ∈ name ++ ['\n'], isInert c := by
    intro c hc
    rcases List.mem_append.mp hc with hc | hc
    · exact isInert_of_mem_name hname hc
    · obtain rfl := List.mem_singleton.mp hc
      decide
  cases h with
  | @opening name hname =>
    obtain ⟨d, ds, rfl, -⟩ := exists_name_eq_cons hname
    exact ⟨_, rfl, hinert hname, by simp, hline⟩
  | @closing name hname =>
    obtain ⟨d, ds, rfl, -⟩ := exists_name_eq_cons hname
    exact ⟨_, rfl, List.forall_mem_cons.mpr ⟨by decide, hinert hname⟩, by simp, hline⟩

/-- The characters that end the name of a tag in HTML: blanks, a slash and the end of the tag. -/
def htmlEnds : List Char :=
  ['\t', '\n', '\x0c', '\r', ' ', '/', '>']

/-- Of the tags that HTML reads, those in a web-safe spelling are the ones of the text that stand
before a line feed.  There is none before another character, and none at all if the text has none
before a line feed. -/
theorem tag_infix_webSafe_iff {start : List Char} (hstart : TagStart start) {c : Char}
    (hc : c ∈ htmlEnds) (text : String) :
    start ++ [c] <:+: (webSafe text).toList ↔ c = '\n' ∧ start ++ [c] <:+: text.toList := by
  by_cases hline : c = '\n'
  · subst hline
    obtain ⟨body, heq, hbody⟩ := hstart.exists_kept
    rw [heq, hbody.infix_webSafe_iff]
    exact (and_iff_right rfl).symm
  · have hends : c ∈ ['\t', '\r', '\x0c', ' ', '/', '>'] := by
      simp only [htmlEnds, List.mem_cons, List.not_mem_nil, or_false, hline, false_or] at hc ⊢
      rcases hc with rfl | rfl | rfl | rfl | rfl | rfl <;> decide
    have htag := scriptTag_iff.mpr ⟨start, c, hstart, hends, rfl⟩
    exact iff_of_false ((inlinable_webSafe text).tagless _ htag) fun h => hline h.1

/-- A closing tag before a line feed is kept, an opening one before a blank is not. -/
theorem tag_infix_webSafe_iff_both :
    let text := "<script src></SCRIPT\n>"
    TagStart "</SCRIPT".toList ∧ TagStart "<script".toList ∧
      "</SCRIPT".toList ++ ['\n'] <:+: (webSafe text).toList ∧
      ¬"<script".toList ++ [' '] <:+: (webSafe text).toList := by
  intro text
  have hclosing : TagStart "</SCRIPT".toList := .closing (by decide)
  have hopening : TagStart "<script".toList := .opening (by decide)
  refine ⟨hclosing, hopening, ?_, fun hwithin => ?_⟩
  · have hwithin : "</SCRIPT".toList ++ ['\n'] <:+: text.toList :=
      ⟨"<script src>".toList, ['>'], by decide⟩
    exact (tag_infix_webSafe_iff hclosing (by decide) text).mpr ⟨rfl, hwithin⟩
  · have hblank := (tag_infix_webSafe_iff hopening (by decide) text).mp hwithin
    exact absurd hblank.1 (by decide)

/-- A closing tag before a line feed is left in the spelling. -/
theorem not_tagless_webSafe :
    ¬∀ (text : String) (start : List Char) (c : Char), TagStart start → c ∈ htmlEnds →
      ¬start ++ [c] <:+: (webSafe text).toList := by
  intro h
  have hclosing : TagStart "</script".toList := .closing (by decide)
  have hsame : webSafe "</script\n>" = "</script\n>" := by decide
  refine h "</script\n>" "</script".toList '\n' hclosing (by decide) ⟨[], ['>'], ?_⟩
  rw [hsame]
  decide

end EcmaPrinter
