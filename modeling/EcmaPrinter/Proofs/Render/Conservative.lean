import EcmaPrinter.Proofs.Stream.Writing
import EcmaPrinter.Proofs.Tree.Inside
import EcmaPrinter.Proofs.Tree.Respelled

/-!
Rendering for the web changes nothing in a text that is safe anyway.

A plain text without `<` comes from pieces that are plain and without `<`, for every character of a
piece is in the text.  Such pieces are spelled as they are, so the web-safe code is the plain code.
The only other difference is a space behind `<`, and two streams that never see this character go on
side by side (`Simulation.emit`).
-/

namespace EcmaPrinter

open EcmaPrinter.Generate
open EcmaPrinter.Lexical
open EcmaPrinter.Text

/-! ### Streams side by side -/

/-- Two streams that are related stay so, whatever admitted piece is put to both. -/
structure Simulation (R : Stream → Stream → Prop) (admits : Piece → Prop) : Prop where
  putPiece : ∀ {s t p}, R s t → admits p → R (s.putPiece p) (t.putPiece p)
  newline : ∀ {s t}, R s t → R s.newline t.newline
  indent : ∀ {s t}, R s t → R s.indent t.indent
  dedent : ∀ {s t}, R s t → R s.dedent t.dedent
  size : ∀ {s t}, R s t → s.size = t.size

namespace Simulation

variable {R : Stream → Stream → Prop} {admits : Piece → Prop} {s t : Stream}

theorem putAll (sim : Simulation R admits) (h : R s t) {ps : List Piece}
    (hps : ∀ p ∈ ps, admits p) : R (s.putAll ps) (t.putAll ps) := by
  induction ps generalizing s t with
  | nil => exact h
  | cons p ps ih =>
    obtain ⟨hp, hps⟩ := List.forall_mem_cons.mp hps
    exact ih (sim.putPiece h hp) hps

theorem enclose (sim : Simulation R admits) (h : R s t) {opening closing : String}
    {ps : List Piece} {inner : Stream → Stream}
    (hinner : ∀ {s t}, R s t → (∀ p ∈ ps, admits p) → R (inner s) (inner t))
    (hps : ∀ p ∈ enclose opening closing ps, admits p) :
    R ((inner (s.put opening)).put closing) ((inner (t.put opening)).put closing) := by
  obtain ⟨hopening, hrest⟩ := List.forall_mem_cons.mp hps
  obtain ⟨hps, hclosing⟩ := List.forall_mem_append.mp hrest
  exact sim.putPiece (hinner (sim.putPiece h hopening) hps) (hclosing _ (List.mem_singleton_self _))

theorem wrap (sim : Simulation R admits) (w : Wrap) {inner : Bool → Stream → Stream}
    {ps : Bool → List Piece}
    (hinner : ∀ {s t} noIn, R s t → (∀ p ∈ ps noIn, admits p) → R (inner noIn s) (inner noIn t))
    (h : R s t) {noIn : Bool} (hps : ∀ p ∈ w.pieces ps noIn, admits p) :
    R (w.emit inner noIn s) (w.emit inner noIn t) := by
  cases w with
  | paren | bracket | brace => exact sim.enclose h (hinner false) hps
  | noIn => exact hinner true h hps
  | containsIn =>
    cases noIn
    · exact hinner false h hps
    · exact sim.enclose h (hinner false) hps
  | stringStatement =>
    obtain ⟨hps, hend⟩ := List.forall_mem_append.mp hps
    exact sim.putPiece (p := .statementEnd) (hinner noIn h hps) (hend _ (List.mem_singleton_self _))
  | line => exact hinner noIn (sim.newline h) hps
  | indent =>
    have hbody := sim.dedent (hinner noIn (sim.indent h) hps)
    simp only [Wrap.emit, sim.size h, sim.size hbody]
    split
    · exact sim.newline hbody
    · exact hbody

end Simulation

mutual

/-- Two streams that are related stay so while a fragment is written to both. -/
theorem Simulation.emit {R : Stream → Stream → Prop} {admits : Piece → Prop}
    (sim : Simulation R admits) : ∀ (f : Fragment) {noIn : Bool} {s t : Stream}, R s t →
      (∀ p ∈ f.pieces noIn, admits p) → R (f.emit noIn s) (f.emit noIn t)
  | .atom _ a, _, s, t, h, hps => by
    rw [Fragment.emit, Fragment.emit, a.emit_eq_putAll, a.emit_eq_putAll]
    exact sim.putAll h hps
  | .wrap _ w f, _, _, _, h, hps => by
    rw [Fragment.emit, Fragment.emit]
    exact sim.wrap w (fun _ => Simulation.emit sim f) h hps
  | .series _ j fs, _, _, _, h, hps => by
    rw [Fragment.emit, Fragment.emit]
    exact Simulation.emitSeries sim j fs h hps
  | .declared _ l, _, _, _, h, hps => by
    rw [Fragment.emit, Fragment.emit]
    exact Simulation.emit sim l h hps
  | .initialized _ l r, _, _, _, h, hps => by
    obtain ⟨hl, hr⟩ := List.forall_mem_append.mp hps
    obtain ⟨hoperator, hr⟩ := List.forall_mem_cons.mp hr
    rw [Fragment.emit, Fragment.emit]
    exact Simulation.emit sim r (sim.putPiece (Simulation.emit sim l h hl) hoperator) hr

theorem Simulation.emitSeries {R : Stream → Stream → Prop} {admits : Piece → Prop}
    (sim : Simulation R admits) (j : Joint) : ∀ (fs : List Fragment) {noIn : Bool} {s t : Stream},
      R s t → (∀ p ∈ Fragment.seriesPieces j fs noIn, admits p) →
        R (Fragment.emitSeries j fs noIn s) (Fragment.emitSeries j fs noIn t)
  | [], _, _, _, h, _ => h
  | f :: fs, _, _, _, h, hps => by
    obtain ⟨hf, hfs⟩ := List.forall_mem_append.mp hps
    rw [Fragment.emitSeries, Fragment.emitSeries]
    exact Simulation.emitRest sim j fs (Simulation.emit sim f h hf) hfs

theorem Simulation.emitRest {R : Stream → Stream → Prop} {admits : Piece → Prop}
    (sim : Simulation R admits) (j : Joint) : ∀ (fs : List Fragment) {noIn : Bool} {s t : Stream},
      R s t → (∀ p ∈ Fragment.restPieces j fs noIn, admits p) →
        R (Fragment.emitRest j fs noIn s) (Fragment.emitRest j fs noIn t)
  | [], _, _, _, h, _ => h
  | f :: fs, _, _, _, h, hps => by
    obtain ⟨hj, hrest⟩ := List.forall_mem_append.mp hps
    obtain ⟨hf, hfs⟩ := List.forall_mem_append.mp hrest
    rw [Fragment.emitRest, Fragment.emitRest, j.emit_eq_putAll, j.emit_eq_putAll]
    exact Simulation.emitRest sim j fs (Simulation.emit sim f (sim.putAll h hj) hf) hfs

end

/-! ### Streams for the web -/

namespace Stream

/-- The stream with web-safe spacing. -/
def forWeb (s : Stream) : Stream :=
  { s with style := { s.style with webSafe := true } }

/-- The second stream is the first one with web-safe spacing, and no `<` is in sight. -/
structure IsForWeb (s t : Stream) : Prop where
  eq : t = s.forWeb
  last : s.last ≠ '<'

variable {s t : Stream}

theorem leadIn_forWeb (h : s.last ≠ '<') (cs : List Char) : s.forWeb.leadIn cs = s.leadIn cs := by
  have hlast : (s.settle cs).last ≠ '<' := by
    rw [settle_eq]
    dsimp only
    split
    · decide
    · exact h
  have hsettle : s.forWeb.settle cs = (s.settle cs).forWeb := by
    rw [settle_eq, settle_eq]
    rfl
  have hspace (c : Char) (ds : List Char) :
      (s.settle cs).forWeb.needsSpace c ds = (s.settle cs).needsSpace c ds := by
    have htag : makesTag (s.settle cs).last c = false := by simp [makesTag, hlast]
    have htag' : makesTag (s.settle cs).forWeb.last c = false := htag
    simp only [needsSpace, htag, htag', Bool.and_false]
    rfl
  unfold leadIn leadChars
  rw [hsettle, hspace]
  rfl

theorem IsForWeb.write (h : IsForWeb s t) {cs : List Char} (hcs : '<' ∉ cs) :
    IsForWeb (s.write cs) (t.write cs) := by
  obtain ⟨rfl, hlast⟩ := h
  cases hlast? : cs.getLast? with
  | none =>
    simp only [Stream.write, hlast?]
    exact ⟨rfl, hlast⟩
  | some c =>
    rw [write_eq hlast?, write_eq hlast?]
    exact ⟨rfl, fun heq => hcs (heq ▸ List.mem_of_getLast? hlast?)⟩

theorem IsForWeb.put (h : IsForWeb s t) {text : String} (htext : '<' ∉ text.toList) :
    IsForWeb (s.put text) (t.put text) := by
  obtain ⟨rfl, hlast⟩ := h
  unfold Stream.put
  cases hlast? : text.toList.getLast? with
  | none =>
    rw [List.getLast?_eq_none_iff.mp hlast?]
    exact ⟨rfl, hlast⟩
  | some c =>
    rw [putChars_eq_leadIn _ hlast?, putChars_eq_leadIn _ hlast?, leadIn_forWeb hlast]
    exact ⟨rfl, fun heq => htext (heq ▸ List.mem_of_getLast? hlast?)⟩

theorem IsForWeb.pad (h : IsForWeb s t) : IsForWeb s.pad t.pad := by
  have hlast : t.last = s.last := by rw [h.eq]; rfl
  unfold Stream.pad
  rw [hlast]
  split
  · exact h
  · exact h.write (by decide)

theorem IsForWeb.putPiece (h : IsForWeb s t) {p : Piece} (hp : '<' ∉ p.text s.style) :
    IsForWeb (s.putPiece p) (t.putPiece p) := by
  have hpretty : t.style.isPretty = s.style.isPretty := by rw [h.eq]; rfl
  cases p with
  | token text => exact h.put hp
  | semicolon => exact h.put hp
  | raw text =>
    obtain ⟨rfl, hlast⟩ := h
    simp only [Stream.putPiece, putRaw]
    split <;> exact ⟨rfl, hlast⟩
  | number x =>
    have htext : numberText t.style x = numberText s.style x := by rw [h.eq]; rfl
    simp only [Piece.text] at hp
    simp only [Stream.putPiece, putNumber]
    split
    · next hnan =>
      rw [if_pos hnan] at hp
      exact h.put hp
    · next hnan =>
      rw [if_neg hnan] at hp
      have hput : IsForWeb (s.put (numberText s.style x)) (t.put (numberText s.style x)) := h.put hp
      rw [htext]
      obtain ⟨heq, hlast⟩ := hput
      rw [heq]
      exact ⟨rfl, hlast⟩
  | operator text =>
    simp only [Stream.putPiece, putOperator_eq, hpretty]
    split
    · exact (h.pad.put hp).write (by decide)
    · exact h.put hp
  | comma =>
    have hput : IsForWeb (s.put ",") (t.put ",") := h.put (by decide)
    simp only [Stream.putPiece, putSeparator, style_put, hpretty]
    split
    · exact hput.write (by decide)
    · exact hput
  | statementEnd =>
    simp only [Stream.putPiece, endStatement, hpretty]
    split
    · exact h.put (by decide)
    · obtain ⟨rfl, hlast⟩ := h
      exact ⟨rfl, hlast⟩

theorem newline_forWeb (s : Stream) : s.forWeb.newline = s.newline.forWeb := by
  obtain ⟨⟨indent?, hex, webSafe⟩, text, last, number?, pending, depth, lineBreak?⟩ := s
  cases indent? with
  | none => rfl
  | some width =>
    show (if text.isEmpty then _ else _) = (if text.isEmpty then _ else _ : Stream).forWeb
    split
    · rfl
    · cases lineBreak? <;> rfl

theorem IsForWeb.newline (h : IsForWeb s t) : IsForWeb s.newline t.newline := by
  obtain ⟨rfl, hlast⟩ := h
  refine ⟨newline_forWeb s, ?_⟩
  unfold Stream.newline
  split
  · exact hlast
  · split
    · exact hlast
    · show (if _ then '\n' else ' ') ≠ '<'
      split <;> decide

/-- A stream for the web goes on like one of another style, as long as no `<` comes. -/
theorem simulation_forWeb (style : Style) :
    Simulation (fun s t => IsForWeb s t ∧ s.style = style) (fun p => '<' ∉ p.text style) where
  putPiece := by
    rintro s t p ⟨h, rfl⟩ hp
    exact ⟨h.putPiece hp, (keeps_putPiece s p).style⟩
  newline := by
    rintro s t ⟨h, rfl⟩
    exact ⟨h.newline, (keeps_newline s).style⟩
  indent := by
    rintro s t ⟨⟨rfl, hlast⟩, rfl⟩
    exact ⟨⟨rfl, hlast⟩, rfl⟩
  dedent := by
    rintro s t ⟨⟨rfl, hlast⟩, rfl⟩
    exact ⟨⟨rfl, hlast⟩, rfl⟩
  size := by
    rintro s t ⟨⟨rfl, -⟩, -⟩
    rfl

end Stream

theorem Fragment.render_forWeb {f : Fragment} {style : Style}
    (h : ∀ p ∈ f.pieces false, '<' ∉ p.text style) :
    f.render { style with webSafe := true } = f.render style := by
  have hstart : Stream.IsForWeb { style := style } { style := { style with webSafe := true } } :=
    ⟨rfl, (by decide : '\x00' ≠ '<')⟩
  obtain ⟨⟨heq, -⟩, -⟩ := (Stream.simulation_forWeb style).emit f ⟨hstart, rfl⟩ h
  unfold Fragment.render
  rw [heq]
  rfl

/-! ### Plain texts -/

/-- Is the character plain, and no start of a tag? -/
def isHarmless (c : Char) : Bool :=
  isPlain c && c != '<'

theorem isVisible_of_isHarmless {c : Char} (h : isHarmless c = false) : Stream.isVisible c := by
  unfold Stream.isVisible
  rw [Bool.and_eq_true, bne_iff_ne, bne_iff_ne]
  constructor <;> rintro rfl <;> exact absurd h (by decide)

/-- A harmless text comes from harmless pieces. -/
theorem Fragment.isHarmless_of_mem_pieces {f : Fragment} {style : Style}
    (h : ∀ c ∈ (f.render style).toList, isHarmless c) {p : Piece} (hp : p ∈ f.pieces false) :
    ∀ c ∈ p.text style, isHarmless c := by
  intro c hc
  by_contra hharm
  have hend : p ≠ .statementEnd := by
    rintro rfl
    obtain rfl := List.mem_singleton.mp hc
    exact hharm rfl
  have hlays := f.lays_emit false { style := style }
  have hstart : ({ style := style } : Stream).EndsInBreak := nofun
  have hmem : c ∈ (f.emit false { style := style }).text := by
    refine hlays.mem_text hstart ?_ hend hc (isVisible_of_isHarmless (by simpa using hharm))
    rwa [f.pieces_events]
  refine hharm (h c ?_)
  simpa [Fragment.render, Stream.toString] using hmem

theorem isSafe_of_isHarmless {cs : List Char} (h : ∀ c ∈ cs, isHarmless c) : isSafe cs := by
  refine isSafe_of_not_mem (List.all_eq_true.mpr fun c hc => ?_) fun hmem => ?_
  · exact (Bool.and_eq_true_iff.mp (h c hc)).1
  · exact absurd (h _ hmem) (by decide)

theorem Piece.safe_eq_self {p : Piece} {style : Style} (h : ∀ c ∈ p.text style, isHarmless c) :
    p.safe = p := by
  cases p with
  | token text => exact congrArg Piece.token (webSafe_eq_self_iff.mpr (isSafe_of_isHarmless h))
  | raw text => exact congrArg Piece.raw (webSafe_eq_self_iff.mpr (isSafe_of_isHarmless h))
  | operator text =>
    exact congrArg Piece.operator (webSafe_eq_self_iff.mpr (isSafe_of_isHarmless h))
  | number | comma | semicolon | statementEnd => rfl

/-! ### Programs -/

/-- The texts of a template are among its pieces, as they are if it has a tag. -/
theorem raw_mem_template (spell : String → String) (e : Operand) {parts : List Chunk} {raw : String}
    (h : Chunk.text raw ∈ parts) (noIn : Bool) :
    .raw raw ∈ (Generate.template spell (some e) parts).pieces noIn := by
  have hcode : Fragment.raw raw ∈ parts.flatMap (·.code spell true) :=
    List.mem_flatMap.mpr ⟨.text raw, h, List.mem_singleton_self _⟩
  simp only [Generate.template, Fragment.pieces_withMarks, Fragment.pieces_sequence,
    Option.isSome_some]
  refine List.mem_flatMap.mpr ⟨.raw raw, ?_, List.mem_singleton_self _⟩
  exact List.mem_cons_of_mem _ (List.mem_cons_of_mem _ (List.mem_append_left _ hcode))

/-- An unsafe node has a piece that is not harmless. -/
theorem IsUnsafe.exists_piece {p : Program} {n : Node} (hn : n ∈ p.nodes) (h : IsUnsafe n)
    (style : Style) :
    ∃ q ∈ (p.code id).pieces false, ¬∀ c ∈ q.text style, isHarmless c := by
  have hwrites := Program.writes_nodes id p n hn
  cases h with
  | @regExp pattern flags hunsafe =>
    obtain ⟨noIn, hoccurs⟩ := Fragment.Writes.occurs hwrites rfl false
    refine ⟨_, hoccurs.subset (List.mem_singleton_self _), fun hharmless => hunsafe ?_⟩
    refine webSafe_eq_self_iff.mpr (isSafe_of_isHarmless fun c hc => hharmless c ?_)
    simp only [Piece.text, charsOf, String.toList_ofList]
    simp only [String.toList_append, List.mem_append] at hc
    rcases hc with hc | hc
    · exact List.mem_cons_of_mem _ (List.mem_append_left _ hc)
    · obtain rfl : c = '/' := by simpa using hc
      exact List.mem_cons_self
  | @template tag parts raw hraw hunsafe =>
    obtain ⟨noIn, hoccurs⟩ := Fragment.Writes.occurs hwrites rfl false
    have hmem := raw_mem_template id (tag.code id) ((text_mem_code_iff id raw parts).mpr hraw) noIn
    refine ⟨_, hoccurs.subset hmem, fun hharmless => hunsafe ?_⟩
    exact webSafe_eq_self_iff.mpr (isSafe_of_isHarmless hharmless)

/-- Rendering for the web is conservative: a plain text without `<` is rendered in the same way. -/
theorem render_forWeb_eq (o : Options) (p : Program) (text : String) (ho : o.webSafe = false)
    (h : Program.render o p = .ok text)
    (htext : ∀ c ∈ text.toList, c.toNat < 128 ∧ c ≠ '\x00' ∧ c ≠ '<') :
    Program.render { o with webSafe := true } p = .ok text := by
  obtain ⟨-, rfl⟩ := Program.render_eq_ok_iff.mp h
  have hspell : ({ o with webSafe := true } : Options).spell = webSafe := by
    funext text
    rfl
  simp only [Program.fragment, Options.spell_eq_id ho] at htext ⊢
  have hpieces : ∀ q ∈ (p.code id).pieces false, ∀ c ∈ q.text o.style, isHarmless c := by
    refine fun q hq => Fragment.isHarmless_of_mem_pieces (fun c hc => ?_) hq
    obtain ⟨hascii, hnul, htag⟩ := htext c hc
    simp [isHarmless, isPlain, isAscii, hascii, hnul, htag]
  have hsafe : ∀ n ∈ p.nodes, ¬IsUnsafe n := by
    intro n hn hunsafe
    obtain ⟨q, hq, hharm⟩ := hunsafe.exists_piece hn o.style
    exact hharm (hpieces q hq)
  have hcode : p.code webSafe = p.code id := by
    refine (Tree.code_webSafe p hsafe).trans ?_
    exact Fragment.safe_eq_self _ false fun q hq => Piece.safe_eq_self (hpieces q hq)
  refine Program.render_eq_ok_iff.mpr ⟨fun _ => hsafe, ?_⟩
  rw [Program.fragment, hspell, hcode]
  refine @Fragment.render_forWeb (p.code id) o.style fun q hq hmem => ?_
  exact absurd (hpieces q hq _ hmem) (by decide)

/-- A script with escapes in a string, a regular expression and a tagged template. -/
theorem render_forWeb_eq_escapes :
    let pattern : Expression := .regExp "\\u00e9" ⟨true, false, false, false, false⟩
    let parts : Tree (.list .templatePart) :=
      .cons (.templateText "\\x3c") (.cons (.ofSubstitution pattern) .nil)
    let p : Program := .script (.cons (.directive "use strict") .nil)
      (.cons (.expressionStatement (.template (.present (.ofIdentifier (.identifier "tag"))) parts))
        (.cons (.expressionStatement (.string "a\\b")) .nil))
    let text := "\"use strict\";\ntag\x60\\x3c$\x7b/\\u00e9/g\x7d\x60;\n\"a\\\\b\";"
    Program.render { pretty := true } p = .ok text ∧
      Program.render { pretty := true, webSafe := true } p = .ok text := by
  intro pattern parts p text
  have h : Program.render { pretty := true } p = .ok text :=
    Program.render_eq_ok_iff.mpr ⟨nofun, by decide⟩
  have htext : text.toList.all fun c => c.toNat < 128 ∧ c ≠ '\x00' ∧ c ≠ '<' := by decide
  exact ⟨h, render_forWeb_eq { pretty := true } p text rfl h (by simpa using htext)⟩

end EcmaPrinter
