import EcmaPrinter.Proofs.Text.Tag
import EcmaPrinter.Proofs.Tree.Visits
import EcmaPrinter.Render

/-!
When rendering fails, and with which hazard.

A generator goes through a tree node by node.  It keeps at most one hazard, and that is the first
one in the order of the visit (`Generator.fold_hazard?`).  So a rendering for the web fails exactly
if there is an unsafe text in the tree that cannot be spelled in another way.  Since every rendering
forgets what an earlier one has left behind, a generator gives in any session the answers of new
ones (`Generator.run_eq_map`).

A text is tested by spelling it: it is refused if the spelling is another text.  That is so for all
texts but those that can be inlined, so the test can be stated without the spelling
(`webSafe_fixes_inlinable`).
-/

namespace EcmaPrinter

open EcmaPrinter.Text

/-! ### Hazards of nodes -/

/-- The node cannot be rendered for the web; the hazard is the first one in it.  A regular
expression has to be safe together with the slash behind it. -/
inductive Head.Refuses : Head → Hazard → Prop
  | regExp {pattern : String} {flags : RegExpFlags}
      (h : webSafe (pattern ++ "/") ≠ pattern ++ "/") :
      Refuses (.regExp pattern flags) (.regExp pattern)
  | template {before after : List String} {raw : String}
      (hbefore : ∀ text ∈ before, webSafe text = text)
      (h : webSafe raw ≠ raw) : Refuses (.template true (before ++ raw :: after)) (.template raw)

/-- A regular expression or a tagged template that has to be written as it is and is not safe. -/
inductive IsUnsafe : Node → Prop
  | regExp {pattern : String} {flags : RegExpFlags}
      (h : webSafe (pattern ++ "/") ≠ pattern ++ "/") : IsUnsafe ⟨_, .regExp pattern flags⟩
  | template {tag : Expression} {parts : Tree (.list .templatePart)} {raw : String}
      (hraw : raw ∈ parts.texts) (h : webSafe raw ≠ raw) :
      IsUnsafe ⟨_, .template (.present tag) parts⟩

/-- The first hazard of a node. -/
def Head.hazard? : Head → Option Hazard
  | .regExp pattern _ => if isWebSafe (pattern ++ "/") then none else some (.regExp pattern)
  | .template true texts => (texts.find? (!isWebSafe ·)).map .template
  | _ => none

theorem isWebSafe_eq_false_iff {text : String} : isWebSafe text = false ↔ webSafe text ≠ text :=
  beq_eq_false_iff_ne

theorem Head.hazard?_eq_some_iff {h : Head} {hazard : Hazard} :
    h.hazard? = some hazard ↔ h.Refuses hazard := by
  constructor
  · intro heq
    unfold hazard? at heq
    split at heq
    · next pattern flags =>
      split at heq
      · cases heq
      · next hunsafe =>
        obtain rfl := Option.some.inj heq
        exact .regExp (isWebSafe_eq_false_iff.mp (by simpa using hunsafe))
    · next texts =>
      obtain ⟨raw, hfind, rfl⟩ := Option.map_eq_some_iff.mp heq
      obtain ⟨hraw, before, after, rfl, hbefore⟩ := List.find?_eq_some_iff_append.mp hfind
      refine .template (fun text htext => ?_) (isWebSafe_eq_false_iff.mp (by simpa using hraw))
      simpa [isWebSafe] using hbefore text htext
    · cases heq
  · intro hrefuses
    cases hrefuses with
    | @regExp pattern _ hunsafe =>
      have hunsafe : isWebSafe (pattern ++ "/") = false := isWebSafe_eq_false_iff.mpr hunsafe
      simp [hazard?, hunsafe]
    | @template before after raw hbefore hunsafe =>
      have hfind : (before ++ raw :: after).find? (!isWebSafe ·) = some raw := by
        refine List.find?_eq_some_iff_append.mpr ⟨?_, before, after, rfl, fun text htext => ?_⟩
        · simpa [isWebSafe] using hunsafe
        · simpa [isWebSafe] using hbefore text htext
      simp [hazard?, hfind]

/-- A tagged template with an unsafe text in it has a first one. -/
theorem exists_refuses_template {texts : List String} {raw : String} (hraw : raw ∈ texts)
    (h : webSafe raw ≠ raw) : ∃ hazard, (Head.template true texts).Refuses hazard := by
  have hsome : (texts.find? (!isWebSafe ·)).isSome :=
    List.find?_isSome.mpr ⟨raw, hraw, by simpa [isWebSafe] using h⟩
  obtain ⟨first, hfirst⟩ := Option.isSome_iff_exists.mp hsome
  exact ⟨.template first, Head.hazard?_eq_some_iff.mp (by simp [Head.hazard?, hfirst])⟩

/-- The unsafe trees are those with a hazard in their heads. -/
theorem isUnsafe_iff {c : Category} {t : Tree c} :
    IsUnsafe ⟨c, t⟩ ↔ ∃ h ∈ t.head?, ∃ hazard, h.Refuses hazard := by
  constructor
  · intro hunsafe
    cases hunsafe with
    | regExp h => exact ⟨_, rfl, _, .regExp h⟩
    | template hraw h => exact ⟨_, rfl, exists_refuses_template hraw h⟩
  · rintro ⟨h, hhead, hazard, hrefuses⟩
    cases hrefuses with
    | @regExp pattern flags hunsafe =>
      cases t with
      | regExp =>
        cases hhead
        exact .regExp hunsafe
      | _ => cases hhead
    | @template before after raw hbefore hunsafe =>
      cases t with
      | template tag parts =>
        have hhead :
            Head.template tag.isPresent parts.texts = .template true (before ++ raw :: after) :=
          Option.some.inj hhead
        obtain ⟨htag, htexts⟩ := Head.template.inj hhead
        cases tag with
        | absent => cases htag
        | present tag =>
          have hraw : raw ∈ parts.texts := by simp [htexts]
          exact .template hraw hunsafe
      | _ => cases hhead

/-! ### One step of a generator -/

namespace Generator

variable (g : Generator)

@[simp] theorem fail_options (hazard : Hazard) : (g.fail hazard).options = g.options := by
  unfold fail
  split <;> rfl

@[simp] theorem fail_hazard? (hazard : Hazard) :
    (g.fail hazard).hazard? = g.hazard?.or (some hazard) := by
  unfold fail
  split <;> simp_all

@[simp] theorem require_options (text : String) (hazard : Hazard) :
    (g.require text hazard).options = g.options := by
  unfold require
  split <;> simp

theorem require_hazard? (text : String) (hazard : Hazard) :
    (g.require text hazard).hazard? =
      g.hazard?.or (if g.options.webSafe && !isWebSafe text then some hazard else none) := by
  unfold require
  split <;> simp

theorem foldl_require_options (texts : List String) :
    (texts.foldl (fun g raw => g.require raw (.template raw)) g).options = g.options := by
  induction texts generalizing g with
  | nil => rfl
  | cons raw texts ih => rw [List.foldl_cons, ih, require_options]

theorem foldl_require_hazard? (texts : List String) :
    (texts.foldl (fun g raw => g.require raw (.template raw)) g).hazard? =
      g.hazard?.or
        (if g.options.webSafe then (texts.find? (!isWebSafe ·)).map .template else none) := by
  induction texts generalizing g with
  | nil => simp
  | cons raw texts ih =>
    rw [List.foldl_cons, ih, require_hazard?, require_options]
    cases g.options.webSafe <;> cases hsafe : isWebSafe raw <;> simp [hsafe]

@[simp] theorem reduce_options (h : Head) : (g.reduce h).options = g.options := by
  unfold reduce
  split
  · exact require_options g _ _
  · exact foldl_require_options g _
  · rfl

/-- Looking at a node keeps the hazard that is there; only without one, the first of the node is
kept. -/
theorem reduce_hazard? (h : Head) :
    (g.reduce h).hazard? = g.hazard?.or (if g.options.webSafe then h.hazard? else none) := by
  unfold reduce Head.hazard?
  split
  · next pattern flags =>
    rw [require_hazard?]
    cases g.options.webSafe with
    | false => simp
    | true =>
      rw [Bool.true_and, if_pos rfl]
      show _ = g.hazard?.or (if isWebSafe (pattern ++ "/") then none else some (.regExp pattern))
      cases isWebSafe (pattern ++ "/") <;> rfl
  · next texts => exact foldl_require_hazard? g texts
  · simp

/-! ### Going through a tree -/

theorem foldl_reduce_options (hs : List Head) : (hs.foldl reduce g).options = g.options := by
  induction hs generalizing g with
  | nil => rfl
  | cons h hs ih => rw [List.foldl_cons, ih, reduce_options]

theorem foldl_reduce_hazard? (hs : List Head) :
    (hs.foldl reduce g).hazard? =
      g.hazard?.or (if g.options.webSafe then hs.findSome? Head.hazard? else none) := by
  induction hs generalizing g with
  | nil => simp
  | cons h hs ih =>
    rw [List.foldl_cons, ih, reduce_hazard?, reduce_options]
    cases g.options.webSafe <;> cases hh : h.hazard? <;> simp [hh]

/-- A tree is gone through part by part, and the node comes last. -/
theorem fold_eq_parts {c : Category} (t : Tree c) :
    g.fold t = t.head?.toList.foldl reduce (t.parts.foldl (fun g n => g.fold n.2) g) := by
  have hparts : g.steps (t.parts.flatMap (·.2.visit foldStep)) =
      t.parts.foldl (fun g n => g.fold n.2) g := List.foldl_flatMap
  unfold fold
  rw [Tree.visit_eq]
  cases t.head? with
  | none => exact hparts
  | some h => exact congrArg (reduce · h) hparts

/-- The generator looks at the nodes in the order of a visit. -/
theorem fold_eq_foldl {c : Category} (t : Tree c) :
    ∀ g : Generator, g.fold t = t.heads.foldl reduce g := by
  refine Tree.parts_induction
    (P := fun n => ∀ g : Generator, g.fold n.2 = n.2.heads.foldl reduce g) ?_ t
  intro c t ih g
  have hparts : ∀ (ns : List Node) (g : Generator), ns ⊆ t.parts →
      ns.foldl (fun g n => g.fold n.2) g = (ns.flatMap (·.2.heads)).foldl reduce g := by
    intro ns
    induction ns with
    | nil => exact fun g _ => rfl
    | cons n ns ihns =>
      intro g hns
      obtain ⟨hn, hns⟩ := List.cons_subset.mp hns
      rw [List.foldl_cons, ih n hn, ihns _ hns, List.flatMap_cons, List.foldl_append]
  rw [fold_eq_parts, hparts _ g (List.Subset.refl _), Tree.heads_eq, List.foldl_append]

theorem fold_options {c : Category} (t : Tree c) : (g.fold t).options = g.options := by
  rw [fold_eq_foldl, foldl_reduce_options]

/-- After a tree the generator has the first hazard of the visit, if it had none before. -/
theorem fold_hazard? {c : Category} (t : Tree c) :
    (g.fold t).hazard? =
      g.hazard?.or (if g.options.webSafe then t.heads.findSome? Head.hazard? else none) := by
  rw [fold_eq_foldl, foldl_reduce_hazard?]

/-! ### Sessions -/

/-- A call of a generator. -/
inductive Call where
  | program (p : Program)
  | expression (e : Expression)

/-- Make a call. -/
def call (g : Generator) : Call → Except Hazard String × Generator
  | .program p => g.program p
  | .expression e => g.expression e

/-- The answers to calls that are made one after the other. -/
def run (g : Generator) : List Call → List (Except Hazard String)
  | [] => []
  | c :: cs => (g.call c).1 :: (g.call c).2.run cs

theorem finish_options (code : Fragment) : (g.finish code).2.options = g.options := by
  unfold finish
  split <;> rfl

theorem call_options (c : Call) : (g.call c).2.options = g.options := by
  cases c with
  | program p => exact (finish_options _ _).trans (fold_options _ p)
  | expression e => exact (finish_options _ _).trans (fold_options _ e)

/-- A call does not see what an earlier one has left behind. -/
theorem call_eq_new (c : Call) : g.call c = ({ options := g.options } : Generator).call c := by
  cases c <;> rfl

/-- In a session each call has the answer of a new generator. -/
theorem run_eq_map (cs : List Call) :
    g.run cs = cs.map fun c => (({ options := g.options } : Generator).call c).1 := by
  induction cs generalizing g with
  | nil => rfl
  | cons c cs ih => rw [run, ih, call_options, List.map_cons, call_eq_new]

end Generator

/-! ### Failures -/

/-- The answer to a call: the hazard that was met, or else the text of the code. -/
def answer (o : Options) (code : Fragment) : Option Hazard → Except Hazard String
  | some hazard => .error hazard
  | none => .ok (code.render o.style)

theorem Generator.finish_answer (g : Generator) (code : Fragment) :
    (g.finish code).1 = answer g.options code g.hazard? := by
  unfold finish
  split <;> simp_all [answer]

/-- A rendering fails with the first hazard, and otherwise it gives the text of the code. -/
theorem Program.render_eq_answer (o : Options) (p : Program) :
    Program.render o p = answer o (Program.fragment o p)
      (if o.webSafe then p.heads.findSome? Head.hazard? else none) := by
  have hhazard := Generator.fold_hazard? { options := o } p
  rw [Option.none_or] at hhazard
  calc Program.render o p
      = answer (Generator.fold { options := o } p).options (Program.fragment o p)
          (Generator.fold { options := o } p).hazard? := Generator.finish_answer _ _
    _ = _ := by rw [hhazard, Generator.fold_options]

/-- There is a hazard among the nodes of a visit exactly if the tree has an unsafe node. -/
theorem Tree.exists_refuses_iff {c : Category} (t : Tree c) :
    (∃ h ∈ t.heads, ∃ hazard, h.Refuses hazard) ↔ ∃ n ∈ t.nodes, IsUnsafe n := by
  constructor
  · refine parts_induction
      (P := fun m =>
        (∃ h ∈ m.2.heads, ∃ hazard, h.Refuses hazard) → ∃ n ∈ m.2.nodes, IsUnsafe n) ?_ t
    rintro c t ih ⟨h, hh, hrefuses⟩
    rw [heads_eq, List.mem_append, List.mem_flatMap, Option.mem_toList] at hh
    rcases hh with ⟨m, hm, hh⟩ | hh
    · obtain ⟨n, hn, hunsafe⟩ := ih m hm ⟨h, hh, hrefuses⟩
      rcases nodes_of_mem_parts hm with hsubset | rfl
      · exact ⟨n, hsubset hn, hunsafe⟩
      · -- a name has no hazard
        obtain rfl := List.mem_singleton.mp hn
        cases hunsafe
    · exact ⟨⟨c, t⟩, t.self_mem_nodes, isUnsafe_iff.mpr ⟨h, hh, hrefuses⟩⟩
  · rintro ⟨n, hn, hunsafe⟩
    obtain ⟨h, hh, hrefuses⟩ := isUnsafe_iff.mp hunsafe
    refine ⟨h, (t.heads_infix n hn).subset ?_, hrefuses⟩
    rw [heads_eq]
    exact List.mem_append_right _ (Option.mem_toList.mpr hh)

/-- The first hazard of a visit: nodes that come before have none. -/
theorem findSome?_hazard?_eq_some_iff {hs : List Head} {hazard : Hazard} :
    hs.findSome? Head.hazard? = some hazard ↔ ∃ before h after, hs = before ++ h :: after ∧
      h.Refuses hazard ∧ ∀ k ∈ before, ∀ other, ¬k.Refuses other := by
  simp only [List.findSome?_eq_some_iff, Head.hazard?_eq_some_iff,
    Option.eq_none_iff_forall_ne_some, ne_eq]

theorem findSome?_hazard?_isSome_iff {hs : List Head} :
    (∃ hazard, hs.findSome? Head.hazard? = some hazard) ↔ ∃ h ∈ hs, ∃ hazard, h.Refuses hazard := by
  rw [← Option.isSome_iff_exists, List.findSome?_isSome_iff]
  simp only [Option.isSome_iff_exists, Head.hazard?_eq_some_iff]

/-- Without unsafe nodes, or not for the web, rendering gives the text of the code. -/
theorem Program.render_eq_ok_iff {o : Options} {p : Program} {text : String} :
    Program.render o p = .ok text ↔
      (o.webSafe → ∀ n ∈ p.nodes, ¬IsUnsafe n) ∧ (Program.fragment o p).render o.style = text := by
  have hnone : p.heads.findSome? Head.hazard? = none ↔ ∀ n ∈ p.nodes, ¬IsUnsafe n := by
    rw [← Option.not_isSome_iff_eq_none, Option.isSome_iff_exists, findSome?_hazard?_isSome_iff,
      p.exists_refuses_iff]
    push Not
    rfl
  rw [Program.render_eq_answer]
  cases o.webSafe with
  | false => simp [answer]
  | true =>
    simp only [if_true, forall_const]
    cases hhazard : p.heads.findSome? Head.hazard? with
    | none => simp [answer, ← hnone, hhazard]
    | some hazard => simp [answer, ← hnone, hhazard]

/-- Rendering fails for the web only, and there exactly if a regular expression or a text of a
tagged template is not safe as it stands.  The hazard is the first one in the order of a visit, in
which a node comes right behind everything inside of it.  In any session, and whatever the generator
has met before, each call has the answer of a new generator. -/
theorem fails_with_first_hazard (p : Program) :
    (∀ o : Options, o.webSafe = false → ∃ text, Program.render o p = .ok text) ∧
      (∀ o : Options, o.webSafe →
        ((∃ hazard, Program.render o p = .error hazard) ↔ ∃ n ∈ p.nodes, IsUnsafe n) ∧
          ∀ hazard, Program.render o p = .error hazard ↔
            ∃ before h after, p.heads = before ++ h :: after ∧ h.Refuses hazard ∧
              ∀ k ∈ before, ∀ other, ¬k.Refuses other) ∧
      (∀ n ∈ p.nodes, n.2.parts.flatMap (·.2.heads) ++ n.2.head?.toList <:+: p.heads) ∧
      ∀ (g : Generator) (calls : List Generator.Call),
        g.run calls = calls.map fun c => (({ options := g.options } : Generator).call c).1 := by
  refine ⟨fun o ho => ?_, fun o ho => ?_, fun n hn => ?_, Generator.run_eq_map⟩
  · rw [Program.render_eq_answer, ho]
    exact ⟨_, rfl⟩
  · have hrender (hazard : Hazard) :
        Program.render o p = .error hazard ↔ p.heads.findSome? Head.hazard? = some hazard := by
      rw [Program.render_eq_answer, if_pos ho]
      cases p.heads.findSome? Head.hazard? <;> simp [answer]
    simp only [hrender]
    exact ⟨findSome?_hazard?_isSome_iff.trans p.exists_refuses_iff,
      fun hazard => findSome?_hazard?_eq_some_iff⟩
  · rw [← Tree.heads_eq]
    exact p.heads_infix n hn

/-- In a tagged template with an unsafe text, an unsafe regular expression in a hole behind that
text comes first. -/
theorem fails_with_first_hazard_nested :
    let pattern : Expression := .regExp "<script>" ⟨false, false, false, false, false⟩
    let parts : Tree (.list .templatePart) :=
      .cons (.templateText "é") (.cons (.ofSubstitution pattern) .nil)
    let p : Program := .script .nil (.cons (.expressionStatement
      (.template (.present (.ofIdentifier (.identifier "tag"))) parts)) .nil)
    ({ webSafe := true } : Options).webSafe ∧
      Program.render { webSafe := true } p = .error (.regExp "<script>") := by
  intro pattern parts p
  refine ⟨rfl, (((fails_with_first_hazard p).2.1 _ rfl).2 _).mpr ?_⟩
  refine ⟨[.identifier "tag", .templateText "é"], _, _, rfl, .regExp (by decide), ?_⟩
  rintro k hk other ⟨⟩
  all_goals simp at hk

/-! ### Texts that are refused -/

theorem Head.refuses_regExp_iff {pattern : String} {flags : RegExpFlags} {hazard : Hazard} :
    (Head.regExp pattern flags).Refuses hazard ↔
      hazard = .regExp pattern ∧ ¬Inlinable (pattern ++ "/").toList := by
  rw [← webSafe_eq_self_iff_inlinable]
  constructor
  · rintro ⟨h⟩
    exact ⟨rfl, h⟩
  · rintro ⟨rfl, h⟩
    exact .regExp h

theorem Head.refuses_template_iff {texts : List String} {hazard : Hazard} :
    (Head.template true texts).Refuses hazard ↔ ∃ before raw after, texts = before ++ raw :: after ∧
      hazard = .template raw ∧ (∀ text ∈ before, Inlinable text.toList) ∧
        ¬Inlinable raw.toList := by
  simp only [← webSafe_eq_self_iff_inlinable]
  constructor
  · rintro ⟨⟩
    next hbefore h => exact ⟨_, _, _, rfl, rfl, hbefore, h⟩
  · rintro ⟨before, raw, after, rfl, rfl, hbefore, h⟩
    exact .template hbefore h

/-- For the web, a generator without a hazard takes one from a node exactly if the node has one. -/
theorem Generator.reduce_hazard?_eq_some_iff {g : Generator} (hweb : g.options.webSafe)
    (hnone : g.hazard? = none) {h : Head} {hazard : Hazard} :
    (g.reduce h).hazard? = some hazard ↔ h.Refuses hazard := by
  rw [reduce_hazard?, hnone, Option.none_or, if_pos hweb, Head.hazard?_eq_some_iff]

/-- Spelling for the web gives a text of ASCII characters without NUL, and spelling that again
changes nothing.  The texts that are spelled as they are, are those that can be inlined.  So a
regular expression is refused exactly if it cannot be inlined with the slash behind it, and a tagged
template because of the first of its texts that cannot. -/
theorem webSafe_fixes_inlinable (text : String) :
    (∀ c ∈ (webSafe text).toList, c.toNat < 128 ∧ c ≠ '\x00') ∧
      webSafe (webSafe text) = webSafe text ∧
      (webSafe text = text ↔ Inlinable text.toList) ∧
      ∀ g : Generator, g.options.webSafe → g.hazard? = none →
        (∀ flags hazard, (g.reduce (.regExp text flags)).hazard? = some hazard ↔
          hazard = .regExp text ∧ ¬Inlinable (text ++ "/").toList) ∧
        ∀ texts hazard, (g.reduce (.template true texts)).hazard? = some hazard ↔
          ∃ before raw after, texts = before ++ raw :: after ∧ hazard = .template raw ∧
            (∀ text ∈ before, Inlinable text.toList) ∧ ¬Inlinable raw.toList := by
  have hspelled := inlinable_webSafe text
  refine ⟨hspelled.ascii, webSafe_eq_self_iff_inlinable.mpr hspelled,
    webSafe_eq_self_iff_inlinable,
    fun g hweb hnone => ⟨fun flags hazard => ?_, fun texts hazard => ?_⟩⟩
  · exact (Generator.reduce_hazard?_eq_some_iff hweb hnone).trans Head.refuses_regExp_iff
  · exact (Generator.reduce_hazard?_eq_some_iff hweb hnone).trans Head.refuses_template_iff

/-- The start of a tag can be inlined, but not as the end of a regular expression. -/
theorem webSafe_fixes_inlinable_regExp :
    let g : Generator := { options := { webSafe := true } }
    let flags : RegExpFlags := ⟨true, false, false, false, false⟩
    g.options.webSafe ∧ g.hazard? = none ∧ Inlinable "<script".toList ∧
      ¬Inlinable "<script/".toList ∧
      (g.reduce (.regExp "<script" flags)).hazard? = some (.regExp "<script") := by
  intro g flags
  have hstart : Inlinable "<script".toList :=
    (webSafe_fixes_inlinable "<script").2.2.1.mp (by decide)
  have htag : ¬Inlinable "<script/".toList := fun h =>
    absurd ((webSafe_fixes_inlinable "<script/").2.2.1.mpr h) (by decide)
  have hrefused := (webSafe_fixes_inlinable "<script").2.2.2 g rfl rfl
  exact ⟨rfl, rfl, hstart, htag, (hrefused.1 flags _).mpr ⟨rfl, htag⟩⟩

end EcmaPrinter
