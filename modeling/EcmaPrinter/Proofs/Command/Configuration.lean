import EcmaPrinter.Command.Run
import EcmaPrinter.Proofs.Tree.Root
import Mathlib

/-!
What configurations and programs stand for.

`ConfigOf` says which options a JSON value stands for, setting by setting, and `Tree.ofJson?` which
program.  How a text becomes a JSON value is up to whoever reads it; a decoder reads by such a
function if it agrees with both (`Decoder.Reads`).  The decoder of the program does
(`Decoder.json_reads`).
-/

namespace EcmaPrinter.Command

open EcmaPrinter.Json
open EcmaPrinter.Number

/-! ### Settings -/

/-- The value of a setting, from the values that were given for it: the default one if there is
none, and the only one otherwise. -/
inductive Setting {α : Type} (Is : Json → α → Prop) (default : α) : List Json → α → Prop where
  | absent : Setting Is default [] default
  | given {j : Json} {v : α} (hv : Is j v) : Setting Is default [j] v

/-- The value is a Boolean. -/
def IsBool (j : Json) (b : Bool) : Prop :=
  j = .bool b

/-- The value is a natural of 64 bits, written with digits alone. -/
def IsWord (j : Json) (n : Nat) : Prop :=
  j = .ofNat n ∧ n < 2 ^ 64

/-- The options that members stand for. -/
structure OptionsFrom (ms : List (String × Json)) (o : Options) : Prop where
  pretty : Setting IsBool false (valuesOf "pretty" ms) o.pretty
  indent : Setting IsWord 2 (valuesOf "indent" ms) o.indent
  hexLargeIntegers : Setting IsBool true (valuesOf "hexLargeIntegers" ms) o.hexLargeIntegers
  webSafe : Setting IsBool false (valuesOf "webSafe" ms) o.webSafe

/-- The options that a value stands for: an object, or an array with the settings in order. -/
def OptionsOf (j : Json) (o : Options) : Prop :=
  ∃ ms, fieldsOf? ["pretty", "indent", "hexLargeIntegers", "webSafe"] j = some ms ∧
    OptionsFrom ms o

/-- The options that a configuration stands for: those of its only setting. -/
def ConfigOf (j : Json) (c : Options) : Prop :=
  ∃ ms, fieldsOf? ["codegen"] j = some ms ∧ Setting OptionsOf {} (valuesOf "codegen" ms) c

/-! ### Decoders -/

/-- The decoder reads JSON, where `value?` gives the value that a text stands for: options are
those of the value, and so are programs.  A configuration may have parts that are not used, and in
these it may be no JSON; such texts are left to the decoder. -/
structure Decoder.Reads (d : Decoder) (value? : String → Option Json) : Prop where
  config : ∀ {text j}, value? text = some j → ∀ {c}, d.config text = .ok c ↔ ConfigOf j c
  program : ∀ {text p}, d.program text = .ok p ↔
    ∃ j, value? text = some j ∧ Tree.ofJson? .program j = some p

/-! ### Records and their settings -/

theorem valuesOf_cons_self (key : String) (j : Json) (ms : List (String × Json)) :
    valuesOf key ((key, j) :: ms) = j :: valuesOf key ms := by
  simp [valuesOf]

theorem valuesOf_cons_of_ne {name key : String} (h : name ≠ key) (j : Json)
    (ms : List (String × Json)) : valuesOf name ((key, j) :: ms) = valuesOf name ms := by
  simp [valuesOf, Ne.symm h]

section

variable {σ α : Type} {names seen seen' : List String} {R : String → Json → σ → σ → Prop}
  {name : String} {s s' : σ} {ms : List (String × Json)} {Is : Json → α → Prop}

/-- A setting has one value. -/
theorem Setting.unique {default v v' : α} {values : List Json} (h : Setting Is default values v)
    (h' : Setting Is default values v') (hIs : ∀ j v v', Is j v → Is j v' → v = v') : v = v' := by
  cases h with
  | absent =>
    cases h' with
    | absent => rfl
  | given hv =>
    cases h' with
    | given hv' => exact hIs _ _ _ hv hv'

/-- What the steps of a record make of a field that no other field sets: nothing if it was given
before, and otherwise the setting. -/
theorem setting_of_steps (h : Steps (RecordStep names R) (seen, s) ms (seen', s'))
    (hname : name ∈ names) (get : σ → α)
    (hR : ∀ {key j s s'}, key ∈ names → R key j s s' →
      (key = name → Is j (get s')) ∧ (key ≠ name → get s' = get s)) :
    (name ∈ seen → valuesOf name ms = [] ∧ get s' = get s) ∧
      (name ∉ seen → Setting Is (get s) (valuesOf name ms) (get s')) := by
  induction ms generalizing seen s with
  | nil =>
    cases h
    exact ⟨fun _ => ⟨rfl, rfl⟩, fun _ => .absent⟩
  | cons m ms ih =>
    obtain ⟨t, hstep, hsteps⟩ := h
    cases hstep with
    | @sets _ _ t key j hkey hnew hset =>
      obtain ⟨hseen, hunseen⟩ := ih hsteps
      by_cases hne : name = key
      · -- from here on the field counts as given, so this is its only value
        subst hne
        refine ⟨fun hmem => absurd hmem hnew, fun _ => ?_⟩
        obtain ⟨hvalues, hget⟩ := hseen (.head _)
        rw [valuesOf_cons_self, hvalues, hget]
        exact .given ((hR hkey hset).1 rfl)
      · rw [valuesOf_cons_of_ne hne, ← (hR hkey hset).2 (Ne.symm hne)]
        have hmem : name ∈ key :: seen ↔ name ∈ seen := by simp [hne]
        exact ⟨fun h => hseen (hmem.mpr h), fun h => hunseen (fun h' => h (hmem.mp h'))⟩
    | @skips _ key j hkey =>
      have hne : name ≠ key := fun heq => hkey (heq ▸ hname)
      rw [valuesOf_cons_of_ne hne]
      exact ih hsteps

/-- There are steps through the members if no field is given twice, or with a value that it does not
take. -/
theorem exists_steps (hok : ∀ name ∈ names, valuesOf name ms = [] ∨
      name ∉ seen ∧ ∃ j, valuesOf name ms = [j] ∧ ∀ s, ∃ s', R name j s s') :
    ∃ st, Steps (RecordStep names R) (seen, s) ms st := by
  induction ms generalizing seen s with
  | nil => exact ⟨_, rfl⟩
  | cons m ms ih =>
    obtain ⟨key, j⟩ := m
    by_cases hkey : key ∈ names
    · rcases hok key hkey with hvalues | ⟨hnew, k, hvalues, hset⟩
      · rw [valuesOf_cons_self] at hvalues
        cases hvalues
      · rw [valuesOf_cons_self] at hvalues
        obtain ⟨rfl, hnone⟩ := List.cons.inj hvalues
        obtain ⟨t, ht⟩ := hset s
        obtain ⟨st, hsteps⟩ := @ih (key :: seen) t fun name hname => by
          by_cases hne : name = key
          · exact .inl (hne ▸ hnone)
          · have hother := hok name hname
            rw [valuesOf_cons_of_ne hne] at hother
            exact hother.imp_right fun ⟨hseen, h⟩ => ⟨by simp [hne, hseen], h⟩
        exact ⟨st, _, .sets hkey hnew ht, hsteps⟩
    · obtain ⟨st, hsteps⟩ := @ih seen s fun name hname => by
        have hne : name ≠ key := fun heq => hkey (heq ▸ hname)
        have hother := hok name hname
        rwa [valuesOf_cons_of_ne hne] at hother
      exact ⟨st, _, .skips hkey, hsteps⟩

/-- A setting satisfies what steps need of it. -/
theorem Setting.values_ok {default v : α} {values : List Json} (h : Setting Is default values v)
    (hset : ∀ {j v}, Is j v → ∀ s : σ, ∃ s', R name j s s') :
    values = [] ∨ name ∉ [] ∧ ∃ j, values = [j] ∧ ∀ s, ∃ s', R name j s s' := by
  cases h with
  | absent => exact .inl rfl
  | given hv => exact .inr ⟨List.not_mem_nil, _, rfl, hset hv⟩

end

/-! ### The readers -/

theorem interprets_readBool (depth : Nat) : Interprets depth readBool IsBool := by
  refine (interprets_readOnly (fun _ => rfl) (fun _ => rfl) depth).congr fun j b => ?_
  cases j <;> simp [bool?, IsBool]

/-- A number that is read as whole has no exponent. -/
theorem exponent_eq_zero_of_readScalar {p : Policy} {c : Char} {text rest : List Char}
    {d : Decimal} (h : readScalar p c text = .ok (.number d true, rest)) : d.exponent = 0 := by
  have hnumber {negative : Bool} {text : List Char}
      (h : readNumber p negative text = .ok (.number d true, rest)) : d.exponent = 0 := by
    obtain ⟨⟨whole, _⟩, -, h⟩ := bind_eq_ok.mp h
    obtain ⟨⟨part?, _⟩, -, h⟩ := bind_eq_ok.mp h
    obtain ⟨⟨power?, _⟩, -, h⟩ := bind_eq_ok.mp h
    simp only at h
    split at h
    · cases h
    · obtain ⟨hd, hwhole⟩ := Json.number.inj (Prod.mk.inj (Except.ok.inj h)).1
      obtain ⟨hpart, hpower⟩ := (Bool.and_eq_true _ _).mp hwhole
      rw [← hd, Option.isNone_iff_eq_none.mp hpart, Option.isNone_iff_eq_none.mp hpower]
      rfl
  unfold readScalar at h
  repeat' split at h
  · cases eq_of_readConstant h
  · cases eq_of_readConstant h
  · cases eq_of_readConstant h
  · exact hnumber h
  · exact hnumber h
  · obtain ⟨_, -, h⟩ := bind_eq_ok.mp h
    cases h
  · cases h

theorem interprets_readWord64 (depth : Nat) : Interprets depth readWord64 IsWord := by
  intro text j rest hvalue n rest'
  rw [readWord64, interprets_readOnly (fun _ => rfl) (fun _ => rfl) depth hvalue]
  refine and_congr_right fun _ => ?_
  cases j with
  | number d whole =>
    cases whole with
    | false => exact ⟨nofun, fun ⟨h, _⟩ => nomatch h⟩
    | true =>
      -- that the exponent is zero is not in the value, but it was read from a text
      obtain ⟨c, more, -, hat⟩ := readValue_eq_ok_iff.mp hvalue
      cases hat with
      | scalar _ _ hread =>
        have hexponent := exponent_eq_zero_of_readScalar hread
        obtain ⟨negative, coefficient, exponent⟩ := d
        simp only at hexponent
        subst hexponent
        show (if !negative && coefficient < wordBound then some coefficient else none) = some n ↔ _
        constructor
        · intro h
          split at h
          · next hword =>
            obtain ⟨rfl, hlt⟩ : negative = false ∧ coefficient < wordBound := by simpa using hword
            obtain rfl := Option.some.inj h
            exact ⟨rfl, hlt⟩
          · cases h
        · rintro ⟨heq, hlt⟩
          cases heq
          have hword : (!false && decide (n < wordBound)) = true := decide_eq_true hlt
          exact if_pos hword
  | null | bool | string | array | object => exact ⟨nofun, fun ⟨h, _⟩ => nomatch h⟩

/-- A field with a reader of its own. -/
theorem interprets_recordField {σ α : Type} {depth : Nat} {value : Reader α} {Is : Json → α → Prop}
    (h : Interprets depth value Is) (name : String) (put : σ → α → σ) (s : σ) :
    Interprets depth ((RecordField.of name value put).set s) fun j s' =>
      ∃ a, Is j a ∧ s' = put s a := by
  intro text j rest hvalue s' rest'
  rw [RecordField.of, bind_eq_ok]
  constructor
  · rintro ⟨⟨a, more⟩, ha, h'⟩
    cases h'
    obtain ⟨rfl, hIs⟩ := (h hvalue).mp ha
    exact ⟨rfl, a, hIs, rfl⟩
  · rintro ⟨rfl, a, hIs, rfl⟩
    exact ⟨(a, rest'), (h hvalue).mpr ⟨rfl, hIs⟩, rfl⟩

/-- What a member makes of the options. -/
def SetsOption (key : String) (j : Json) (o o' : Options) : Prop :=
  (key = "pretty" ∧ ∃ b, IsBool j b ∧ o' = { o with pretty := b }) ∨
  (key = "indent" ∧ ∃ n, IsWord j n ∧ o' = { o with indent := n }) ∨
  (key = "hexLargeIntegers" ∧ ∃ b, IsBool j b ∧ o' = { o with hexLargeIntegers := b }) ∨
  (key = "webSafe" ∧ ∃ b, IsBool j b ∧ o' = { o with webSafe := b })

theorem interprets_optionField (depth : Nat) {f : RecordField Options} (hf : f ∈ Options.fields)
    (o : Options) : Interprets depth (f.set o) fun j o' => SetsOption f.name j o o' := by
  simp only [Options.fields, List.mem_cons, List.not_mem_nil, or_false] at hf
  rcases hf with rfl | rfl | rfl | rfl
  · exact (interprets_recordField (interprets_readBool depth) _ _ o).congr fun j o' => by
      simp [SetsOption, RecordField.of]
  · exact (interprets_recordField (interprets_readWord64 depth) _ _ o).congr fun j o' => by
      simp [SetsOption, RecordField.of]
  · exact (interprets_recordField (interprets_readBool depth) _ _ o).congr fun j o' => by
      simp [SetsOption, RecordField.of]
  · exact (interprets_recordField (interprets_readBool depth) _ _ o).congr fun j o' => by
      simp [SetsOption, RecordField.of]

theorem IsBool.unique {j : Json} {b b' : Bool} (h : IsBool j b) (h' : IsBool j b') : b = b' :=
  Json.bool.inj (h.symm.trans h')

theorem IsWord.unique {j : Json} {n n' : Nat} (h : IsWord j n) (h' : IsWord j n') : n = n' :=
  congrArg Decimal.coefficient (Json.number.inj (h.1.symm.trans h'.1)).1

theorem OptionsFrom.unique {ms : List (String × Json)} {o o' : Options} (h : OptionsFrom ms o)
    (h' : OptionsFrom ms o') : o = o' := by
  obtain ⟨pretty, indent, hex, webSafe⟩ := o
  obtain ⟨pretty', indent', hex', webSafe'⟩ := o'
  obtain rfl : pretty = pretty' := h.pretty.unique h'.pretty fun _ _ _ => IsBool.unique
  obtain rfl : indent = indent' := h.indent.unique h'.indent fun _ _ _ => IsWord.unique
  obtain rfl : hex = hex' :=
    h.hexLargeIntegers.unique h'.hexLargeIntegers fun _ _ _ => IsBool.unique
  obtain rfl : webSafe = webSafe' := h.webSafe.unique h'.webSafe fun _ _ _ => IsBool.unique
  rfl

/-- The names of the options. -/
def optionNames : List String :=
  ["pretty", "indent", "hexLargeIntegers", "webSafe"]

/-- A member sets the option of its name, and leaves the others. -/
theorem SetsOption.options {key : String} {j : Json} {o o' : Options}
    (h : SetsOption key j o o') :
    ((key = "pretty" → IsBool j o'.pretty) ∧ (key ≠ "pretty" → o'.pretty = o.pretty)) ∧
    ((key = "indent" → IsWord j o'.indent) ∧ (key ≠ "indent" → o'.indent = o.indent)) ∧
    ((key = "hexLargeIntegers" → IsBool j o'.hexLargeIntegers) ∧
      (key ≠ "hexLargeIntegers" → o'.hexLargeIntegers = o.hexLargeIntegers)) ∧
    ((key = "webSafe" → IsBool j o'.webSafe) ∧ (key ≠ "webSafe" → o'.webSafe = o.webSafe)) := by
  rcases h with ⟨rfl, _, hv, rfl⟩ | ⟨rfl, _, hv, rfl⟩ | ⟨rfl, _, hv, rfl⟩ | ⟨rfl, _, hv, rfl⟩ <;>
    simp [hv]

theorem optionsFrom_of_steps {ms : List (String × Json)} {seen : List String} {o : Options}
    (h : Steps (RecordStep optionNames SetsOption) ([], {}) ms (seen, o)) : OptionsFrom ms o where
  pretty := (setting_of_steps h (by decide) Options.pretty fun _ h => h.options.1).2
    List.not_mem_nil
  indent := (setting_of_steps h (by decide) Options.indent fun _ h => h.options.2.1).2
    List.not_mem_nil
  hexLargeIntegers := (setting_of_steps h (by decide) Options.hexLargeIntegers
    fun _ h => h.options.2.2.1).2 List.not_mem_nil
  webSafe := (setting_of_steps h (by decide) Options.webSafe fun _ h => h.options.2.2.2).2
    List.not_mem_nil

/-- Going through the members gives the options that they stand for. -/
theorem steps_iff_optionsFrom {ms : List (String × Json)} {o : Options} :
    (∃ seen, Steps (RecordStep optionNames SetsOption) ([], {}) ms (seen, o)) ↔
      OptionsFrom ms o := by
  refine ⟨fun ⟨_, h⟩ => optionsFrom_of_steps h, fun h => ?_⟩
  -- the steps can be taken, and lead to options of the same members, of which there are no two
  obtain ⟨⟨seen, o'⟩, hsteps⟩ : ∃ st, Steps (RecordStep optionNames SetsOption) ([], {}) ms st := by
    refine exists_steps fun name hname => ?_
    simp only [optionNames, List.mem_cons, List.not_mem_nil, or_false] at hname
    rcases hname with rfl | rfl | rfl | rfl
    · exact h.pretty.values_ok fun hv o => ⟨_, .inl ⟨rfl, _, hv, rfl⟩⟩
    · exact h.indent.values_ok fun hv o => ⟨_, .inr (.inl ⟨rfl, _, hv, rfl⟩)⟩
    · exact h.hexLargeIntegers.values_ok fun hv o => ⟨_, .inr (.inr (.inl ⟨rfl, _, hv, rfl⟩))⟩
    · exact h.webSafe.values_ok fun hv o => ⟨_, .inr (.inr (.inr ⟨rfl, _, hv, rfl⟩))⟩
  exact ⟨seen, (optionsFrom_of_steps hsteps).unique h ▸ hsteps⟩

theorem interprets_options (depth : Nat) : Interprets (depth + 1) Options.reader OptionsOf := by
  have hrecord := interprets_readRecord (fun f hf => interprets_optionField depth hf)
    (by decide : (Options.fields.map (·.name)).Nodup) {}
  refine hrecord.congr fun j o => ?_
  simp only [exists_and_left]
  exact exists_congr fun ms => and_congr_right fun _ => steps_iff_optionsFrom

theorem OptionsOf.unique {j : Json} {o o' : Options} (h : OptionsOf j o) (h' : OptionsOf j o') :
    o = o' := by
  obtain ⟨ms, hms, ho⟩ := h
  obtain ⟨ms', hms', ho'⟩ := h'
  obtain rfl := Option.some.inj (hms.symm.trans hms')
  exact ho.unique ho'

/-- Going through the members gives the setting of the only field. -/
theorem steps_iff_setting {α : Type} {name : String} {Is : Json → α → Prop} {default v : α}
    {ms : List (String × Json)} (hIs : ∀ j v v', Is j v → Is j v' → v = v') :
    (∃ seen, Steps (RecordStep [name] fun _ j _ v => Is j v) ([], default) ms (seen, v)) ↔
      Setting Is default (valuesOf name ms) v := by
  have hforward {seen : List String} {v : α}
      (h : Steps (RecordStep [name] fun _ j _ v => Is j v) ([], default) ms (seen, v)) :
      Setting Is default (valuesOf name ms) v := by
    refine (setting_of_steps h (.head _) id fun hkey hv => ?_).2 List.not_mem_nil
    exact ⟨fun _ => hv, fun hne => absurd (List.mem_singleton.mp hkey) hne⟩
  refine ⟨fun ⟨_, h⟩ => hforward h, fun h => ?_⟩
  obtain ⟨⟨seen, v'⟩, hsteps⟩ :
      ∃ st, Steps (RecordStep [name] fun _ j _ v => Is j v) ([], default) ms st := by
    refine exists_steps fun key hkey => ?_
    obtain rfl := List.mem_singleton.mp hkey
    exact h.values_ok (R := fun _ j _ v => Is j v) fun hv _ => ⟨_, hv⟩
  exact ⟨seen, (hforward hsteps).unique h hIs ▸ hsteps⟩

theorem interprets_config (depth : Nat) : Interprets (depth + 2) configReader ConfigOf := by
  have hfield : ∀ f ∈ [(⟨"codegen", fun _ => Options.reader⟩ : RecordField Options)], ∀ o,
      Interprets (depth + 1) (f.set o) fun j o' => OptionsOf j o' := by
    intro f hf o
    obtain rfl := List.mem_singleton.mp hf
    exact interprets_options depth
  have hrecord := interprets_readRecord (R := fun _ j _ o => OptionsOf j o) hfield
    (List.pairwise_singleton _ _) {}
  refine hrecord.congr fun j c => ?_
  simp only [exists_and_left]
  exact exists_congr fun ms => and_congr_right fun _ =>
    steps_iff_setting fun _ _ _ => OptionsOf.unique

/-! ### The decoder of the program -/

/-- The value that a text stands for. -/
def jsonValue? (text : String) : Option Json :=
  (readAll (readValue .used maxDepth) text).toOption

theorem jsonValue?_eq_some_iff {text : String} {j : Json} :
    jsonValue? text = some j ↔ readAll (readValue .used maxDepth) text = .ok j := by
  unfold jsonValue?
  cases readAll (readValue .used maxDepth) text with
  | error => exact ⟨nofun, nofun⟩
  | ok k =>
    exact ⟨fun h => congrArg Except.ok (Option.some.inj h),
      fun h => congrArg some (Except.ok.inj h)⟩

theorem Decoder.json_reads : Decoder.json.Reads jsonValue? where
  config h := (interprets_config 125).readAll_eq_ok_iff (jsonValue?_eq_some_iff.mp h)
  program := by
    intro text p
    simp only [jsonValue?_eq_some_iff]
    exact Tree.ofText_eq_ok_iff rfl

end EcmaPrinter.Command
