import EcmaPrinter.Proofs.Json.Record
import EcmaPrinter.Proofs.Tree.Loading

/-!
Reading a tree from text is reading the JSON value and then the tree.

The reader of trees looks at the name of the root as soon as it comes by.  That takes nothing away
from reading the whole value first: a value that is refused for its name has no tree either
(`Tree.hasName_of_ofJson?`), and all others are read to their end (`Tree.readRoot_eq_ok_iff`).
-/

namespace EcmaPrinter.Tree

open EcmaPrinter.Json

/-- The value is a string of the list. -/
def IsOneOf (names : List String) (j : Json) : Prop :=
  ∃ s ∈ names, j = .string s

/-- The value is an array that starts with a name, or an object with at most one name. -/
def HasName (names : List String) : Json → Prop
  | .array (j :: _) => IsOneOf names j
  | .object ms => ∀ before m after, ms = before ++ m :: after → m.1 = typeKey →
      (∀ m' ∈ before, m'.1 ≠ typeKey) ∧ IsOneOf names m.2
  | _ => False

section

variable {names : List String} {depth : Nat} {text rest : List Char} {j : Json}

theorem readName_eq_ok_iff :
    readName names text = .ok (j, rest) ↔
      readValue .used depth text = .ok (j, rest) ∧ IsOneOf names j := by
  rw [readName, readOnly_eq_ok_iff (fun _ => rfl) (fun _ => rfl) depth]
  constructor
  · rintro ⟨k, hvalue, haccept⟩
    cases k with
    | string s =>
      obtain ⟨hs, rfl⟩ : s ∈ names ∧ Json.string s = j := by simpa using haccept
      exact ⟨hvalue, s, hs, rfl⟩
    | null | bool | number | array | object => cases haccept
  · rintro ⟨hvalue, s, hs, rfl⟩
    exact ⟨_, hvalue, if_pos (List.contains_iff_mem.mpr hs)⟩

/-- Of the items of the root the first has to be a name. -/
theorem collects_readRootItem :
    CollectsItems (readValue .used depth) (fun read j => read = [] → IsOneOf names j)
      (readRootItem names (readValue .used depth)) := by
  intro read text read' rest
  cases read with
  | nil =>
    show readItem (readName names) [] text = _ ↔ _
    rw [readItem_eq_ok_iff]
    constructor
    · rintro ⟨j, hj, hread⟩
      obtain ⟨hj, hone⟩ := readName_eq_ok_iff.mp hj
      exact ⟨j, hj, hread, fun _ => hone⟩
    · rintro ⟨j, hj, hread, hone⟩
      exact ⟨j, readName_eq_ok_iff.mpr ⟨hj, hone rfl⟩, hread⟩
  | cons k read =>
    show readItem (readValue .used depth) (k :: read) text = _ ↔ _
    simp only [readItem_eq_ok_iff, reduceCtorEq, false_imp_iff, and_true]

theorem readRootItems_eq_ok_iff :
    readRootItems names (readValue .used depth) text = .ok (j, rest) ↔
      ∃ js, j = .array js ∧ Items (readValue .used depth) true text js rest ∧
        js.length ≤ text.length ∧ HasName names (.array js) := by
  rw [readRootItems, bind_eq_ok]
  constructor
  · rintro ⟨⟨read, more⟩, hread, h⟩
    obtain ⟨js, hjs, hlength, rfl, hone⟩ := collects_readRootItem.readItems_eq_ok_iff.mp hread
    cases js with
    | nil => cases h
    | cons k ks =>
      split at h
      · next heq => simp at heq
      · next heq =>
        cases heq
        cases h
        exact ⟨k :: ks, by rw [List.reverse_reverse], hjs, hlength, hone [] k ks rfl rfl⟩
  · rintro ⟨js, rfl, hjs, hlength, hnamed⟩
    cases js with
    | nil => exact hnamed.elim
    | cons k ks =>
      refine ⟨((k :: ks).reverse, rest), collects_readRootItem.readItems_eq_ok_iff.mpr
        ⟨_, hjs, hlength, rfl, ?_⟩, ?_⟩
      · intro xs b ys hxs hnil
        obtain rfl := List.reverse_eq_nil_iff.mp hnil
        cases hxs
        exact hnamed
      · split
        · next hnil => simp at hnil
        · next heq =>
          cases heq
          rw [List.reverse_reverse]

/-- The condition on a member of the root: if it is the name, it is the first one. -/
def NamesRoot (names : List String) (read : List (String × Json)) (m : String × Json) : Prop :=
  m.1 = typeKey → (∀ m' ∈ read, m'.1 ≠ typeKey) ∧ IsOneOf names m.2

theorem collects_rootMember :
    CollectsMembers (readValue .used depth) (NamesRoot names)
      (rootMember names (readValue .used depth)) := by
  intro read key text read' rest
  unfold rootMember
  by_cases hkey : key = typeKey
  · subst hkey
    have hfirst : (read.any (·.1 == typeKey)) = false ↔ ∀ m ∈ read, m.1 ≠ typeKey := by simp
    simp only [beq_self_eq_true, if_true]
    cases hany : read.any (·.1 == typeKey) with
    | true =>
      constructor
      · rintro ⟨_, hr, -⟩
        cases hr
      · rintro ⟨_, _, _, hroot⟩
        cases hany.symm.trans (hfirst.mpr (hroot rfl).1)
    | false =>
      have hnew := hfirst.mp hany
      constructor
      · rintro ⟨_, hr, h⟩
        cases hr
        obtain ⟨j, hj, hread⟩ := readMember_eq_ok_iff.mp h
        obtain ⟨hj, hone⟩ := readName_eq_ok_iff.mp hj
        exact ⟨j, hj, hread, fun _ => ⟨hnew, hone⟩⟩
      · rintro ⟨j, hj, hread, hroot⟩
        exact ⟨_, rfl, readMember_eq_ok_iff.mpr
          ⟨j, readName_eq_ok_iff.mpr ⟨hj, (hroot rfl).2⟩, hread⟩⟩
  · simp only [beq_iff_eq, if_neg hkey]
    constructor
    · rintro ⟨_, hr, h⟩
      cases hr
      obtain ⟨j, hj, hread⟩ := readMember_eq_ok_iff.mp h
      exact ⟨j, hj, hread, fun heq => absurd heq hkey⟩
    · rintro ⟨j, hj, hread, -⟩
      exact ⟨_, rfl, readMember_eq_ok_iff.mpr ⟨j, hj, hread⟩⟩

theorem readRootMembers_eq_ok_iff :
    readRootMembers names (readValue .used depth) text = .ok (j, rest) ↔
      ∃ ms, j = .object ms ∧ Members .used (readValue .used depth) true text ms rest ∧
        ms.length ≤ text.length ∧ HasName names (.object ms) := by
  have hnamed {ms : List (String × Json)} : HasName names (.object ms) ↔
      ∀ xs m ys, ms = xs ++ m :: ys → NamesRoot names xs.reverse m := by
    simp only [HasName, NamesRoot, List.mem_reverse]
  rw [readRootMembers, bind_eq_ok]
  constructor
  · rintro ⟨⟨read, more⟩, hread, h⟩
    cases h
    obtain ⟨ms, hms, hlength, rfl, hroot⟩ := collects_rootMember.readMembers_eq_ok_iff.mp hread
    exact ⟨ms, by rw [List.reverse_reverse], hms, hlength, hnamed.mpr hroot⟩
  · rintro ⟨ms, rfl, hms, hlength, hroot⟩
    have hall := collects_rootMember.readMembers_eq_ok_iff.mpr
      ⟨ms, hms, hlength, rfl, hnamed.mp hroot⟩
    refine ⟨_, hall, ?_⟩
    simp only [List.reverse_reverse]

/-- The root is read if it is a value whose name is one of the given. -/
theorem readRoot_eq_ok_iff :
    readRoot names text = .ok (j, rest) ↔
      readValue .used maxDepth text = .ok (j, rest) ∧ HasName names j := by
  rw [show maxDepth = maxDepth - 1 + 1 from rfl, readValue_eq_ok_iff]
  unfold readRoot
  cases skipBlanks text with
  | nil => simp
  | cons c more =>
    simp only [List.cons.injEq, and_assoc, exists_and_left, exists_eq_left']
    by_cases hbracket : c = '['
    · subst hbracket
      show readRootItems names _ more = _ ↔ _
      rw [readRootItems_eq_ok_iff]
      constructor
      · rintro ⟨js, rfl, hjs, hlength, hnamed⟩
        exact ⟨.array hjs hlength, hnamed⟩
      · rintro ⟨hat, hnamed⟩
        cases hat with
        | array hjs hlength => exact ⟨_, rfl, hjs, hlength, hnamed⟩
        | scalar hne => exact absurd rfl hne
    · by_cases hbrace : c = '\x7b'
      · subst hbrace
        show readRootMembers names _ more = _ ↔ _
        rw [readRootMembers_eq_ok_iff]
        constructor
        · rintro ⟨ms, rfl, hms, hlength, hnamed⟩
          exact ⟨.object hms hlength, hnamed⟩
        · rintro ⟨hat, hnamed⟩
          cases hat with
          | object hms hlength => exact ⟨_, rfl, hms, hlength, hnamed⟩
          | scalar _ hne => exact absurd rfl hne
      · -- a scalar is refused when it has been read, and has no name
        rw [if_neg (by simpa using hbracket), if_neg (by simpa using hbrace), bind_eq_ok]
        constructor
        · rintro ⟨_, -, h⟩
          cases h
        · rintro ⟨hat, hnamed⟩
          cases hat with
          | array => exact absurd rfl hbracket
          | object => exact absurd rfl hbrace
          | scalar _ _ hread => cases isScalar_of_readScalar hread <;> exact hnamed.elim

end

/-! ### Trees -/

variable {c : Category} {shapes : List (Shape c)} {j : Json} {t : Tree c}

theorem mem_names_of_named? (hform : form c = .tagged shapes) {name : String} {s : Shape c}
    (h : Shape.named? name shapes = some s) : name ∈ c.names := by
  rw [Category.names_eq hform]
  obtain rfl : s.name = name := by simpa using List.find?_some h
  exact List.mem_map_of_mem (List.mem_of_find?_eq_some h)

theorem eq_string_of_string? {name : String} (h : j.string? = some name) : j = .string name := by
  cases j with
  | string s => exact congrArg Json.string (Option.some.inj h)
  | null | bool | number | array | object => cases h

theorem valuesOf_typeKey {ms : List (String × Json)} {name : String}
    (h : typeOfMembers? .refused (Part.ofMembers ms) = some name) :
    Json.valuesOf typeKey ms = [.string name] := by
  rw [typeOfMembers?, membersNamed_refused] at h
  rcases hvalues : Json.valuesOf typeKey ms with - | ⟨k, - | ⟨k', ks⟩⟩
  · rw [hvalues] at h
    cases h
  · rw [hvalues] at h
    have hk : (Part.ofJson k).value.string? = some name := h
    rw [value_ofJson] at hk
    rw [eq_string_of_string? hk]
  · rw [hvalues] at h
    cases h

/-- A value that has a tree has a name. -/
theorem hasName_of_ofJson? (hform : form c = .tagged shapes) (h : ofJson? c j = some t) :
    HasName c.names j := by
  have htagged : Shape.readTagged? .refused (layerOf j) shapes = some t := by
    have hnode : form c ≠ .noNode := by simp [hform]
    rw [← h, ofJson?, tree?_ofJson, Layer.tree?_eq _ _ hnode, hform]
    rfl
  cases j with
  | null | bool | number | string => cases htagged
  | array js =>
    cases js with
    | nil => cases htagged
    | cons k ks =>
      obtain ⟨name, hname, h⟩ := Option.bind_eq_some_iff.mp htagged
      obtain ⟨s, hs, -⟩ := Option.bind_eq_some_iff.mp h
      rw [value_ofJson] at hname
      exact ⟨name, mem_names_of_named? hform hs, eq_string_of_string? hname⟩
  | object ms =>
    obtain ⟨name, hname, h⟩ := Option.bind_eq_some_iff.mp htagged
    obtain ⟨s, hs, -⟩ := Option.bind_eq_some_iff.mp h
    -- there is one value for the name, so no member before this one has it
    have hvalues := valuesOf_typeKey hname
    rintro before m after rfl hm
    rw [Json.valuesOf, List.filter_append, List.filter_cons_of_pos (by simpa using hm),
      List.map_append, List.map_cons] at hvalues
    obtain ⟨hbefore, hrest⟩ := List.append_eq_singleton_iff.mp hvalues |>.resolve_right (by simp)
    obtain ⟨hname, -⟩ := List.cons.inj hrest
    refine ⟨?_, name, mem_names_of_named? hform hs, hname⟩
    simpa using hbefore

/-- The tree that a text stands for is that of its value. -/
theorem ofText_eq_ok_iff (hform : form c = .tagged shapes) {text : String} :
    ofText c text = .ok t ↔
      ∃ j, readAll (readValue .used maxDepth) text = .ok j ∧ ofJson? c j = some t := by
  simp only [ofText, readAll, bind_eq_ok]
  constructor
  · rintro ⟨⟨u, rest⟩, hread, h⟩
    obtain ⟨⟨j, _⟩, hroot, hj⟩ := bind_eq_ok.mp hread
    obtain ⟨hvalue, -⟩ := readRoot_eq_ok_iff.mp hroot
    simp only at hj h
    split at hj
    · next hu =>
      cases hj
      split at h
      · next hrest =>
        cases h
        exact ⟨j, ⟨(j, rest), hvalue, if_pos hrest⟩, hu⟩
      · cases h
    · cases hj
  · rintro ⟨j, ⟨⟨k, rest⟩, hvalue, h⟩, hj⟩
    simp only at h
    split at h
    · next hrest =>
      cases h
      refine ⟨(t, rest), bind_eq_ok.mpr ⟨(j, rest), readRoot_eq_ok_iff.mpr
        ⟨hvalue, hasName_of_ofJson? hform hj⟩, ?_⟩, if_pos hrest⟩
      simp only [hj]
    · cases h

end EcmaPrinter.Tree
