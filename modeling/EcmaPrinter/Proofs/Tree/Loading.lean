import EcmaPrinter.Proofs.Tree.Encoding
import EcmaPrinter.Tree.Reader
import Mathlib.Data.List.Basic

/-!
Reading inverts the scheme.

Whatever stands for a tree is read as this tree (`Tree.loads`), by induction over trees with one
lemma for each way in which a node can stand in a category.  The members of a node are found by
their keys wherever they stand (`Supplies.fieldsOfMembers?`).  In a union the parts are tried one
after the other, and a node is never taken for one of an earlier part, because its name is none of
the names there (`Tree.findSome?_wholes_eq_none`).
-/

namespace EcmaPrinter

open EcmaPrinter.Number

/-! ### Members -/

theorem ofMembers_eq_map (members : List (String × Json)) :
    Part.ofMembers members = members.map fun m => (m.1, Part.ofJson m.2) := by
  induction members with
  | nil => rfl
  | cons m ms ih => rw [Part.ofMembers, ih, List.map_cons]

theorem membersNamed_refused (key : String) (members : List (String × Json)) :
    membersNamed .refused key (Part.ofMembers members) =
      (Json.valuesOf key members).map Part.ofJson := by
  rw [membersNamed, ofMembers_eq_map, Json.valuesOf, List.filter_map, List.map_map, List.map_map]
  rfl

/-- Where a key stands once or not at all, repetitions do not matter. -/
theorem membersNamed_ofMembers (r : Repeats) (key : String) (members : List (String × Json))
    (h : (Json.valuesOf key members).length ≤ 1) :
    membersNamed r key (Part.ofMembers members) = (Json.valuesOf key members).map Part.ofJson := by
  have hall := membersNamed_refused key members
  cases r with
  | refused => exact hall
  | lastWins =>
    show (membersNamed .refused key (Part.ofMembers members)).getLast?.toList = _
    rw [hall]
    rcases hvalues : Json.valuesOf key members with - | ⟨j, - | ⟨j', js⟩⟩
    · rfl
    · rfl
    · rw [hvalues] at h
      exact absurd h (by simp)

theorem value_ofJson (j : Json) : (Part.ofJson j).value = j := by
  cases j <;> rw [Part.ofJson]

/-- What a member may hold is read as the value of the field. -/
structure Slot.Gives (s : Slot) (k : Kind) (v : k.Value) : Prop where
  read : ∀ r j, s.holds j → k.read? r (Part.ofJson j) = some v
  missing : s.optional → k.missing? = some v

theorem Slot.Gives.find? {s : Slot} {k : Kind} {v : k.Value} (h : s.Gives k v) (r : Repeats)
    {members : List (String × Json)} (hfilled : s.Filled members) :
    k.find? r (Part.ofMembers members) s.key = some v := by
  rcases hfilled with ⟨j, hvalues, hholds⟩ | ⟨hoptional, hvalues⟩
  · rw [Kind.find?, membersNamed_ofMembers r s.key members (by simp [hvalues]), hvalues]
    exact h.read r j hholds
  · rw [Kind.find?, membersNamed_ofMembers r s.key members (by simp [hvalues]), hvalues]
    exact h.missing hoptional

/-- The members hold the values of the fields, one by one. -/
inductive Supplies : List Slot → (fields : List Field) → Values fields → Prop where
  | nil : Supplies [] [] ()
  | cons {s : Slot} {k : Kind} {v : k.Value} {slots : List Slot} {fields : List Field}
      {vs : Values fields} (hfirst : s.Gives k v) (hrest : Supplies slots fields vs) :
      Supplies (s :: slots) ((s.key, k) :: fields) (v, vs)

/-- The fields of a node are found wherever its members stand. -/
theorem Supplies.fieldsOfMembers? {slots : List Slot} {fields : List Field} {vs : Values fields}
    (h : Supplies slots fields vs) (r : Repeats) {members : List (String × Json)}
    (hfilled : ∀ s ∈ slots, s.Filled members) :
    fieldsOfMembers? r (Part.ofMembers members) fields = some vs := by
  induction h with
  | nil => rfl
  | cons hfirst _ ih =>
    rw [List.forall_mem_cons] at hfilled
    rw [EcmaPrinter.fieldsOfMembers?, hfirst.find? r hfilled.1, ih hfilled.2]
    rfl

/-! ### Values as layers -/

/-- A JSON value whose parts have become readers. -/
def layerOf : Json → Layer
  | .array items => .items (Part.ofItems items)
  | .object members => .members (Part.ofMembers members)
  | j => .scalar j

theorem tree?_ofJson (j : Json) : (Part.ofJson j).tree? = (layerOf j).tree? := by
  cases j <;> rw [Part.ofJson] <;> rfl

/-- The layer is that of an object with a name. -/
def Layer.Named (l : Layer) (name : String) : Prop :=
  ∃ members, l = .members members ∧ ∀ r, typeOfMembers? r members = some name

theorem Json.IsNode.named {name : String} {slots : List Slot} {j : Json}
    (h : j.IsNode name slots) : (layerOf j).Named name := by
  obtain ⟨members, rfl, ⟨j, hvalues, rfl⟩ | ⟨⟨⟩, -⟩, -⟩ := h
  have htype : Json.valuesOf typeKey members = [.string name] := hvalues
  refine ⟨Part.ofMembers members, rfl, fun r => ?_⟩
  rw [typeOfMembers?, membersNamed_ofMembers r typeKey members (by simp [htype]), htype]
  exact congrArg Json.string? (value_ofJson _)

/-! ### Values of fields -/

namespace Supplies

variable {slots : List Slot} {fields : List Field} {vs : Values fields} {key : String}

/-- A member with a text holds whatever the field makes of the text. -/
theorem named {k : Kind} {v : k.Value} {name : String}
    (hread : ∀ r p, p.value = .string name → k.read? r p = some v) (h : Supplies slots fields vs) :
    Supplies (.text key name :: slots) ((key, k) :: fields) (v, vs) := by
  refine .cons ⟨fun r j hj => ?_, nofun⟩ h
  exact hread r _ ((value_ofJson j).trans hj)

theorem text {v : String} (h : Supplies slots fields vs) :
    Supplies (.text key v :: slots) ((key, .text) :: fields) (v, vs) :=
  named (fun r p hp => by rw [Kind.read?, hp]; rfl) h

theorem text? {v : Option String} (h : Supplies slots fields vs) :
    Supplies (.text? key v :: slots) ((key, .optionalText) :: fields) (v, vs) := by
  refine .cons ⟨fun r j hj => ?_, fun hv => ?_⟩ h
  · rw [Kind.read?, value_ofJson, hj]
    cases v <;> rfl
  · rw [hv]
    rfl

theorem flag {v : Bool} (h : Supplies slots fields vs) :
    Supplies (.flag key v :: slots) ((key, .flag) :: fields) (v, vs) := by
  refine .cons ⟨fun r j hj => ?_, nofun⟩ h
  rw [Kind.read?, value_ofJson, hj]
  rfl

theorem number {v : Double} (h : Supplies slots fields vs) :
    Supplies (.number key v :: slots) ((key, .number) :: fields) (v, vs) := by
  refine .cons ⟨fun r j hj => ?_, nofun⟩ h
  obtain ⟨-, d, whole, rfl, rfl⟩ := hj
  rw [Kind.read?, value_ofJson]

theorem binaryOperator {op : BinaryOperator} (h : Supplies slots fields vs) :
    Supplies (.text key op.jsonName :: slots) ((key, .binaryOperator) :: fields) (op, vs) := by
  have hop : BinaryOperator.ofText? op.jsonName = some op := by cases op <;> rfl
  exact named (fun r p hp => by rw [Kind.read?, hp]; exact hop) h

theorem assignmentOperator {op : AssignmentOperator} (h : Supplies slots fields vs) :
    Supplies (.text key op.jsonName :: slots) ((key, .assignmentOperator) :: fields) (op, vs) := by
  have hop : AssignmentOperator.ofText? op.jsonName = some op := by cases op <;> rfl
  exact named (fun r p hp => by rw [Kind.read?, hp]; exact hop) h

theorem unaryOperator {op : UnaryOperator} (h : Supplies slots fields vs) :
    Supplies (.text key op.jsonName :: slots) ((key, .unaryOperator) :: fields) (op, vs) := by
  have hop : UnaryOperator.ofText? op.jsonName = some op := by cases op <;> rfl
  exact named (fun r p hp => by rw [Kind.read?, hp]; exact hop) h

theorem updateOperator {op : UpdateOperator} (h : Supplies slots fields vs) :
    Supplies (.text key op.jsonName :: slots) ((key, .updateOperator) :: fields) (op, vs) := by
  have hop : UpdateOperator.ofText? op.jsonName = some op := by cases op <;> rfl
  exact named (fun r p hp => by rw [Kind.read?, hp]; exact hop) h

theorem declarationKind {kind : DeclarationKind} (h : Supplies slots fields vs) :
    Supplies (.text key kind.jsonName :: slots) ((key, .declarationKind) :: fields) (kind, vs) := by
  have hkind : DeclarationKind.ofText? kind.jsonName = some kind := by cases kind <;> rfl
  exact named (fun r p hp => by rw [Kind.read?, hp]; exact hkind) h

end Supplies

/-! ### Nodes -/

/-- What stands for the tree is read as the tree. -/
def Tree.Loads {c : Category} (t : Tree c) : Prop :=
  ∀ j, t.Encodes j → ∀ r, (layerOf j).tree? r c = some t

namespace Supplies

variable {slots : List Slot} {fields : List Field} {vs : Values fields} {key : String}
  {c : Category}

theorem tree {t : Tree c} (ht : t.Loads) (h : Supplies slots fields vs) :
    Supplies (.tree key t.Encodes :: slots) ((key, .tree c) :: fields) (t, vs) := by
  refine .cons ⟨fun r j hj => ?_, nofun⟩ h
  rw [Kind.read?, tree?_ofJson]
  exact ht j hj r

theorem tree? {t : Tree (.option c)} (ht : t.Loads) (h : Supplies slots fields vs) :
    Supplies (.tree? key t.Encodes (t = .absent) :: slots) ((key, .tree (.option c)) :: fields)
      (t, vs) := by
  refine .cons ⟨fun r j hj => ?_, fun hmissing => ?_⟩ h
  · rw [Kind.read?, tree?_ofJson]
    exact ht j hj r
  · rw [hmissing]
    rfl

end Supplies

namespace Shape

variable {c d : Category} {l : Layer} {r : Repeats}

theorem read?_of_isNode (s : Shape c) {name : String} {slots : List Slot} {vs : Values s.fields}
    {j : Json} (hnode : j.IsNode name slots) (hsupplies : Supplies slots s.fields vs)
    (r : Repeats) : s.read? r (layerOf j) = some (s.build vs) := by
  obtain ⟨members, rfl, -, hfilled⟩ := hnode
  show (fieldsOfMembers? r (Part.ofMembers members) s.fields).map s.build = _
  rw [hsupplies.fieldsOfMembers? r hfilled]
  rfl

theorem read?_map (s : Shape c) (f : Tree c → Tree d) (r : Repeats) (l : Layer) :
    (s.map f).read? r l = (s.read? r l).map f := by
  cases l with
  | scalar => rfl
  | items ps => exact (Option.map_map f s.build _).symm
  | members ms => exact (Option.map_map f s.build _).symm

theorem named?_of_mem {shapes : List (Shape c)} {s : Shape c}
    (hnodup : (shapes.map (·.name)).Nodup) (hs : s ∈ shapes) : named? s.name shapes = some s := by
  induction shapes with
  | nil => cases hs
  | cons first rest ih =>
    rw [List.map_cons, List.nodup_cons] at hnodup
    rw [named?, List.find?_cons]
    rcases List.mem_cons.mp hs with rfl | hs
    · rw [beq_self_eq_true]
    · have hne : (first.name == s.name) = false := by
        rw [beq_eq_false_iff_ne]
        exact fun heq => hnodup.1 (heq ▸ List.mem_map_of_mem hs)
      rw [hne]
      exact ih hnodup.2 hs

theorem named?_eq_none {shapes : List (Shape c)} {name : String}
    (h : name ∉ shapes.map (·.name)) : named? name shapes = none := by
  rw [named?, List.find?_eq_none]
  intro s hs hname
  exact h (List.mem_map.mpr ⟨s, hs, beq_iff_eq.mp hname⟩)

theorem readTagged?_of_named {shapes : List (Shape c)} {s : Shape c} {name : String}
    (hl : l.Named name) (hnamed : named? name shapes = some s) :
    readTagged? r l shapes = s.read? r l := by
  obtain ⟨members, rfl, htype⟩ := hl
  rw [readTagged?, htype r]
  show (named? name shapes).bind _ = _
  rw [hnamed]
  rfl

/-- A node is told by a name, whatever shapes there are to choose from. -/
theorem exists_readTagged?_eq (r : Repeats) (l : Layer) :
    ∃ (name? : Option String) (l' : Layer), ∀ {c : Category} (shapes : List (Shape c)),
      readTagged? r l shapes = name?.bind fun name => (named? name shapes).bind (·.read? r l') := by
  match l with
  | .members ms => exact ⟨typeOfMembers? r ms, .members ms, fun _ => rfl⟩
  | .items (p :: ps) => exact ⟨p.value.string?, .items ps, fun _ => rfl⟩
  | .items [] => exact ⟨none, .items [], fun _ => rfl⟩
  | .scalar j => exact ⟨none, .scalar j, fun _ => rfl⟩

/-- What is read as one of some nodes can be read as nothing else. -/
theorem readTagged?_eq {shapes : List (Shape c)} {t : Tree c}
    (h : readTagged? r l shapes = some t) :
    ∃ s ∈ shapes, ∃ l', s.read? r l' = some t ∧ ∀ {d : Category} (others : List (Shape d)),
      readTagged? r l others = (named? s.name others).bind (·.read? r l') := by
  obtain ⟨name?, l', hread⟩ := exists_readTagged?_eq r l
  rw [hread shapes, Option.bind_eq_some_iff] at h
  obtain ⟨name, rfl, h⟩ := h
  obtain ⟨s, hs, h⟩ := Option.bind_eq_some_iff.mp h
  have hname : s.name = name := by simpa using List.find?_some (p := fun s : Shape c => _) hs
  exact ⟨s, List.mem_of_find?_eq_some hs, l', h, fun others => by rw [hread, hname]; rfl⟩

/-- An object with another name is none of the nodes. -/
theorem readTagged?_of_not_mem {shapes : List (Shape c)} {name : String} (hl : l.Named name)
    (h : name ∉ shapes.map (·.name)) : readTagged? r l shapes = none := by
  obtain ⟨members, rfl, htype⟩ := hl
  rw [readTagged?, htype r]
  show (named? name shapes).bind _ = _
  rw [named?_eq_none h]
  rfl

theorem readArm?_of_named {s : Shape c} {name : String} (hl : l.Named name) :
    readArm? l s = if name = s.name then s.read? .lastWins l else none := by
  obtain ⟨members, rfl, htype⟩ := hl
  rw [readArm?, htype]
  simp only [Option.some.injEq]

/-- Of the further nodes of a union, the one with the name is read. -/
theorem findSome?_readArm? {arms : List (Shape c)} {s : Shape c} {t : Tree c}
    (hl : l.Named s.name) (hnodup : (arms.map (·.name)).Nodup) (hs : s ∈ arms)
    (hread : s.read? .lastWins l = some t) : arms.findSome? (readArm? l) = some t := by
  induction arms with
  | nil => cases hs
  | cons first rest ih =>
    rw [List.map_cons, List.nodup_cons] at hnodup
    rw [List.findSome?_cons, readArm?_of_named hl]
    rcases List.mem_cons.mp hs with rfl | hs
    · rw [if_pos rfl, hread]
    · have hne : s.name ≠ first.name := fun heq => hnodup.1 (heq ▸ List.mem_map_of_mem hs)
      rw [if_neg hne]
      exact ih hnodup.2 hs

end Shape

theorem Category.names_nodup (c : Category) : c.names.Nodup := by
  cases c with
  | list | option => exact List.nodup_nil
  | _ => decide

theorem Category.names_eq {c : Category} {shapes : List (Shape c)} (h : form c = .tagged shapes) :
    c.names = shapes.map (·.name) := by
  rw [names, h]

theorem Layer.tree?_eq {c : Category} (l : Layer) (r : Repeats) (h : form c ≠ .noNode) :
    l.tree? r c = (form c).read? r l := by
  cases c with
  | list | option => exact absurd rfl h
  | _ => rfl

namespace Tree

variable {c d : Category} {slots : List Slot}

theorem Loads.readTagged? {t : Tree c} {shapes : List (Shape c)} (ht : t.Loads)
    (hform : form c = .tagged shapes) {j : Json} (hj : t.Encodes j) (r : Repeats) :
    Shape.readTagged? r (layerOf j) shapes = some t := by
  rw [← ht j hj r, Layer.tree?_eq _ _ (by rw [hform]; nofun), hform]
  rfl

theorem Loads.read? {t : Tree c} {s : Shape c} (ht : t.Loads) (hform : form c = .plain s)
    {j : Json} (hj : t.Encodes j) (r : Repeats) : s.read? r (layerOf j) = some t := by
  rw [← ht j hj r, Layer.tree?_eq _ _ (by rw [hform]; nofun), hform]
  rfl

/-! ### One lemma for each way to stand in a category -/

/-- A category with one node. -/
theorem loads_plain (s : Shape c) {vs : Values s.fields} {t : Tree c} (hform : form c = .plain s)
    (hsupplies : Supplies slots s.fields vs) (hnode : ∀ j, t.Encodes j → j.IsNode s.name slots)
    (hbuild : s.build vs = t) : t.Loads := by
  intro j hj r
  rw [Layer.tree?_eq _ _ (by rw [hform]; nofun), hform, ← hbuild]
  exact s.read?_of_isNode (hnode j hj) hsupplies r

/-- One of the nodes of a category. -/
theorem loads_tagged (s : Shape c) {vs : Values s.fields} {t : Tree c} {shapes : List (Shape c)}
    (hform : form c = .tagged shapes) (hs : s ∈ shapes) (hsupplies : Supplies slots s.fields vs)
    (hnode : ∀ j, t.Encodes j → j.IsNode s.name slots) (hbuild : s.build vs = t) : t.Loads := by
  intro j hj r
  rw [Layer.tree?_eq _ _ (by rw [hform]; nofun), hform, ← hbuild]
  have hnamed := Shape.named?_of_mem (Category.names_eq hform ▸ c.names_nodup) hs
  show Shape.readTagged? r (layerOf j) shapes = _
  rw [Shape.readTagged?_of_named (hnode j hj).named hnamed]
  exact s.read?_of_isNode (hnode j hj) hsupplies r

/-- The node of another category, as one of the nodes of this one. -/
theorem loads_mapped {s : Shape d} {u : Tree d} {f : Tree d → Tree c} {shapes : List (Shape c)}
    (hu : u.Loads) (hd : form d = .plain s) (hname : ∀ j, u.Encodes j → (layerOf j).Named s.name)
    (hform : form c = .tagged shapes) (hs : s.map f ∈ shapes)
    (hencodes : (f u).Encodes = u.Encodes) : (f u).Loads := by
  intro j hj r
  rw [hencodes] at hj
  rw [Layer.tree?_eq _ _ (by rw [hform]; nofun), hform]
  have hnamed := Shape.named?_of_mem (Category.names_eq hform ▸ c.names_nodup) hs
  show Shape.readTagged? r (layerOf j) shapes = _
  rw [Shape.readTagged?_of_named (hname j hj) hnamed, Shape.read?_map, hu.read? hd hj r]
  rfl

/-- The nodes of another category, among the nodes of this one. -/
theorem loads_included {u : Tree d} {f : Tree d → Tree c} {shapes : List (Shape d)}
    {others : List (Shape c)} (hu : u.Loads) (hd : form d = .tagged shapes)
    (hform : form c = .tagged others) (hmem : ∀ s ∈ shapes, s.map f ∈ others)
    (hencodes : (f u).Encodes = u.Encodes) : (f u).Loads := by
  intro j hj r
  rw [hencodes] at hj
  obtain ⟨s, hs, l', hread, hothers⟩ := Shape.readTagged?_eq (hu.readTagged? hd hj r)
  rw [Layer.tree?_eq _ _ (by rw [hform]; nofun), hform]
  have hnamed : Shape.named? s.name others = some (s.map f) :=
    Shape.named?_of_mem (Category.names_eq hform ▸ c.names_nodup) (hmem s hs)
  show Shape.readTagged? r (layerOf j) others = _
  rw [hothers, hnamed, Option.bind_some, Shape.read?_map, hread]
  rfl

/-- Parts of a union that have no node of this name are passed by. -/
theorem findSome?_wholes_eq_none {l : Layer} {r : Repeats} {shapes : List (Shape d)} {u : Tree d}
    (hread : Shape.readTagged? r l shapes = some u) {wholes : List (Whole c)}
    (hwholes : ∀ w ∈ wholes, ∃ others, form w.category = .tagged others ∧
      ∀ s ∈ shapes, s.name ∉ others.map (·.name)) :
    wholes.findSome? (fun w => ((form w.category).readNode? r l).map w.embed) = none := by
  rw [List.findSome?_eq_none_iff]
  intro w hw
  obtain ⟨others, hothers, hnames⟩ := hwholes w hw
  obtain ⟨s, hs, l', -, hs'⟩ := Shape.readTagged?_eq hread
  have hnone : (form w.category).readNode? r l = none := by
    rw [hothers]
    show Shape.readTagged? r l others = none
    rw [hs', Shape.named?_eq_none (hnames s hs)]
    rfl
  rw [hnone]
  rfl

/-- A tree of a category that a union takes as a whole. -/
theorem loads_whole {u : Tree d} {f : Tree d → Tree c} {shapes : List (Shape d)}
    (before after : List (Whole c)) {arms : List (Shape c)} (hu : u.Loads)
    (hd : form d = .tagged shapes) (hform : form c = .union (before ++ ⟨f⟩ :: after) arms)
    (hbefore : ∀ w ∈ before, ∃ others, form w.category = .tagged others ∧
      ∀ s ∈ shapes, s.name ∉ others.map (·.name))
    (hencodes : (f u).Encodes = u.Encodes) : (f u).Loads := by
  intro j hj r
  rw [hencodes] at hj
  have hread := hu.readTagged? hd hj r
  have hnode : (form d).readNode? r (layerOf j) = some u := by
    rw [hd]
    exact hread
  rw [Layer.tree?_eq _ _ (by rw [hform]; nofun), hform, Form.read?, List.findSome?_append,
    findSome?_wholes_eq_none hread hbefore, List.findSome?_cons, hnode]
  rfl

/-- A further node of a union, whose name is none of those in the part before. -/
theorem loads_of_arm {t : Tree c} {s : Shape c} {w : Whole c} {others : List (Shape w.category)}
    {arms : List (Shape c)} (hform : form c = .union [w] arms)
    (hw : form w.category = .tagged others) (hother : s.name ∉ others.map (·.name))
    (hnodup : (arms.map (·.name)).Nodup) (hs : s ∈ arms)
    (hname : ∀ j, t.Encodes j → (layerOf j).Named s.name)
    (hread : ∀ j, t.Encodes j → s.read? .lastWins (layerOf j) = some t) : t.Loads := by
  intro j hj r
  have hnone : (form w.category).readNode? r (layerOf j) = none := by
    rw [hw]
    exact Shape.readTagged?_of_not_mem (hname j hj) hother
  rw [Layer.tree?_eq _ _ (by rw [hform]; nofun), hform, Form.read?, List.findSome?_cons, hnone]
  exact Shape.findSome?_readArm? (hname j hj) hnodup hs (hread j hj)

theorem loads_arm (s : Shape c) {vs : Values s.fields} {t : Tree c} {w : Whole c}
    {others : List (Shape w.category)} {arms : List (Shape c)} (hform : form c = .union [w] arms)
    (hw : form w.category = .tagged others) (hother : s.name ∉ others.map (·.name))
    (hnodup : (arms.map (·.name)).Nodup) (hs : s ∈ arms) (hsupplies : Supplies slots s.fields vs)
    (hnode : ∀ j, t.Encodes j → j.IsNode s.name slots) (hbuild : s.build vs = t) : t.Loads :=
  loads_of_arm hform hw hother hnodup hs (fun j hj => (hnode j hj).named)
    fun j hj => hbuild ▸ s.read?_of_isNode (hnode j hj) hsupplies .lastWins

/-- The node of another category, as a further node of a union. -/
theorem loads_mapped_arm {s : Shape d} {u : Tree d} {f : Tree d → Tree c} {w : Whole c}
    {others : List (Shape w.category)} {arms : List (Shape c)} (hu : u.Loads)
    (hd : form d = .plain s) (hname : ∀ j, u.Encodes j → (layerOf j).Named s.name)
    (hform : form c = .union [w] arms) (hw : form w.category = .tagged others)
    (hother : s.name ∉ others.map (·.name)) (hnodup : (arms.map (·.name)).Nodup)
    (hs : s.map f ∈ arms) (hencodes : (f u).Encodes = u.Encodes) : (f u).Loads := by
  refine loads_of_arm hform hw hother hnodup hs (fun j hj => hname j (hencodes ▸ hj)) fun j hj => ?_
  rw [hencodes] at hj
  rw [Shape.read?_map, hu.read? hd hj]
  rfl

/-! ### All trees -/

theorem loads_nil : (nil : Tree (.list c)).Loads := by
  rintro j rfl r
  rfl

theorem loads_cons {t : Tree c} {ts : Tree (.list c)} (ht : t.Loads) (hts : ts.Loads) :
    (cons t ts).Loads := by
  rintro j ⟨x, xs, rfl, hx, hxs⟩ r
  have htail : treesOfParts? r c (Part.ofItems xs) = some ts := hts (.array xs) hxs r
  show treesOfParts? r c (Part.ofItems (x :: xs)) = _
  rw [Part.ofItems, treesOfParts?, tree?_ofJson, ht x hx r, htail]
  rfl

theorem loads_absent : (absent : Tree (.option c)).Loads := by
  rintro j rfl r
  rfl

theorem loads_present {t : Tree c} (ht : t.Loads) : (present t).Loads := by
  rintro j ⟨hnull, hj⟩ r
  have hmap : (layerOf j).tree? r (.option c) = ((layerOf j).tree? r c).map present := by
    cases j with
    | null => exact absurd rfl hnull
    | bool | number | string | array | object => rfl
  rw [hmap, ht j hj r]
  rfl

/-- Whatever stands for a tree is read as this tree. -/
theorem loads (t : Tree c) : t.Loads := by
  induction t with
  | nil => exact loads_nil
  | cons _ _ ht hts => exact loads_cons ht hts
  | absent => exact loads_absent
  | present _ ht => exact loads_present ht
  -- programs and modules
  | script _ _ hds hss =>
    exact loads_tagged Shape.script rfl (by simp) (.tree hds (.tree hss .nil)) (fun _ h => h) rfl
  | moduleBody _ _ hds his =>
    exact loads_tagged Shape.moduleBody rfl (by simp) (.tree hds (.tree his .nil)) (fun _ h => h)
      rfl
  | directive => exact loads_plain Shape.directive rfl (.text .nil) (fun _ h => h) rfl
  | ofImport _ hu => exact loads_whole [] _ hu rfl rfl (List.forall_mem_nil _) rfl
  | ofExport _ hu =>
    exact loads_whole [⟨ofImport⟩] _ hu rfl rfl
      (List.forall_mem_singleton.mpr ⟨_, rfl, by decide⟩) rfl
  | ofStatement _ hu =>
    exact loads_whole [⟨ofImport⟩, ⟨ofExport⟩] _ hu rfl rfl
      (List.forall_mem_cons.mpr ⟨⟨_, rfl, by decide⟩,
        List.forall_mem_singleton.mpr ⟨_, rfl, by decide⟩⟩) rfl
  | importNamed _ _ _ hd hns =>
    exact loads_tagged Shape.importNamed rfl (by simp) (.tree? hd (.tree hns (.text .nil)))
      (fun _ h => h) rfl
  | importNamespace _ _ _ hd hn =>
    exact loads_tagged Shape.importNamespace rfl (by simp) (.tree? hd (.tree hn (.text .nil)))
      (fun _ h => h) rfl
  | importSpecifier _ _ hb =>
    exact loads_plain Shape.importSpecifier rfl (.text? (.tree hb .nil)) (fun _ h => h) rfl
  | exportAll => exact loads_tagged Shape.exportAll rfl (by simp) (.text .nil) (fun _ h => h) rfl
  | exportFrom _ _ hns =>
    exact loads_tagged Shape.exportFrom rfl (by simp) (.tree hns (.text .nil)) (fun _ h => h) rfl
  | exportFromSpecifier =>
    exact loads_plain Shape.exportFromSpecifier rfl (.text (.text? .nil)) (fun _ h => h) rfl
  | exportLocals _ hns =>
    exact loads_tagged Shape.exportLocals rfl (by simp) (.tree hns .nil) (fun _ h => h) rfl
  | exportLocalSpecifier _ _ hn =>
    exact loads_plain Shape.exportLocalSpecifier rfl (.tree hn (.text? .nil)) (fun _ h => h) rfl
  | exportDeclared _ hd =>
    exact loads_tagged Shape.exportDeclared rfl (by simp) (.tree hd .nil) (fun _ h => h) rfl
  | exportDefault _ hb =>
    exact loads_tagged Shape.exportDefault rfl (by simp) (.tree hb .nil) (fun _ h => h) rfl
  | ofExportedFunction u hu =>
    exact loads_mapped hu rfl (by cases u; exact fun _ h => h.named) rfl (by simp) rfl
  | ofExportedClass u hu =>
    exact loads_mapped hu rfl (by cases u; exact fun _ h => h.named) rfl (by simp) rfl
  | ofExportedVariables u hu =>
    exact loads_mapped hu rfl (by cases u; exact fun _ h => h.named) rfl (by simp) rfl
  | ofDefaultExpression _ hu => exact loads_whole [] _ hu rfl rfl (List.forall_mem_nil _) rfl
  | ofDefaultFunction u hu =>
    exact loads_mapped_arm hu rfl (by cases u; exact fun _ h => h.named) rfl rfl (by decide)
      (by decide) (.head _) rfl
  | ofDefaultClass u hu =>
    exact loads_mapped_arm hu rfl (by cases u; exact fun _ h => h.named) rfl rfl (by decide)
      (by decide) (.tail _ (.head _)) rfl
  -- functions and classes
  | function _ _ _ _ _ hn hps hb =>
    exact loads_plain Shape.function rfl (.flag (.flag (.tree hn (.tree hps (.tree hb .nil)))))
      (fun _ h => h) rfl
  | parameters _ _ his hr =>
    exact loads_plain Shape.parameters rfl (.tree his (.tree? hr .nil)) (fun _ h => h) rfl
  | ofBinding _ hu => exact loads_whole [] _ hu rfl rfl (List.forall_mem_nil _) rfl
  | bindingWithDefault _ _ hb hv =>
    exact loads_arm Shape.bindingWithDefault rfl rfl (by decide) (by decide)
      (.head _) (.tree hb (.tree hv .nil)) (fun _ h => h) rfl
  | functionBody _ _ hds hss =>
    exact loads_plain Shape.functionBody rfl (.tree hds (.tree hss .nil)) (fun _ h => h) rfl
  | classDeclaration _ _ _ hn hp hes =>
    exact loads_plain Shape.classDeclaration rfl (.tree hn (.tree? hp (.tree hes .nil)))
      (fun _ h => h) rfl
  | classElement _ _ hm =>
    exact loads_plain Shape.classElement rfl (.flag (.tree hm .nil)) (fun _ h => h) rfl
  | method _ _ _ _ _ hn hps hb =>
    exact loads_tagged Shape.method rfl (by simp [Form.methods])
      (.flag (.flag (.tree hn (.tree hps (.tree hb .nil))))) (fun _ h => h) rfl
  | getter _ _ hn hb =>
    exact loads_tagged Shape.getter rfl (by simp [Form.methods]) (.tree hn (.tree hb .nil))
      (fun _ h => h) rfl
  | setter _ _ _ hn hp hb =>
    exact loads_tagged Shape.setter rfl (by simp [Form.methods])
      (.tree hn (.tree hp (.tree hb .nil))) (fun _ h => h) rfl
  -- properties
  | computedName _ he =>
    exact loads_tagged Shape.computedName rfl (by simp) (.tree he .nil) (fun _ h => h) rfl
  | staticName => exact loads_tagged Shape.staticName rfl (by simp) (.text .nil) (fun _ h => h) rfl
  | dataProperty _ _ hn hv =>
    exact loads_tagged Shape.dataProperty rfl (by simp [Form.methods]) (.tree hn (.tree hv .nil))
      (fun _ h => h) rfl
  | shorthandProperty _ hn =>
    exact loads_tagged Shape.shorthandProperty rfl (by simp [Form.methods]) (.tree hn .nil)
      (fun _ h => h) rfl
  | ofMethod _ hu => exact loads_included hu rfl rfl (by simp [Form.methods]) rfl
  -- bindings
  | bindingName => exact loads_plain Shape.bindingName rfl (.text .nil) (fun _ h => h) rfl
  | ofBindingName u hu =>
    exact loads_mapped hu rfl (by cases u; exact fun _ h => h.named) rfl (by simp) rfl
  | arrayBinding _ _ hes hr =>
    exact loads_tagged Shape.arrayBinding rfl (by simp) (.tree hes (.tree? hr .nil)) (fun _ h => h)
      rfl
  | objectBinding _ hps =>
    exact loads_tagged Shape.objectBinding rfl (by simp) (.tree hps .nil) (fun _ h => h) rfl
  | bindingShorthand _ _ hn hv =>
    exact loads_tagged Shape.bindingShorthand rfl (by simp) (.tree hn (.tree? hv .nil))
      (fun _ h => h) rfl
  | bindingProperty _ _ hn hb =>
    exact loads_tagged Shape.bindingProperty rfl (by simp) (.tree hn (.tree hb .nil)) (fun _ h => h)
      rfl
  -- assignment targets
  | ofSimpleTarget _ hu => exact loads_included hu rfl rfl (by simp [Form.simpleTargets]) rfl
  | arrayTarget _ _ hes hr =>
    exact loads_tagged Shape.arrayTarget rfl (by simp [Form.simpleTargets])
      (.tree hes (.tree? hr .nil)) (fun _ h => h) rfl
  | objectTarget _ hps =>
    exact loads_tagged Shape.objectTarget rfl (by simp [Form.simpleTargets]) (.tree hps .nil)
      (fun _ h => h) rfl
  | ofTargetName u hu =>
    exact loads_mapped hu rfl (by cases u; exact fun _ h => h.named) rfl
      (by simp [Form.simpleTargets]) rfl
  | staticMemberTarget _ _ ho =>
    exact loads_tagged Shape.staticMemberTarget rfl (by simp [Form.simpleTargets])
      (.tree ho (.text .nil)) (fun _ h => h) rfl
  | computedMemberTarget _ _ ho he =>
    exact loads_tagged Shape.computedMemberTarget rfl (by simp [Form.simpleTargets])
      (.tree ho (.tree he .nil)) (fun _ h => h) rfl
  | targetName => exact loads_plain Shape.targetName rfl (.text .nil) (fun _ h => h) rfl
  | ofTarget _ hu => exact loads_whole [] _ hu rfl rfl (List.forall_mem_nil _) rfl
  | targetWithDefault _ _ ht hv =>
    exact loads_arm Shape.targetWithDefault rfl rfl (by decide) (by decide)
      (.head _) (.tree ht (.tree hv .nil)) (fun _ h => h) rfl
  | targetShorthand _ _ hn hv =>
    exact loads_tagged Shape.targetShorthand rfl (by simp) (.tree hn (.tree? hv .nil))
      (fun _ h => h) rfl
  | targetProperty _ _ hn ht =>
    exact loads_tagged Shape.targetProperty rfl (by simp) (.tree hn (.tree ht .nil)) (fun _ h => h)
      rfl
  -- statements
  | blockStatement _ hb =>
    exact loads_tagged Shape.blockStatement rfl (by simp [Form.statements]) (.tree hb .nil)
      (fun _ h => h) rfl
  | breakStatement =>
    exact loads_tagged Shape.breakStatement rfl (by simp [Form.statements]) (.text? .nil)
      (fun _ h => h) rfl
  | continueStatement =>
    exact loads_tagged Shape.continueStatement rfl (by simp [Form.statements]) (.text? .nil)
      (fun _ h => h) rfl
  | debuggerStatement =>
    exact loads_tagged Shape.debuggerStatement rfl (by simp [Form.statements]) .nil (fun _ h => h)
      rfl
  | doWhile _ _ hb ht =>
    exact loads_tagged Shape.doWhile rfl (by simp [Form.statements]) (.tree hb (.tree ht .nil))
      (fun _ h => h) rfl
  | emptyStatement =>
    exact loads_tagged Shape.emptyStatement rfl (by simp [Form.statements]) .nil (fun _ h => h) rfl
  | expressionStatement _ he =>
    exact loads_tagged Shape.expressionStatement rfl (by simp [Form.statements]) (.tree he .nil)
      (fun _ h => h) rfl
  | forIn _ _ _ hl hr hb =>
    exact loads_tagged Shape.forIn rfl (by simp [Form.statements])
      (.tree hl (.tree hr (.tree hb .nil))) (fun _ h => h) rfl
  | forOf _ _ _ hl hr hb =>
    exact loads_tagged Shape.forOf rfl (by simp [Form.statements])
      (.tree hl (.tree hr (.tree hb .nil))) (fun _ h => h) rfl
  | forLoop _ _ _ _ hs ht hu hb =>
    exact loads_tagged Shape.forLoop rfl (by simp [Form.statements])
      (.tree? hs (.tree? ht (.tree? hu (.tree hb .nil)))) (fun _ h => h) rfl
  | ifStatement _ _ _ ht hs ha =>
    exact loads_tagged Shape.ifStatement rfl (by simp [Form.statements])
      (.tree ht (.tree hs (.tree? ha .nil))) (fun _ h => h) rfl
  | labeled _ _ hb =>
    exact loads_tagged Shape.labeled rfl (by simp [Form.statements]) (.text (.tree hb .nil))
      (fun _ h => h) rfl
  | returnStatement _ he =>
    exact loads_tagged Shape.returnStatement rfl (by simp [Form.statements]) (.tree? he .nil)
      (fun _ h => h) rfl
  | switchStatement _ _ hd hcs =>
    exact loads_tagged Shape.switchStatement rfl (by simp [Form.statements])
      (.tree hd (.tree hcs .nil)) (fun _ h => h) rfl
  | switchWithDefault _ _ _ _ hd hbefore hs hafter =>
    exact loads_tagged Shape.switchWithDefault rfl (by simp [Form.statements])
      (.tree hd (.tree hbefore (.tree hs (.tree hafter .nil)))) (fun _ h => h) rfl
  | throwStatement _ he =>
    exact loads_tagged Shape.throwStatement rfl (by simp [Form.statements]) (.tree he .nil)
      (fun _ h => h) rfl
  | tryCatch _ _ hb hs =>
    exact loads_tagged Shape.tryCatch rfl (by simp [Form.statements]) (.tree hb (.tree hs .nil))
      (fun _ h => h) rfl
  | tryFinally _ _ _ hb hs hf =>
    exact loads_tagged Shape.tryFinally rfl (by simp [Form.statements])
      (.tree hb (.tree? hs (.tree hf .nil))) (fun _ h => h) rfl
  | variableStatement _ hd =>
    exact loads_tagged Shape.variableStatement rfl (by simp [Form.statements]) (.tree hd .nil)
      (fun _ h => h) rfl
  | whileLoop _ _ ht hb =>
    exact loads_tagged Shape.whileLoop rfl (by simp [Form.statements]) (.tree ht (.tree hb .nil))
      (fun _ h => h) rfl
  | withStatement _ _ ho hb =>
    exact loads_tagged Shape.withStatement rfl (by simp [Form.statements])
      (.tree ho (.tree hb .nil)) (fun _ h => h) rfl
  | ofFunction u hu =>
    exact loads_mapped hu rfl (by cases u; exact fun _ h => h.named) rfl (by simp [Form.statements])
      rfl
  | ofClass u hu =>
    exact loads_mapped hu rfl (by cases u; exact fun _ h => h.named) rfl (by simp [Form.statements])
      rfl
  | block _ hss => exact loads_plain Shape.block rfl (.tree hss .nil) (fun _ h => h) rfl
  | switchCase _ _ ht hss =>
    exact loads_plain Shape.switchCase rfl (.tree ht (.tree hss .nil)) (fun _ h => h) rfl
  | switchDefault _ hss =>
    exact loads_plain Shape.switchDefault rfl (.tree hss .nil) (fun _ h => h) rfl
  | catchClause _ _ hb hs =>
    exact loads_plain Shape.catchClause rfl (.tree hb (.tree hs .nil)) (fun _ h => h) rfl
  | declaration _ _ hds =>
    exact loads_plain Shape.declaration rfl (.declarationKind (.tree hds .nil)) (fun _ h => h) rfl
  | declarator _ _ hb hv =>
    exact loads_plain Shape.declarator rfl (.tree hb (.tree? hv .nil)) (fun _ h => h) rfl
  | ofLoopTarget _ hu => exact loads_whole [] _ hu rfl rfl (List.forall_mem_nil _) rfl
  | ofLoopDeclaration u hu =>
    exact loads_mapped_arm hu rfl (by cases u; exact fun _ h => h.named) rfl rfl (by decide)
      (by decide) (.head _) rfl
  | ofStartExpression _ hu => exact loads_whole [] _ hu rfl rfl (List.forall_mem_nil _) rfl
  | ofStartDeclaration u hu =>
    exact loads_mapped_arm hu rfl (by cases u; exact fun _ h => h.named) rfl rfl (by decide)
      (by decide) (.head _) rfl
  -- expressions
  | boolean =>
    exact loads_tagged Shape.boolean rfl (by simp [Form.expressions]) (.flag .nil) (fun _ h => h)
      rfl
  | infinity =>
    exact loads_tagged Shape.infinity rfl (by simp [Form.expressions]) .nil (fun _ h => h) rfl
  | null => exact loads_tagged Shape.null rfl (by simp [Form.expressions]) .nil (fun _ h => h) rfl
  | number =>
    exact loads_tagged Shape.number rfl (by simp [Form.expressions]) (.number .nil) (fun _ h => h)
      rfl
  | regExp =>
    exact loads_tagged Shape.regExp rfl (by simp [Form.expressions])
      (.text (.flag (.flag (.flag (.flag (.flag .nil)))))) (fun _ h => h) rfl
  | string =>
    exact loads_tagged Shape.string rfl (by simp [Form.expressions]) (.text .nil) (fun _ h => h) rfl
  | array _ hes =>
    exact loads_tagged Shape.array rfl (by simp [Form.expressions]) (.tree hes .nil) (fun _ h => h)
      rfl
  | object _ hps =>
    exact loads_tagged Shape.object rfl (by simp [Form.expressions]) (.tree hps .nil) (fun _ h => h)
      rfl
  | functionExpression _ _ _ _ _ hn hps hb =>
    exact loads_tagged Shape.functionExpression rfl (by simp [Form.expressions])
      (.flag (.flag (.tree? hn (.tree hps (.tree hb .nil))))) (fun _ h => h) rfl
  | classExpression _ _ _ hn hp hes =>
    exact loads_tagged Shape.classExpression rfl (by simp [Form.expressions])
      (.tree? hn (.tree? hp (.tree hes .nil))) (fun _ h => h) rfl
  | ofIdentifier u hu =>
    exact loads_mapped hu rfl (by cases u; exact fun _ h => h.named) rfl
      (by simp [Form.expressions]) rfl
  | this => exact loads_tagged Shape.this rfl (by simp [Form.expressions]) .nil (fun _ h => h) rfl
  | template _ _ ht hps =>
    exact loads_tagged Shape.template rfl (by simp [Form.expressions]) (.tree? ht (.tree hps .nil))
      (fun _ h => h) rfl
  | newTarget =>
    exact loads_tagged Shape.newTarget rfl (by simp [Form.expressions]) .nil (fun _ h => h) rfl
  | staticMember _ _ ho =>
    exact loads_tagged Shape.staticMember rfl (by simp [Form.expressions]) (.tree ho (.text .nil))
      (fun _ h => h) rfl
  | computedMember _ _ ho he =>
    exact loads_tagged Shape.computedMember rfl (by simp [Form.expressions])
      (.tree ho (.tree he .nil)) (fun _ h => h) rfl
  | call _ _ hf has =>
    exact loads_tagged Shape.call rfl (by simp [Form.expressions]) (.tree hf (.tree has .nil))
      (fun _ h => h) rfl
  | construct _ _ hf has =>
    exact loads_tagged Shape.construct rfl (by simp [Form.expressions]) (.tree hf (.tree has .nil))
      (fun _ h => h) rfl
  | unary _ _ he =>
    exact loads_tagged Shape.unary rfl (by simp [Form.expressions]) (.unaryOperator (.tree he .nil))
      (fun _ h => h) rfl
  | update _ _ _ ht =>
    exact loads_tagged Shape.update rfl (by simp [Form.expressions])
      (.flag (.updateOperator (.tree ht .nil))) (fun _ h => h) rfl
  | binary _ _ _ hl hr =>
    exact loads_tagged Shape.binary rfl (by simp [Form.expressions])
      (.tree hl (.binaryOperator (.tree hr .nil))) (fun _ h => h) rfl
  | conditional _ _ _ ht ha hb =>
    exact loads_tagged Shape.conditional rfl (by simp [Form.expressions])
      (.tree ht (.tree ha (.tree hb .nil))) (fun _ h => h) rfl
  | assign _ _ ht hv =>
    exact loads_tagged Shape.assign rfl (by simp [Form.expressions]) (.tree ht (.tree hv .nil))
      (fun _ h => h) rfl
  | compoundAssign _ _ _ ht hv =>
    exact loads_tagged Shape.compoundAssign rfl (by simp [Form.expressions])
      (.tree ht (.assignmentOperator (.tree hv .nil))) (fun _ h => h) rfl
  | arrow _ _ _ hps hb =>
    exact loads_tagged Shape.arrow rfl (by simp [Form.expressions])
      (.flag (.tree hps (.tree hb .nil))) (fun _ h => h) rfl
  | await _ he =>
    exact loads_tagged Shape.await rfl (by simp [Form.expressions]) (.tree he .nil) (fun _ h => h)
      rfl
  | yield _ he =>
    exact loads_tagged Shape.yield rfl (by simp [Form.expressions]) (.tree? he .nil) (fun _ h => h)
      rfl
  | yieldFrom _ he =>
    exact loads_tagged Shape.yieldFrom rfl (by simp [Form.expressions]) (.tree he .nil)
      (fun _ h => h) rfl
  | identifier => exact loads_plain Shape.identifier rfl (.text .nil) (fun _ h => h) rfl
  | ofCallee _ hu => exact loads_whole [] _ hu rfl rfl (List.forall_mem_nil _) rfl
  | super =>
    exact loads_arm Shape.super rfl rfl (by decide) (by decide) (.head _) .nil
      (fun _ h => h) rfl
  | ofArgument _ hu => exact loads_whole [] _ hu rfl rfl (List.forall_mem_nil _) rfl
  | spread _ he =>
    exact loads_arm Shape.spread rfl rfl (by decide) (by decide) (.head _)
      (.tree he .nil) (fun _ h => h) rfl
  | ofSubstitution _ hu => exact loads_whole [] _ hu rfl rfl (List.forall_mem_nil _) rfl
  | templateText =>
    exact loads_arm Shape.templateText rfl rfl (by decide) (by decide) (.head _)
      (.text .nil) (fun _ h => h) rfl
  | ofExpressionBody _ hu => exact loads_whole [] _ hu rfl rfl (List.forall_mem_nil _) rfl
  | ofFunctionBody u hu =>
    exact loads_mapped_arm hu rfl (by cases u; exact fun _ h => h.named) rfl rfl (by decide)
      (by decide) (.head _) rfl

/-- Whatever stands for a program is read as this program, and so it stands for no other one. -/
theorem ofJson?_of_encodes (p : Program) (j : Json) (h : p.Encodes j) :
    Tree.ofJson? .program j = some p ∧ ∀ q : Program, q.Encodes j → q = p := by
  have hread (q : Program) (hq : q.Encodes j) : Tree.ofJson? .program j = some q := by
    rw [Tree.ofJson?, tree?_ofJson]
    exact q.loads j hq .refused
  exact ⟨hread p h, fun q hq => Option.some.inj ((hread q hq).symm.trans (hread p h))⟩

/-- The statements `[, 1.0]` and `break`, with the members in any order, an unknown member, a hole
and a label that is missing. -/
theorem ofJson?_of_encodes_shuffled :
    let one : Double := .ofBits 0x3FF0000000000000
    let elements : Tree (.list (.option .argument)) :=
      .cons .absent (.cons (.present (.ofArgument (.number one))) .nil)
    let p : Program := .script .nil
      (.cons (.expressionStatement (.array elements)) (.cons (.breakStatement none) .nil))
    let number : Json := .object [("value", .number { coefficient := 10, exponent := -1 } false),
      ("type", .string "LiteralNumericExpression")]
    let array : Json := .object [("elements", .array [.null, number]),
      ("type", .string "ArrayExpression")]
    let statement : Json := .object [("loc", .null), ("expression", array),
      ("type", .string "ExpressionStatement")]
    let j : Json := .object [("statements", .array [statement,
      .object [("type", .string "BreakStatement")]]), ("type", .string "Script"),
      ("directives", .array [])]
    p.Encodes j ∧ Tree.ofJson? .program j = some p := by
  intro one elements p number array statement j
  have hone : (Decimal.toDouble { coefficient := 10, exponent := -1 }) = one := by decide
  have hnumber : (Tree.number one).Encodes number :=
    ⟨_, rfl, .inl ⟨_, rfl, rfl⟩, List.forall_mem_singleton.mpr
      (.inl ⟨_, rfl, by decide, _, _, rfl, hone⟩)⟩
  have harray : (Tree.array elements).Encodes array :=
    ⟨_, rfl, .inl ⟨_, rfl, rfl⟩, List.forall_mem_singleton.mpr (.inl ⟨_, rfl,
      ⟨_, _, rfl, rfl, _, _, rfl, ⟨nofun, hnumber⟩, rfl⟩⟩)⟩
  have h : p.Encodes j :=
    ⟨_, rfl, .inl ⟨_, rfl, rfl⟩, List.forall_mem_cons.mpr ⟨.inl ⟨_, rfl, rfl⟩,
      List.forall_mem_singleton.mpr (.inl ⟨_, rfl, ⟨_, _, rfl,
        ⟨_, rfl, .inl ⟨_, rfl, rfl⟩, List.forall_mem_singleton.mpr (.inl ⟨_, rfl, harray⟩)⟩,
        _, _, rfl, ⟨_, rfl, .inl ⟨_, rfl, rfl⟩,
          List.forall_mem_singleton.mpr (.inr ⟨rfl, rfl⟩)⟩, rfl⟩⟩)⟩⟩
  exact ⟨h, (ofJson?_of_encodes p j h).1⟩

end Tree

end EcmaPrinter
