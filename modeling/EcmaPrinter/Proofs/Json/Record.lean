import EcmaPrinter.Json.Record
import EcmaPrinter.Proofs.Json.Reading

/-!
Records are read by the values of their fields.

A reader interprets values by a relation if, on a text that has a value, it takes what stands in
relation to the value and goes as far as the value goes (`Interprets`).  Readers of scalars do
(`interprets_readOnly`), and so does a record whose fields do (`interprets_readRecord`): it goes
through the members that the value has, sets a field for each that is one, and skips the others.
-/

namespace EcmaPrinter.Json

/-- On texts with a value, the reader goes as far as the value, and takes what the relation says. -/
def Interprets {α : Type} (depth : Nat) (r : Reader α) (R : Json → α → Prop) : Prop :=
  ∀ ⦃text j rest⦄, readValue .used depth text = .ok (j, rest) → ∀ ⦃a rest'⦄,
    r text = .ok (a, rest') ↔ rest' = rest ∧ R j a

theorem Interprets.congr {α : Type} {depth : Nat} {r : Reader α} {R S : Json → α → Prop}
    (h : Interprets depth r R) (hRS : ∀ j a, R j a ↔ S j a) : Interprets depth r S := by
  intro text j rest hvalue a rest'
  rw [h hvalue, hRS]

/-- What is read of a whole text. -/
theorem Interprets.readAll_eq_ok_iff {α : Type} {depth : Nat} {r : Reader α} {R : Json → α → Prop}
    (h : Interprets depth r R) {text : String} {j : Json}
    (hvalue : readAll (readValue .used depth) text = .ok j) {a : α} :
    readAll r text = .ok a ↔ R j a := by
  obtain ⟨⟨k, rest⟩, hk, hend⟩ := bind_eq_ok.mp hvalue
  simp only at hend
  split at hend
  · next hrest =>
    cases hend
    rw [readAll, bind_eq_ok]
    constructor
    · rintro ⟨⟨b, more⟩, hb, hend⟩
      obtain ⟨rfl, hR⟩ := (h hk).mp hb
      simp only [if_pos hrest] at hend
      cases hend
      exact hR
    · intro hR
      exact ⟨(a, rest), (h hk).mpr ⟨rfl, hR⟩, if_pos hrest⟩
  · cases hend

/-! ### Scalars -/

section

variable {α : Type} {accept : Json → Option α} (harray : ∀ js, accept (.array js) = none)
  (hobject : ∀ ms, accept (.object ms) = none) (depth : Nat)

include harray hobject

/-- A reader that takes only scalars reads a value and then decides. -/
theorem readOnly_eq_ok_iff {text rest : List Char} {a : α} :
    readOnly accept text = .ok (a, rest) ↔
      ∃ j, readValue .used depth text = .ok (j, rest) ∧ accept j = some a := by
  simp only [readValue_eq_ok_iff]
  unfold readOnly
  cases skipBlanks text with
  | nil => exact ⟨nofun, fun ⟨_, ⟨_, _, h, _⟩, _⟩ => nomatch h⟩
  | cons c more =>
    simp only
    by_cases hc : (c == '[' || c == '\x7b') = true
    · rw [if_pos hc]
      refine ⟨nofun, ?_⟩
      rintro ⟨j, ⟨_, _, heq, hat⟩, haccept⟩
      cases heq
      cases hat with
      | array => rw [harray] at haccept; cases haccept
      | object => rw [hobject] at haccept; cases haccept
      | scalar hbracket hbrace => simp [hbracket, hbrace] at hc
    · rw [if_neg hc, bind_eq_ok]
      obtain ⟨hbracket, hbrace⟩ : c ≠ '[' ∧ c ≠ '\x7b' := by simpa using hc
      constructor
      · rintro ⟨⟨j, after⟩, hread, h⟩
        simp only at h
        split at h
        · next haccept =>
          cases h
          exact ⟨j, ⟨c, more, rfl, .scalar hbracket hbrace hread⟩, haccept⟩
        · cases h
      · rintro ⟨j, ⟨_, _, heq, hat⟩, haccept⟩
        cases heq
        cases hat with
        | array => exact absurd rfl hbracket
        | object => exact absurd rfl hbrace
        | scalar _ _ hread => exact ⟨(j, rest), hread, by simp only [haccept]⟩

theorem interprets_readOnly : Interprets depth (readOnly accept) fun j a => accept j = some a := by
  intro text j rest hvalue a rest'
  rw [readOnly_eq_ok_iff harray hobject depth, exists_value_iff hvalue]

end

/-! ### Ends of arrays -/

theorem readItemStart_eq_false_iff {isFirst : Bool} {text rest : List Char} :
    readItemStart isFirst text = .ok (false, rest) ↔ skipBlanks text = ']' :: rest := by
  unfold readItemStart
  split
  · simp_all
  · simp_all
  · next hne heq =>
    refine ⟨fun h => ?_, fun h => ?_⟩
    · repeat' split at h
      all_goals cases h
    · exact (hne (List.cons.inj (heq.symm.trans h)).1).elim

variable {σ : Type}

theorem readItemsEnd_eq_ok_iff {s s' : σ} {text rest : List Char} :
    readItemsEnd s text = .ok (s', rest) ↔ s' = s ∧ skipBlanks text = ']' :: rest := by
  unfold readItemsEnd
  split
  · simp_all
  · next heq =>
    rw [heq]
    constructor
    · intro h
      cases h
      exact ⟨rfl, rfl⟩
    · rintro ⟨rfl, h⟩
      cases h
      rfl
  · next hne => exact ⟨nofun, fun ⟨_, h⟩ => (hne _ h).elim⟩

/-! ### Records -/

/-- What a member makes of a record and of the fields that have been given: it sets a field that was
not given yet, or it is no field. -/
inductive RecordStep (names : List String) (R : String → Json → σ → σ → Prop) :
    List String × σ → String × Json → List String × σ → Prop where
  | sets {seen : List String} {s s' : σ} {key : String} {j : Json} (hkey : key ∈ names)
      (hnew : key ∉ seen) (h : R key j s s') :
      RecordStep names R (seen, s) (key, j) (key :: seen, s')
  | skips {st : List String × σ} {key : String} {j : Json} (hkey : key ∉ names) :
      RecordStep names R st (key, j) st

/-- The members that a value has for a record with the given fields: those of an object, or the
items of an array in the order of the fields. -/
def fieldsOf? (names : List String) : Json → Option (List (String × Json))
  | .object ms => some ms
  | .array js => if js.length ≤ names.length then some (names.zip js) else none
  | _ => none

section

variable {fields : List (RecordField σ)} {R : String → Json → σ → σ → Prop} {depth : Nat}
  (hfields : ∀ f ∈ fields, ∀ s, Interprets depth (f.set s) fun j s' => R f.name j s s')

include hfields

theorem recordMember_eq_ok_iff {st st' : List String × σ} {key : String}
    {text rest rest' : List Char} {j : Json} (hvalue : readValue .used depth text = .ok (j, rest)) :
    (∃ r, recordMember fields st key = .ok r ∧ r text = .ok (st', rest')) ↔
      rest' = rest ∧ RecordStep (fields.map (·.name)) R st (key, j) st' := by
  obtain ⟨seen, s⟩ := st
  unfold recordMember
  cases hfind : fields.find? (·.name == key) with
  | none =>
    have hkey : key ∉ fields.map (·.name) := by
      rintro hmem
      obtain ⟨f, hf, rfl⟩ := List.mem_map.mp hmem
      simpa using List.find?_eq_none.mp hfind f hf
    obtain ⟨k, hskip⟩ := skipValue_of_readValue hvalue
    constructor
    · rintro ⟨_, hr, h⟩
      cases hr
      simp only [hskip, bind, Except.bind] at h
      cases h
      exact ⟨rfl, .skips hkey⟩
    · rintro ⟨rfl, hstep⟩
      cases hstep with
      | sets hmem => exact absurd hmem hkey
      | skips => exact ⟨_, rfl, by simp only [hskip, bind, Except.bind]⟩
  | some f =>
    have hf := List.mem_of_find?_eq_some hfind
    obtain rfl : f.name = key := by simpa using List.find?_some hfind
    have hkey : f.name ∈ fields.map (·.name) := List.mem_map_of_mem hf
    simp only
    by_cases hseen : f.name ∈ seen
    · rw [if_pos (List.contains_iff_mem.mpr hseen)]
      refine ⟨fun ⟨_, hr, _⟩ => (nomatch hr), ?_⟩
      rintro ⟨-, hstep⟩
      cases hstep with
      | sets _ hnew => exact absurd hseen hnew
      | skips hnot => exact absurd hkey hnot
    · rw [if_neg (fun h => hseen (List.contains_iff_mem.mp h))]
      constructor
      · rintro ⟨_, hr, h⟩
        cases hr
        obtain ⟨⟨s', more⟩, hs, h⟩ := bind_eq_ok.mp h
        cases h
        obtain ⟨rfl, hR⟩ := (hfields f hf s hvalue).mp hs
        exact ⟨rfl, .sets hkey hseen hR⟩
      · rintro ⟨rfl, hstep⟩
        cases hstep with
        | sets _ _ hR =>
          exact ⟨_, rfl, bind_eq_ok.mpr ⟨_, (hfields f hf s hvalue).mpr ⟨rfl, hR⟩, rfl⟩⟩
        | skips hnot => exact absurd hkey hnot

/-- The items of an array set the fields in order.  Of the fields some may have been set before. -/
theorem Items.readRecordItems_eq_ok_iff {isFirst : Bool} {text rest rest' : List Char}
    {js : List Json} (h : Items (readValue .used depth) isFirst text js rest)
    {names seen : List String} (hnodup : (fields.map (·.name)).Nodup)
    (hnames : fields.map (·.name) ⊆ names) (hseen : ∀ f ∈ fields, f.name ∉ seen) {s s' : σ} :
    readRecordItems fields isFirst s text = .ok (s', rest') ↔
      rest' = rest ∧ js.length ≤ fields.length ∧
        ∃ seen', Steps (RecordStep names R) (seen, s) ((fields.map (·.name)).zip js)
          (seen', s') := by
  induction h generalizing fields seen s with
  | closed hstart =>
    cases fields with
    | nil =>
      rw [readRecordItems, readItemsEnd_eq_ok_iff, readItemStart_eq_false_iff.mp hstart]
      simp [Steps, and_comm, eq_comm]
    | cons f fs =>
      rw [readRecordItems, hstart]
      simp [Steps, bind, Except.bind, and_comm, eq_comm]
  | item hstart hvalue _ ih =>
    cases fields with
    | nil =>
      -- an item behind the last field is refused, as the array has to end there
      rw [readRecordItems, readItemsEnd_eq_ok_iff]
      constructor
      · rintro ⟨-, hend⟩
        cases hstart.symm.trans (readItemStart_eq_false_iff.mpr hend)
      · rintro ⟨-, hlength, -⟩
        exact absurd hlength (Nat.not_succ_le_zero _)
    | cons f fs =>
      have hset := hfields f (.head _) s hvalue
      have hmem : f.name ∈ names := hnames (.head _)
      have hnew : f.name ∉ seen := hseen f (.head _)
      obtain ⟨hnot, hnodup⟩ := List.nodup_cons.mp hnodup
      have hseen' : ∀ g ∈ fs, g.name ∉ f.name :: seen := by
        intro g hg hgseen
        rcases List.mem_cons.mp hgseen with heq | hgseen
        · exact hnot (List.mem_map.mpr ⟨g, hg, heq⟩)
        · exact hseen g (.tail _ hg) hgseen
      have hrest {s : σ} := ih (fun g hg => hfields g (.tail _ hg)) hnodup
        (fun _ h => hnames (.tail _ h)) hseen' (s := s)
      rw [readRecordItems, bind_eq_ok]
      constructor
      · rintro ⟨⟨goesOn, more⟩, hmore, h⟩
        cases hstart.symm.trans hmore
        obtain ⟨⟨t, after⟩, ht, h⟩ := bind_eq_ok.mp h
        obtain ⟨rfl, hR⟩ := hset.mp ht
        obtain ⟨rfl, hlength, seen', hsteps⟩ := hrest.mp h
        exact ⟨rfl, Nat.succ_le_succ hlength, seen', _, .sets hmem hnew hR, hsteps⟩
      · rintro ⟨rfl, hlength, seen', _, hstep, hsteps⟩
        cases hstep with
        | sets _ _ hR =>
          refine ⟨_, hstart, bind_eq_ok.mpr ⟨_, hset.mpr ⟨rfl, hR⟩, ?_⟩⟩
          exact hrest.mpr ⟨rfl, Nat.le_of_succ_le_succ hlength, seen', hsteps⟩
        | skips hkey => exact absurd hmem hkey

/-- A record takes the members that its value has, one after the other. -/
theorem interprets_readRecord (hnodup : (fields.map (·.name)).Nodup) (s : σ) :
    Interprets (depth + 1) (readRecord fields s) fun j s' =>
      ∃ ms seen, fieldsOf? (fields.map (·.name)) j = some ms ∧
        Steps (RecordStep (fields.map (·.name)) R) ([], s) ms (seen, s') := by
  intro text j rest hvalue s' rest'
  obtain ⟨c, more, htext, hat⟩ := readValue_eq_ok_iff.mp hvalue
  rw [readRecord, htext]
  cases hat with
  | @array _ _ _ js hitems =>
    show readRecordItems fields true s more = _ ↔ _
    rw [hitems.readRecordItems_eq_ok_iff hfields hnodup (List.Subset.refl _)
      fun _ _ => List.not_mem_nil]
    refine and_congr_right fun _ => ⟨?_, ?_⟩
    · rintro ⟨hlength, seen, hsteps⟩
      exact ⟨_, seen, if_pos (by rwa [List.length_map]), hsteps⟩
    · rintro ⟨ms, seen, hms, hsteps⟩
      obtain ⟨hlength, heq⟩ : js.length ≤ fields.length ∧ (fields.map (·.name)).zip js = ms := by
        simpa [fieldsOf?] using hms
      exact ⟨hlength, seen, heq ▸ hsteps⟩
  | @object _ _ _ ms hmembers hlength =>
    have hread {st : List String × σ} {after : List Char} :
        readMembers .used (recordMember fields) (more.length + 1) true ([], s) more =
          .ok (st, after) ↔
        after = rest ∧ Steps (RecordStep (fields.map (·.name)) R) ([], s) ms st :=
      hmembers.readMembers_eq_ok_iff (RecordStep (fields.map (·.name)) R)
        (recordMember_eq_ok_iff hfields) (Nat.lt_succ_of_le hlength)
    show readRecordMembers fields s more = _ ↔ _
    rw [readRecordMembers, bind_eq_ok]
    constructor
    · rintro ⟨⟨⟨seen, t⟩, after⟩, hst, h⟩
      cases h
      obtain ⟨rfl, hsteps⟩ := hread.mp hst
      exact ⟨rfl, ms, seen, rfl, hsteps⟩
    · rintro ⟨rfl, _, seen, hms, hsteps⟩
      cases hms
      exact ⟨((seen, s'), rest'), hread.mpr ⟨rfl, hsteps⟩, rfl⟩
  | scalar hbracket hbrace hread =>
    have hbracket' : ¬ (c == '[') = true := by simpa using hbracket
    have hbrace' : ¬ (c == '\x7b') = true := by simpa using hbrace
    simp only [if_neg hbracket', if_neg hbrace', hread]
    refine ⟨nofun, fun ⟨_, _, _, hms, _⟩ => ?_⟩
    cases isScalar_of_readScalar hread <;> cases hms

end

end EcmaPrinter.Json
