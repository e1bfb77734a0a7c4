import EcmaPrinter.Json.Reader
import Mathlib.Data.List.TakeDrop
import Mathlib.Data.List.TakeWhile

/-!
What the readers of JSON have in common.

The loops over items and members thread a state and count down.  `Items` and `Members` say what they
go through without either, so two loops over one text can be compared whatever they collect
(`Items.readItems_eq_ok_iff`, `Members.readMembers_eq_ok_iff`).  `ReadsAt` does the same for values
(`readValue_eq_ok_iff`).

Whatever can be read as a value can be skipped, up to the same place (`skipValue_of_readValue`).
-/

namespace EcmaPrinter.Json

open EcmaPrinter.Number
open EcmaPrinter.Text

theorem bind_eq_ok {α β : Type} {x : Except Fault α} {f : α → Except Fault β} {b : β} :
    (x >>= f) = .ok b ↔ ∃ a, x = .ok a ∧ f a = .ok b := by
  cases x with
  | error => exact ⟨nofun, fun ⟨_, h, _⟩ => nomatch h⟩
  | ok a => exact ⟨fun h => ⟨a, rfl, h⟩, fun ⟨_, h, hf⟩ => Except.ok.inj h ▸ hf⟩

/-! ### What remains -/

/-- What remains behind a value is no longer than the text. -/
def Shortens {α : Type} (r : Reader α) : Prop :=
  ∀ {text a rest}, r text = .ok (a, rest) → rest.length ≤ text.length

theorem length_skipBlanks_le (text : List Char) : (skipBlanks text).length ≤ text.length :=
  List.length_dropWhile_le _ _

theorem length_lt_of_skipBlanks {text rest : List Char} {c : Char}
    (h : skipBlanks text = c :: rest) : rest.length < text.length := by
  have hle := length_skipBlanks_le text
  rw [h, List.length_cons] at hle
  omega

theorem shortens_readWord (word : List Char) : Shortens (readWord word) := by
  intro text a rest h
  induction word generalizing text with
  | nil =>
    cases h
    exact le_rfl
  | cons w word ih =>
    cases text with
    | nil => cases h
    | cons c text =>
      rw [readWord] at h
      split at h
      · exact (ih h).trans (Nat.le_succ _)
      · cases h

section

variable (p : Policy)

theorem shortens_readDigits : Shortens (readDigits p) := by
  intro text a rest h
  have hspan : (spanDigits text).2.length ≤ text.length := by
    rw [spanDigits, List.span_eq_takeWhile_dropWhile]
    exact List.length_dropWhile_le _ _
  unfold readDigits at h
  split at h
  · cases h
  · next heq =>
    cases h
    rwa [heq] at hspan

theorem shortens_readWhole : Shortens (readWhole p) := by
  intro text a rest h
  obtain ⟨⟨digits, more⟩, hdigits, h⟩ := bind_eq_ok.mp h
  have hmore := shortens_readDigits p hdigits
  simp only at h
  split at h
  · cases h
  · cases h
    exact hmore

theorem shortens_readPart : Shortens (readPart p) := by
  intro text a rest h
  unfold readPart at h
  split at h
  · obtain ⟨⟨digits, more⟩, hdigits, h⟩ := bind_eq_ok.mp h
    cases h
    exact (shortens_readDigits p hdigits).trans (Nat.le_succ _)
  · cases h
    exact le_rfl

theorem length_readSign_le (text : List Char) : (readSign text).2.length ≤ text.length := by
  unfold readSign
  split <;> simp

theorem shortens_readPower : Shortens (readPower p) := by
  intro text a rest h
  cases text with
  | nil =>
    cases h
    exact le_rfl
  | cons c text =>
    rw [readPower] at h
    split at h
    · obtain ⟨⟨digits, more⟩, hdigits, h⟩ := bind_eq_ok.mp h
      cases h
      exact ((shortens_readDigits p hdigits).trans (length_readSign_le text)).trans
        (Nat.le_succ _)
    · cases h
      exact le_rfl

theorem shortens_readNumber (negative : Bool) : Shortens (readNumber p negative) := by
  intro text a rest h
  obtain ⟨⟨whole, text1⟩, hwhole, h⟩ := bind_eq_ok.mp h
  obtain ⟨⟨part?, text2⟩, hpart, h⟩ := bind_eq_ok.mp h
  obtain ⟨⟨power?, text3⟩, hpower, h⟩ := bind_eq_ok.mp h
  have hle := ((shortens_readPower p hpower).trans (shortens_readPart p hpart)).trans
    (shortens_readWhole p hwhole)
  simp only at h
  split at h
  · cases h
  · cases h
    exact hle

theorem shortens_readUnit : Shortens readUnit := by
  intro text a rest h
  unfold readUnit at h
  split at h
  · cases h
  · split at h
    · cases h
      exact (List.length_drop).le.trans (Nat.sub_le _ _)
    · cases h

theorem shortens_readPair (high : Nat) : Shortens (readPair high) := by
  intro text a rest h
  unfold readPair at h
  split at h
  · cases h
  · cases h
  · split at h
    · obtain ⟨⟨low, more⟩, hlow, h⟩ := bind_eq_ok.mp h
      simp only at h
      split at h
      · obtain ⟨-, rfl⟩ := Prod.mk.inj (Except.ok.inj h)
        exact (shortens_readUnit hlow).trans ((Nat.le_succ _).trans (Nat.le_succ _))
      · cases h
    · cases h

theorem shortens_readUnicode : Shortens (readUnicode p) := by
  intro text a rest h
  obtain ⟨⟨unit, more⟩, hunit, h⟩ := bind_eq_ok.mp h
  have hmore := shortens_readUnit hunit
  simp only at h
  split at h
  · cases h
    exact hmore
  · split at h
    · cases h
    · split at h
      · exact (shortens_readPair unit h).trans hmore
      · cases h
        exact hmore

theorem shortens_readEscape : Shortens (readEscape p) := by
  intro text a rest h
  cases text with
  | nil => cases h
  | cons c text =>
    have hle : text.length ≤ (c :: text).length := Nat.le_succ _
    rw [readEscape] at h
    repeat' split at h
    all_goals first
      | exact (shortens_readUnicode p h).trans hle
      | (cases h; exact hle)
      | cases h

/-- A character of a string takes some of the text. -/
theorem length_readChar_lt {text rest : List Char} {c? : Option Char}
    (h : readChar p text = .ok (c?, rest)) : rest.length < text.length := by
  cases text with
  | nil => cases h
  | cons c text =>
    rw [readChar] at h
    split at h
    · cases h
      exact Nat.lt_succ_self _
    · split at h
      · obtain ⟨⟨d, more⟩, hescape, h⟩ := bind_eq_ok.mp h
        cases h
        exact Nat.lt_succ_of_le (shortens_readEscape p hescape)
      · split at h
        · cases h
        · cases h
          exact Nat.lt_succ_self _

theorem shortens_readChars (fuel : Nat) : Shortens (readChars p fuel) := by
  intro text a rest h
  induction fuel generalizing text a with
  | zero => cases h
  | succ fuel ih =>
    obtain ⟨⟨c?, more⟩, hchar, h⟩ := bind_eq_ok.mp h
    have hmore := length_readChar_lt p hchar
    cases c? with
    | none =>
      cases h
      exact hmore.le
    | some c =>
      obtain ⟨⟨cs, _⟩, hchars, h⟩ := bind_eq_ok.mp h
      cases h
      exact (ih hchars).trans hmore.le

theorem shortens_readString : Shortens (readString p) := by
  intro text a rest h
  obtain ⟨⟨cs, _⟩, hchars, h⟩ := bind_eq_ok.mp h
  cases h
  exact shortens_readChars p _ hchars

theorem shortens_readConstant (word : List Char) (j : Json) : Shortens (readConstant word j) := by
  intro text a rest h
  obtain ⟨⟨_, _⟩, hword, h⟩ := bind_eq_ok.mp h
  cases h
  exact shortens_readWord word hword

theorem shortens_readScalar (c : Char) {text rest : List Char} {j : Json}
    (h : readScalar p c text = .ok (j, rest)) : rest.length ≤ text.length + 1 := by
  unfold readScalar at h
  split at h
  · exact (shortens_readConstant _ _ h).trans (Nat.le_succ _)
  · split at h
    · exact (shortens_readConstant _ _ h).trans (Nat.le_succ _)
    · split at h
      · exact (shortens_readConstant _ _ h).trans (Nat.le_succ _)
      · split at h
        · exact (shortens_readNumber p true h).trans (Nat.le_succ _)
        · split at h
          · exact shortens_readNumber p false h
          · split at h
            · obtain ⟨⟨s, more⟩, hstring, h⟩ := bind_eq_ok.mp h
              cases h
              exact (shortens_readString p hstring).trans (Nat.le_succ _)
            · cases h

end

theorem shortens_readItemStart (isFirst : Bool) : Shortens (readItemStart isFirst) := by
  intro text a rest h
  unfold readItemStart at h
  split at h
  · cases h
  · next heq =>
    cases h
    exact (length_lt_of_skipBlanks heq).le
  · next heq =>
    have hle := length_skipBlanks_le text
    rw [heq] at hle
    split at h
    · cases h
      exact hle
    · split at h
      · split at h
        · cases h
        · cases h
        · cases h
          exact (length_skipBlanks_le _).trans ((Nat.le_succ _).trans hle)
      · cases h

theorem shortens_readKeyStart (isFirst : Bool) : Shortens (readKeyStart isFirst) := by
  intro text a rest h
  unfold readKeyStart at h
  split at h
  · cases h
  · next heq =>
    have hlt := length_lt_of_skipBlanks heq
    split at h
    · cases h
      exact hlt.le
    · split at h
      · split at h
        · cases h
          exact hlt.le
        · cases h
      · split at h
        · split at h
          · cases h
          · next heq' =>
            split at h
            · cases h
              exact ((length_lt_of_skipBlanks heq').trans hlt).le
            · cases h
        · cases h

theorem shortens_readColon : Shortens readColon := by
  intro text a rest h
  unfold readColon at h
  split at h
  · cases h
  · next heq =>
    cases h
    exact (length_lt_of_skipBlanks heq).le
  · cases h

/-! ### Containers -/

/-- One step after the other, from state to state. -/
def Steps {σ β : Type} (Step : σ → β → σ → Prop) : σ → List β → σ → Prop
  | s, [], s' => s' = s
  | s, b :: bs, s' => ∃ t, Step s b t ∧ Steps Step t bs s'

/-- The items of an array up to its end, and what remains. -/
inductive Items (value : Reader Json) : Bool → List Char → List Json → List Char → Prop where
  | closed {isFirst : Bool} {text rest : List Char}
      (hstart : readItemStart isFirst text = .ok (false, rest)) : Items value isFirst text [] rest
  | item {isFirst : Bool} {text more after rest : List Char} {j : Json} {js : List Json}
      (hstart : readItemStart isFirst text = .ok (true, more))
      (hvalue : value more = .ok (j, after)) (hitems : Items value false after js rest) :
      Items value isFirst text (j :: js) rest

/-- The members of an object up to its end, and what remains. -/
inductive Members (p : Policy) (value : Reader Json) :
    Bool → List Char → List (String × Json) → List Char → Prop where
  | closed {isFirst : Bool} {text rest : List Char}
      (hstart : readKeyStart isFirst text = .ok (false, rest)) :
      Members p value isFirst text [] rest
  | member {isFirst : Bool} {text more behind colon after rest : List Char} {key : String}
      {j : Json} {ms : List (String × Json)}
      (hstart : readKeyStart isFirst text = .ok (true, more))
      (hkey : readString p more = .ok (key, behind)) (hcolon : readColon behind = .ok ((), colon))
      (hvalue : value colon = .ok (j, after)) (hmembers : Members p value false after ms rest) :
      Members p value isFirst text ((key, j) :: ms) rest

section

variable {σ : Type} {p : Policy} {value : Reader Json} {isFirst : Bool} {text rest : List Char}
  {s s' : σ} {fuel : Nat}

/-- A loop whose every step reads a value goes through items. -/
theorem items_of_readItems (value : Reader Json) {item : σ → Reader σ}
    (hitem : ∀ {s text s' rest}, item s text = .ok (s', rest) → ∃ j, value text = .ok (j, rest))
    (h : readItems item fuel isFirst s text = .ok (s', rest)) :
    ∃ js, Items value isFirst text js rest ∧ js.length < fuel := by
  induction fuel generalizing isFirst s text with
  | zero => cases h
  | succ fuel ih =>
    obtain ⟨⟨goesOn, more⟩, hstart, h⟩ := bind_eq_ok.mp h
    cases goesOn with
    | false =>
      cases h
      exact ⟨[], .closed hstart, Nat.succ_pos _⟩
    | true =>
      obtain ⟨⟨t, after⟩, hvalue, h⟩ := bind_eq_ok.mp h
      obtain ⟨j, hj⟩ := hitem hvalue
      obtain ⟨js, hjs, hlength⟩ := ih h
      exact ⟨j :: js, .item hstart hj hjs, Nat.succ_lt_succ hlength⟩

/-- Over items a loop ends where they end, with the state to which they lead. -/
theorem Items.readItems_eq_ok_iff {js : List Json} (h : Items value isFirst text js rest)
    {item : σ → Reader σ} (Step : σ → Json → σ → Prop)
    (hitem : ∀ {s text j rest s' rest'}, value text = .ok (j, rest) →
      (item s text = .ok (s', rest') ↔ rest' = rest ∧ Step s j s'))
    (hfuel : js.length < fuel) {rest' : List Char} :
    readItems item fuel isFirst s text = .ok (s', rest') ↔ rest' = rest ∧ Steps Step s js s' := by
  -- by induction on the items, each of which takes one unit of fuel
  induction h generalizing fuel s with
  | closed hstart =>
    obtain ⟨fuel, rfl⟩ := Nat.exists_eq_add_of_lt hfuel
    simp only [readItems, hstart, bind, Except.bind, Steps]
    constructor
    · intro h
      cases h
      exact ⟨rfl, rfl⟩
    · rintro ⟨rfl, rfl⟩
      rfl
  | item hstart hvalue _ ih =>
    cases fuel with
    | zero => cases hfuel
    | succ fuel =>
      rw [readItems, bind_eq_ok]
      constructor
      · rintro ⟨⟨goesOn, more⟩, hmore, h⟩
        cases hstart.symm.trans hmore
        obtain ⟨⟨t, after⟩, ht, h⟩ := bind_eq_ok.mp h
        obtain ⟨rfl, hstep⟩ := (hitem hvalue).mp ht
        obtain ⟨rfl, hsteps⟩ := (ih (Nat.lt_of_succ_lt_succ hfuel)).mp h
        exact ⟨rfl, t, hstep, hsteps⟩
      · rintro ⟨rfl, t, hstep, hsteps⟩
        refine ⟨_, hstart, bind_eq_ok.mpr ⟨(t, _), (hitem hvalue).mpr ⟨rfl, hstep⟩, ?_⟩⟩
        exact (ih (Nat.lt_of_succ_lt_succ hfuel)).mpr ⟨rfl, hsteps⟩

/-- A loop whose every step reads a value goes through members. -/
theorem members_of_readMembers (value : Reader Json) {member : σ → String → Except Fault (Reader σ)}
    (hmember : ∀ {s key r text s' rest}, member s key = .ok r → r text = .ok (s', rest) →
      ∃ j, value text = .ok (j, rest))
    (h : readMembers p member fuel isFirst s text = .ok (s', rest)) :
    ∃ ms, Members p value isFirst text ms rest ∧ ms.length < fuel := by
  induction fuel generalizing isFirst s text with
  | zero => cases h
  | succ fuel ih =>
    obtain ⟨⟨goesOn, more⟩, hstart, h⟩ := bind_eq_ok.mp h
    cases goesOn with
    | false =>
      cases h
      exact ⟨[], .closed hstart, Nat.succ_pos _⟩
    | true =>
      obtain ⟨⟨key, behind⟩, hkey, h⟩ := bind_eq_ok.mp h
      obtain ⟨r, hr, h⟩ := bind_eq_ok.mp h
      obtain ⟨⟨⟨⟩, colon⟩, hcolon, h⟩ := bind_eq_ok.mp h
      obtain ⟨⟨t, after⟩, hvalue, h⟩ := bind_eq_ok.mp h
      obtain ⟨j, hj⟩ := hmember hr hvalue
      obtain ⟨ms, hms, hlength⟩ := ih h
      exact ⟨(key, j) :: ms, .member hstart hkey hcolon hj hms, Nat.succ_lt_succ hlength⟩

/-- Over members a loop ends where they end, with the state to which they lead. -/
theorem Members.readMembers_eq_ok_iff {ms : List (String × Json)}
    (h : Members p value isFirst text ms rest)
    {member : σ → String → Except Fault (Reader σ)} (Step : σ → String × Json → σ → Prop)
    (hmember : ∀ {s key text j rest s' rest'}, value text = .ok (j, rest) →
      ((∃ r, member s key = .ok r ∧ r text = .ok (s', rest')) ↔ rest' = rest ∧ Step s (key, j) s'))
    (hfuel : ms.length < fuel) {rest' : List Char} :
    readMembers p member fuel isFirst s text = .ok (s', rest') ↔
      rest' = rest ∧ Steps Step s ms s' := by
  induction h generalizing fuel s with
  | closed hstart =>
    obtain ⟨fuel, rfl⟩ := Nat.exists_eq_add_of_lt hfuel
    simp only [readMembers, hstart, bind, Except.bind, Steps]
    constructor
    · intro h
      cases h
      exact ⟨rfl, rfl⟩
    · rintro ⟨rfl, rfl⟩
      rfl
  | member hstart hkey hcolon hvalue _ ih =>
    cases fuel with
    | zero => cases hfuel
    | succ fuel =>
      rw [readMembers, bind_eq_ok]
      constructor
      · rintro ⟨⟨goesOn, more⟩, hmore, h⟩
        cases hstart.symm.trans hmore
        obtain ⟨⟨key, behind⟩, hkey', h⟩ := bind_eq_ok.mp h
        cases hkey.symm.trans hkey'
        obtain ⟨r, hr, h⟩ := bind_eq_ok.mp h
        obtain ⟨⟨⟨⟩, colon⟩, hcolon', h⟩ := bind_eq_ok.mp h
        cases hcolon.symm.trans hcolon'
        obtain ⟨⟨t, after⟩, ht, h⟩ := bind_eq_ok.mp h
        obtain ⟨rfl, hstep⟩ := (hmember hvalue).mp ⟨r, hr, ht⟩
        obtain ⟨rfl, hsteps⟩ := (ih (Nat.lt_of_succ_lt_succ hfuel)).mp h
        exact ⟨rfl, t, hstep, hsteps⟩
      · rintro ⟨rfl, t, hstep, hsteps⟩
        obtain ⟨r, hr, ht⟩ := (hmember hvalue).mpr ⟨rfl, hstep⟩
        refine ⟨_, hstart, bind_eq_ok.mpr ⟨_, hkey, bind_eq_ok.mpr ⟨r, hr,
          bind_eq_ok.mpr ⟨_, hcolon, bind_eq_ok.mpr ⟨_, ht, ?_⟩⟩⟩⟩⟩
        exact (ih (Nat.lt_of_succ_lt_succ hfuel)).mpr ⟨rfl, hsteps⟩

end

/-- A step that puts what it comes by in front of what was collected before. -/
def Collects {β : Type} (read : List β) (b : β) (read' : List β) : Prop :=
  read' = b :: read

/-- Steps that collect what they come by, each under a condition on what was collected before. -/
theorem steps_collects_and_iff {β : Type} {P : List β → β → Prop} {read read' bs : List β} :
    Steps (fun read b read' => Collects read b read' ∧ P read b) read bs read' ↔
      read' = bs.reverse ++ read ∧ ∀ xs b ys, bs = xs ++ b :: ys → P (xs.reverse ++ read) b := by
  induction bs generalizing read with
  | nil => simp [Steps]
  | cons b bs ih =>
    simp only [Steps, ih]
    constructor
    · rintro ⟨_, ⟨rfl, hb⟩, hread, hbs⟩
      refine ⟨by simpa using hread, fun xs c ys hxs => ?_⟩
      cases xs with
      | nil =>
        cases hxs
        exact hb
      | cons x xs =>
        obtain ⟨rfl, rfl⟩ := List.cons.inj hxs
        simpa using hbs xs c ys rfl
    · rintro ⟨hread, hbs⟩
      refine ⟨b :: read, ⟨rfl, hbs [] b bs rfl⟩, by simpa using hread, ?_⟩
      rintro xs c ys rfl
      simpa using hbs (b :: xs) c ys rfl

/-- The reader of items collects values, each under a condition on those before it. -/
def CollectsItems (value : Reader Json) (P : List Json → Json → Prop)
    (item : List Json → Reader (List Json)) : Prop :=
  ∀ read text read' rest, item read text = .ok (read', rest) ↔
    ∃ j, value text = .ok (j, rest) ∧ Collects read j read' ∧ P read j

/-- The reader of members collects them, each under a condition on those before it. -/
def CollectsMembers (value : Reader Json) (P : List (String × Json) → String × Json → Prop)
    (member : List (String × Json) → String → Except Fault (Reader (List (String × Json)))) :
    Prop :=
  ∀ read key text read' rest, (∃ r, member read key = .ok r ∧ r text = .ok (read', rest)) ↔
    ∃ j, value text = .ok (j, rest) ∧ Collects read (key, j) read' ∧ P read (key, j)

/-- A reader gives one value at a place. -/
theorem exists_value_iff {value : Reader Json} {text rest rest' : List Char} {j : Json}
    {P : Json → Prop} (hj : value text = .ok (j, rest)) :
    (∃ k, value text = .ok (k, rest') ∧ P k) ↔ rest' = rest ∧ P j := by
  constructor
  · rintro ⟨k, hk, h⟩
    cases hj.symm.trans hk
    exact ⟨rfl, h⟩
  · rintro ⟨rfl, h⟩
    exact ⟨j, hj, h⟩

section

variable {p : Policy} {value : Reader Json} {isFirst : Bool} {text rest : List Char} {n : Nat}

/-- A loop that collects items goes to their end if each satisfies the condition. -/
theorem CollectsItems.readItems_eq_ok_iff {item : List Json → Reader (List Json)}
    {P : List Json → Json → Prop} (hitem : CollectsItems value P item) {read : List Json} :
    readItems item (n + 1) isFirst [] text = .ok (read, rest) ↔
      ∃ js, Items value isFirst text js rest ∧ js.length ≤ n ∧ read = js.reverse ∧
        ∀ xs j ys, js = xs ++ j :: ys → P xs.reverse j := by
  have hstep {read text j rest read' rest'} (hj : value text = .ok (j, rest)) :
      item read text = .ok (read', rest') ↔ rest' = rest ∧ Collects read j read' ∧ P read j := by
    rw [hitem read, exists_value_iff hj]
  constructor
  · intro h
    obtain ⟨js, hjs, hlength⟩ :=
      items_of_readItems value (fun h => ((hitem _ _ _ _).mp h).imp fun _ h => h.1) h
    obtain ⟨-, hsteps⟩ := (hjs.readItems_eq_ok_iff
      (fun read j read' => Collects read j read' ∧ P read j) hstep hlength).mp h
    exact ⟨js, hjs, Nat.le_of_lt_succ hlength, by simpa using steps_collects_and_iff.mp hsteps⟩
  · rintro ⟨js, hjs, hlength, hsteps⟩
    refine (hjs.readItems_eq_ok_iff (fun read j read' => Collects read j read' ∧ P read j) hstep
      (Nat.lt_succ_of_le hlength)).mpr ⟨rfl, steps_collects_and_iff.mpr ?_⟩
    simpa using hsteps

/-- A loop that collects members goes to their end if each satisfies the condition. -/
theorem CollectsMembers.readMembers_eq_ok_iff
    {member : List (String × Json) → String → Except Fault (Reader (List (String × Json)))}
    {P : List (String × Json) → String × Json → Prop} (hmember : CollectsMembers value P member)
    {read : List (String × Json)} :
    readMembers p member (n + 1) isFirst [] text = .ok (read, rest) ↔
      ∃ ms, Members p value isFirst text ms rest ∧ ms.length ≤ n ∧ read = ms.reverse ∧
        ∀ xs m ys, ms = xs ++ m :: ys → P xs.reverse m := by
  have hstep {read key text j rest read' rest'} (hj : value text = .ok (j, rest)) :
      (∃ r, member read key = .ok r ∧ r text = .ok (read', rest')) ↔
        rest' = rest ∧ Collects read (key, j) read' ∧ P read (key, j) := by
    rw [hmember read, exists_value_iff hj]
  constructor
  · intro h
    obtain ⟨ms, hms, hlength⟩ := members_of_readMembers value
      (fun hr h => ((hmember _ _ _ _ _).mp ⟨_, hr, h⟩).imp fun _ h => h.1) h
    obtain ⟨-, hsteps⟩ := (hms.readMembers_eq_ok_iff
      (fun read m read' => Collects read m read' ∧ P read m) hstep hlength).mp h
    exact ⟨ms, hms, Nat.le_of_lt_succ hlength, by simpa using steps_collects_and_iff.mp hsteps⟩
  · rintro ⟨ms, hms, hlength, hsteps⟩
    refine (hms.readMembers_eq_ok_iff (fun read m read' => Collects read m read' ∧ P read m) hstep
      (Nat.lt_succ_of_le hlength)).mpr ⟨rfl, steps_collects_and_iff.mpr ?_⟩
    simpa using hsteps

end

/-! ### Values -/

section

variable {p : Policy} {value : Reader Json} {text rest : List Char} {j : Json}

theorem readItem_eq_ok_iff {read read' : List Json} :
    readItem value read text = .ok (read', rest) ↔
      ∃ j, value text = .ok (j, rest) ∧ Collects read j read' := by
  constructor
  · intro h
    obtain ⟨⟨j, _⟩, hj, h⟩ := bind_eq_ok.mp h
    cases h
    exact ⟨j, hj, rfl⟩
  · rintro ⟨j, hj, rfl⟩
    exact bind_eq_ok.mpr ⟨_, hj, rfl⟩

theorem readArray_eq_ok_iff :
    readArray value text = .ok (j, rest) ↔
      ∃ js, j = .array js ∧ Items value true text js rest ∧ js.length ≤ text.length := by
  have hitem : CollectsItems value (fun _ _ => True) (readItem value) := by
    intro read text read' rest
    simp only [and_true, readItem_eq_ok_iff]
  rw [readArray, bind_eq_ok]
  constructor
  · rintro ⟨⟨read, more⟩, hread, h⟩
    cases h
    obtain ⟨js, hjs, hlength, rfl, -⟩ := hitem.readItems_eq_ok_iff.mp hread
    exact ⟨js, by rw [List.reverse_reverse], hjs, hlength⟩
  · rintro ⟨js, rfl, hjs, hlength⟩
    refine ⟨_, hitem.readItems_eq_ok_iff.mpr ⟨js, hjs, hlength, rfl, fun _ _ _ _ => trivial⟩, ?_⟩
    simp only [List.reverse_reverse]

theorem readMember_eq_ok_iff {read read' : List (String × Json)} {key : String} :
    readMember value read key text = .ok (read', rest) ↔
      ∃ j, value text = .ok (j, rest) ∧ Collects read (key, j) read' := by
  constructor
  · intro h
    obtain ⟨⟨j, _⟩, hj, h⟩ := bind_eq_ok.mp h
    cases h
    exact ⟨j, hj, rfl⟩
  · rintro ⟨j, hj, rfl⟩
    exact bind_eq_ok.mpr ⟨_, hj, rfl⟩

theorem readObject_eq_ok_iff :
    readObject p value text = .ok (j, rest) ↔
      ∃ ms, j = .object ms ∧ Members p value true text ms rest ∧ ms.length ≤ text.length := by
  have hmember : CollectsMembers value (fun _ _ => True)
      (fun read key => .ok (readMember value read key)) := by
    intro read key text read' rest
    simp only [Except.ok.injEq, exists_eq_left', and_true, readMember_eq_ok_iff]
  rw [readObject, bind_eq_ok]
  constructor
  · rintro ⟨⟨read, more⟩, hread, h⟩
    cases h
    obtain ⟨ms, hms, hlength, rfl, -⟩ := hmember.readMembers_eq_ok_iff.mp hread
    exact ⟨ms, by rw [List.reverse_reverse], hms, hlength⟩
  · rintro ⟨ms, rfl, hms, hlength⟩
    have hall := hmember.readMembers_eq_ok_iff.mpr ⟨ms, hms, hlength, rfl, fun _ _ _ _ => trivial⟩
    refine ⟨_, hall, ?_⟩
    simp only [List.reverse_reverse]

end

/-- The value is no container. -/
inductive IsScalar : Json → Prop where
  | null : IsScalar .null
  | bool (value : Bool) : IsScalar (.bool value)
  | number (value : Decimal) (whole : Bool) : IsScalar (.number value whole)
  | string (value : String) : IsScalar (.string value)

theorem eq_of_readConstant {word text rest : List Char} {j k : Json}
    (h : readConstant word k text = .ok (j, rest)) : j = k := by
  obtain ⟨_, -, h⟩ := bind_eq_ok.mp h
  cases h
  rfl

theorem isScalar_of_readScalar {p : Policy} {c : Char} {text rest : List Char} {j : Json}
    (h : readScalar p c text = .ok (j, rest)) : IsScalar j := by
  have hnumber {negative : Bool} {text : List Char}
      (h : readNumber p negative text = .ok (j, rest)) : IsScalar j := by
    obtain ⟨_, -, h⟩ := bind_eq_ok.mp h
    obtain ⟨_, -, h⟩ := bind_eq_ok.mp h
    obtain ⟨_, -, h⟩ := bind_eq_ok.mp h
    simp only at h
    split at h
    · cases h
    · cases h
      exact .number _ _
  unfold readScalar at h
  repeat' split at h
  · exact eq_of_readConstant h ▸ .null
  · exact eq_of_readConstant h ▸ .bool true
  · exact eq_of_readConstant h ▸ .bool false
  · exact hnumber h
  · exact hnumber h
  · obtain ⟨_, -, h⟩ := bind_eq_ok.mp h
    cases h
    exact .string _
  · cases h

/-- How a value is read whose first character is given: its depth, the text behind the character,
the value and what remains. -/
inductive ReadsAt (p : Policy) : Nat → Char → List Char → Json → List Char → Prop where
  | array {depth : Nat} {text rest : List Char} {js : List Json}
      (hitems : Items (readValue p depth) true text js rest) (hlength : js.length ≤ text.length) :
      ReadsAt p (depth + 1) '[' text (.array js) rest
  | object {depth : Nat} {text rest : List Char} {ms : List (String × Json)}
      (hmembers : Members p (readValue p depth) true text ms rest)
      (hlength : ms.length ≤ text.length) :
      ReadsAt p (depth + 1) '\x7b' text (.object ms) rest
  | scalar {depth : Nat} {c : Char} {text rest : List Char} {j : Json} (harray : c ≠ '[')
      (hobject : c ≠ '\x7b') (hread : readScalar p c text = .ok (j, rest)) :
      ReadsAt p depth c text j rest

/-- At depth zero no container is left. -/
theorem readValue_zero_of_container {p : Policy} {text more : List Char} {c : Char}
    (hblanks : skipBlanks text = c :: more) (hc : c = '[' ∨ c = '\x7b') :
    readValue p 0 text = .error .malformed := by
  rw [readValue, readWith, hblanks]
  rcases hc with rfl | rfl <;> rfl

theorem readValue_eq_ok_iff {p : Policy} {depth : Nat} {text rest : List Char} {j : Json} :
    readValue p depth text = .ok (j, rest) ↔
      ∃ c more, skipBlanks text = c :: more ∧ ReadsAt p depth c more j rest := by
  cases hblanks : skipBlanks text with
  | nil =>
    have herror : readValue p depth text = .error .ended := by
      cases depth <;> rw [readValue, readWith, hblanks]
    simp [herror]
  | cons c more =>
    simp only [List.cons.injEq, and_assoc, exists_and_left, exists_eq_left']
    by_cases hbracket : c = '['
    · subst hbracket
      cases depth with
      | zero =>
        constructor
        · intro h
          cases (readValue_zero_of_container hblanks (.inl rfl)).symm.trans h
        · intro h
          cases h with
          | scalar hne => exact absurd rfl hne
      | succ depth =>
        have harray : readValue p (depth + 1) text = readArray (readValue p depth) more := by
          rw [readValue, readWith, hblanks]
          rfl
        rw [harray, readArray_eq_ok_iff]
        constructor
        · rintro ⟨js, rfl, hitems, hlength⟩
          exact .array hitems hlength
        · intro h
          cases h with
          | array hitems hlength => exact ⟨_, rfl, hitems, hlength⟩
          | scalar hne => exact absurd rfl hne
    · by_cases hbrace : c = '\x7b'
      · subst hbrace
        cases depth with
        | zero =>
          constructor
          · intro h
            cases (readValue_zero_of_container hblanks (.inr rfl)).symm.trans h
          · intro h
            cases h with
            | scalar _ hne => exact absurd rfl hne
        | succ depth =>
          have hobject :
              readValue p (depth + 1) text = readObject p (readValue p depth) more := by
            rw [readValue, readWith, hblanks]
            rfl
          rw [hobject, readObject_eq_ok_iff]
          constructor
          · rintro ⟨ms, rfl, hmembers, hlength⟩
            exact .object hmembers hlength
          · intro h
            cases h with
            | object hmembers hlength => exact ⟨_, rfl, hmembers, hlength⟩
            | scalar _ hne => exact absurd rfl hne
      · have hscalar : readValue p depth text = readScalar p c more := by
          cases depth <;> rw [readValue, readWith, hblanks] <;>
            simp only [beq_iff_eq, if_neg hbracket, if_neg hbrace]
        rw [hscalar]
        refine ⟨.scalar hbracket hbrace, fun h => ?_⟩
        cases h with
        | array => exact absurd rfl hbracket
        | object => exact absurd rfl hbrace
        | scalar _ _ hread => exact hread

/-! ### Skipping -/

section

variable {text rest : List Char} {p q : Policy}

theorem readDigits_of_policy {r : List Char × List Char} (h : readDigits p text = .ok r) :
    readDigits q text = .ok r := by
  unfold readDigits at h ⊢
  split at h
  · cases h
  · exact h

theorem readNumber_skipped {negative : Bool} {r : Json × List Char}
    (h : readNumber .used negative text = .ok r) : readNumber .skipped negative text = .ok r := by
  obtain ⟨⟨whole, text1⟩, hwhole, h⟩ := bind_eq_ok.mp h
  obtain ⟨⟨part?, text2⟩, hpart, h⟩ := bind_eq_ok.mp h
  obtain ⟨⟨power?, text3⟩, hpower, h⟩ := bind_eq_ok.mp h
  have hwhole' : readWhole .skipped text = .ok (whole, text1) := by
    obtain ⟨⟨digits, more⟩, hdigits, h⟩ := bind_eq_ok.mp hwhole
    exact bind_eq_ok.mpr ⟨_, readDigits_of_policy hdigits, h⟩
  have hpart' : readPart .skipped text1 = .ok (part?, text2) := by
    unfold readPart at hpart ⊢
    split at hpart
    · obtain ⟨⟨digits, more⟩, hdigits, h⟩ := bind_eq_ok.mp hpart
      exact bind_eq_ok.mpr ⟨_, readDigits_of_policy hdigits, h⟩
    · exact hpart
  have hpower' : readPower .skipped text2 = .ok (power?, text3) := by
    unfold readPower at hpower ⊢
    split at hpower
    · exact hpower
    · simp only at hpower ⊢
      split at hpower
      · next hc =>
        obtain ⟨⟨digits, more⟩, hdigits, h⟩ := bind_eq_ok.mp hpower
        rw [if_pos hc]
        exact bind_eq_ok.mpr ⟨_, readDigits_of_policy hdigits, h⟩
      · next hc =>
        rw [if_neg hc]
        exact hpower
  refine bind_eq_ok.mpr ⟨_, hwhole', bind_eq_ok.mpr ⟨_, hpart', bind_eq_ok.mpr ⟨_, hpower', ?_⟩⟩⟩
  simp only at h ⊢
  split at h
  · cases h
  · exact h

theorem exists_unit_of_readPair {high : Nat} {c : Char} (h : readPair high text = .ok (c, rest)) :
    ∃ more low, text = backslash :: 'u' :: more ∧ readUnit more = .ok (low, rest) := by
  unfold readPair at h
  split at h
  · cases h
  · cases h
  · next more =>
    split at h
    · next hpair =>
      obtain ⟨hb, hd⟩ := (Bool.and_eq_true _ _).mp hpair
      obtain ⟨⟨low, after⟩, hlow, h⟩ := bind_eq_ok.mp h
      simp only at h
      split at h
      · obtain ⟨-, rfl⟩ := Prod.mk.inj (Except.ok.inj h)
        exact ⟨more, low, by rw [eq_of_beq hb, eq_of_beq hd], hlow⟩
      · cases h
    · cases h

/-- A pair of surrogates is one character to a reader and two to one that skips. -/
theorem readEscape_skipped {c : Char} (h : readEscape .used text = .ok (c, rest)) :
    (∃ d, readEscape .skipped text = .ok (d, rest)) ∨
      ∃ d more e, readEscape .skipped text = .ok (d, backslash :: more) ∧
        readEscape .skipped more = .ok (e, rest) := by
  cases text with
  | nil => cases h
  | cons b text =>
    by_cases hu : b = 'u'
    · subst hu
      -- a reader that skips takes one unit at a time and does not look for the other half
      have hskip {text more : List Char} {unit : Nat} (h : readUnit text = .ok (unit, more)) :
          readEscape .skipped ('u' :: text) = .ok (Char.ofNat unit, more) :=
        bind_eq_ok.mpr ⟨_, h, rfl⟩
      have hchecked : (!Policy.used.checked) = false := rfl
      obtain ⟨⟨unit, more⟩, hunit, h⟩ := bind_eq_ok.mp (show readUnicode .used text = _ from h)
      simp only [hchecked, if_neg Bool.false_ne_true] at h
      split at h
      · cases h
      · split at h
        · obtain ⟨after, low, rfl, hlow⟩ := exists_unit_of_readPair h
          exact .inr ⟨_, _, _, hskip hunit, hskip hlow⟩
        · cases h
          exact .inl ⟨_, hskip hunit⟩
    · have hsame : readEscape .skipped (b :: text) = readEscape .used (b :: text) := by
        simp only [readEscape, beq_iff_eq, if_neg hu]
      exact .inl ⟨c, hsame.trans h⟩

theorem readChar_skipped {c : Char} (h : readChar .used text = .ok (some c, rest)) :
    (∃ d, readChar .skipped text = .ok (some d, rest)) ∨
      ∃ d more e, readChar .skipped text = .ok (some d, more) ∧
        readChar .skipped more = .ok (some e, rest) := by
  cases text with
  | nil => cases h
  | cons b text =>
    have hescape {text more : List Char} {d : Char} (h : readEscape .skipped text = .ok (d, more)) :
        readChar .skipped (backslash :: text) = .ok (some d, more) := by
      have hquote : (backslash == doubleQuote) = false := by decide
      rw [readChar, hquote]
      exact bind_eq_ok.mpr ⟨_, h, rfl⟩
    by_cases hb : b = backslash
    · subst hb
      have hquote : (backslash == doubleQuote) = false := by decide
      rw [readChar, hquote] at h
      obtain ⟨⟨d, more⟩, hd, h⟩ := bind_eq_ok.mp h
      cases h
      rcases readEscape_skipped hd with ⟨d, hd⟩ | ⟨d, more, e, hd, he⟩
      · exact .inl ⟨d, hescape hd⟩
      · exact .inr ⟨d, _, e, hescape hd, hescape he⟩
    · have hsame : readChar .skipped (b :: text) = readChar .used (b :: text) := by
        simp only [readChar, beq_iff_eq, if_neg hb]
      exact .inl ⟨c, hsame.trans h⟩

theorem readChar_skipped_none (h : readChar .used text = .ok (none, rest)) :
    readChar .skipped text = .ok (none, rest) := by
  cases text with
  | nil => cases h
  | cons b text =>
    rw [readChar] at h ⊢
    split at h
    · next hb => rwa [if_pos hb]
    · split at h
      · obtain ⟨⟨d, more⟩, -, h⟩ := bind_eq_ok.mp h
        cases h
      · split at h <;> cases h

theorem readChars_skipped {fuel n : Nat} {cs : List Char}
    (h : readChars .used fuel text = .ok (cs, rest)) (hn : text.length < n) :
    ∃ ds, readChars .skipped n text = .ok (ds, rest) := by
  have hcons {text more rest ds : List Char} {d : Char} {n : Nat}
      (hd : readChar .skipped text = .ok (some d, more))
      (hds : readChars .skipped n more = .ok (ds, rest)) :
      readChars .skipped (n + 1) text = .ok (d :: ds, rest) :=
    bind_eq_ok.mpr ⟨_, hd, bind_eq_ok.mpr ⟨_, hds, rfl⟩⟩
  induction fuel generalizing text n cs with
  | zero => cases h
  | succ fuel ih =>
    obtain ⟨⟨c?, more⟩, hchar, h⟩ := bind_eq_ok.mp h
    obtain ⟨n, rfl⟩ : ∃ m, n = m + 1 := ⟨n - 1, by omega⟩
    cases c? with
    | none =>
      cases h
      exact ⟨[], bind_eq_ok.mpr ⟨_, readChar_skipped_none hchar, rfl⟩⟩
    | some c =>
      obtain ⟨⟨cs, _⟩, hchars, h⟩ := bind_eq_ok.mp h
      cases h
      -- where one character is two to the reader that skips, it needs the fuel of both
      rcases readChar_skipped hchar with ⟨d, hd⟩ | ⟨d, middle, e, hd, he⟩
      · have hlt := length_readChar_lt _ hd
        obtain ⟨ds, hds⟩ := ih hchars (n := n) (by omega)
        exact ⟨_, hcons hd hds⟩
      · have hlt := length_readChar_lt _ hd
        have hlt' := length_readChar_lt _ he
        obtain ⟨n, rfl⟩ : ∃ m, n = m + 1 := ⟨n - 1, by omega⟩
        obtain ⟨ds, hds⟩ := ih hchars (n := n) (by omega)
        exact ⟨_, hcons hd (hcons he hds)⟩

theorem readString_skipped {s : String} (h : readString .used text = .ok (s, rest)) :
    ∃ t, readString .skipped text = .ok (t, rest) := by
  obtain ⟨⟨cs, _⟩, hchars, h⟩ := bind_eq_ok.mp h
  cases h
  obtain ⟨ds, hds⟩ := readChars_skipped hchars (Nat.lt_succ_self _)
  exact ⟨_, bind_eq_ok.mpr ⟨_, hds, rfl⟩⟩

theorem readScalar_skipped {c : Char} {j : Json} (h : readScalar .used c text = .ok (j, rest)) :
    ∃ k, readScalar .skipped c text = .ok (k, rest) := by
  unfold readScalar at h ⊢
  split
  · exact ⟨j, by rwa [if_pos ‹_›] at h⟩
  · rw [if_neg ‹_›] at h
    split
    · exact ⟨j, by rwa [if_pos ‹_›] at h⟩
    · rw [if_neg ‹_›] at h
      split
      · exact ⟨j, by rwa [if_pos ‹_›] at h⟩
      · rw [if_neg ‹_›] at h
        split
        · rw [if_pos ‹_›] at h
          exact ⟨j, readNumber_skipped h⟩
        · rw [if_neg ‹_›] at h
          split
          · rw [if_pos ‹_›] at h
            exact ⟨j, readNumber_skipped h⟩
          · rw [if_neg ‹_›] at h
            split
            · rw [if_pos ‹_›] at h
              obtain ⟨⟨s, more⟩, hstring, h⟩ := bind_eq_ok.mp h
              cases h
              obtain ⟨t, ht⟩ := readString_skipped hstring
              exact ⟨_, bind_eq_ok.mpr ⟨_, ht, rfl⟩⟩
            · rw [if_neg ‹_›] at h
              cases h

end

section

variable {value value' : Reader Json} {n : Nat} (hshortens : Shortens value)
  (hvalue : ∀ {text j rest}, value text = .ok (j, rest) → text.length ≤ n →
    ∃ k, value' text = .ok (k, rest))

include hshortens hvalue

/-- The items of one reader are those of another that reads as far. -/
theorem Items.imitated {isFirst : Bool} {text rest : List Char} {js : List Json}
    (h : Items value isFirst text js rest) (hn : text.length ≤ n) :
    ∃ ks, ks.length = js.length ∧ Items value' isFirst text ks rest := by
  induction h with
  | closed hstart => exact ⟨[], rfl, .closed hstart⟩
  | item hstart hj _ ih =>
    have hmore := (shortens_readItemStart _ hstart).trans hn
    obtain ⟨k, hk⟩ := hvalue hj hmore
    obtain ⟨ks, hlength, hks⟩ := ih ((hshortens hj).trans hmore)
    exact ⟨k :: ks, congrArg (· + 1) hlength, .item hstart hk hks⟩

/-- The members that one reader reads are those that another skips, if it reads as far. -/
theorem Members.imitated {isFirst : Bool} {text rest : List Char} {ms : List (String × Json)}
    (h : Members .used value isFirst text ms rest) (hn : text.length ≤ n) :
    ∃ ks, ks.length = ms.length ∧ Members .skipped value' isFirst text ks rest := by
  induction h with
  | closed hstart => exact ⟨[], rfl, .closed hstart⟩
  | member hstart hkey hcolon hj _ ih =>
    have hmore := ((shortens_readColon hcolon).trans ((shortens_readString _ hkey).trans
      (shortens_readKeyStart _ hstart))).trans hn
    obtain ⟨key, hkey⟩ := readString_skipped hkey
    obtain ⟨k, hk⟩ := hvalue hj hmore
    obtain ⟨ks, hlength, hks⟩ := ih ((hshortens hj).trans hmore)
    exact ⟨(key, k) :: ks, congrArg (· + 1) hlength, .member hstart hkey hcolon hk hks⟩

end

section

variable {value : Reader Json} (hshortens : Shortens value)

include hshortens

theorem Items.length_le {isFirst : Bool} {text rest : List Char} {js : List Json}
    (h : Items value isFirst text js rest) : rest.length ≤ text.length := by
  induction h with
  | closed hstart => exact shortens_readItemStart _ hstart
  | item hstart hj _ ih =>
    exact ih.trans ((hshortens hj).trans (shortens_readItemStart _ hstart))

theorem Members.length_le {p : Policy} {isFirst : Bool} {text rest : List Char}
    {ms : List (String × Json)} (h : Members p value isFirst text ms rest) :
    rest.length ≤ text.length := by
  induction h with
  | closed hstart => exact shortens_readKeyStart _ hstart
  | member hstart hkey hcolon hj _ ih =>
    exact ih.trans ((hshortens hj).trans ((shortens_readColon hcolon).trans
      ((shortens_readString _ hkey).trans (shortens_readKeyStart _ hstart))))

end

theorem shortens_readValue (p : Policy) (depth : Nat) : Shortens (readValue p depth) := by
  intro text j rest h
  induction depth generalizing text j rest with
  | zero =>
    obtain ⟨c, more, htext, hat⟩ := readValue_eq_ok_iff.mp h
    cases hat with
    | scalar _ _ hread =>
      exact (shortens_readScalar p c hread).trans (length_lt_of_skipBlanks htext)
  | succ depth ih =>
    obtain ⟨c, more, htext, hat⟩ := readValue_eq_ok_iff.mp h
    have hlt := length_lt_of_skipBlanks htext
    cases hat with
    | array hitems => exact (hitems.length_le ih).trans hlt.le
    | object hmembers => exact (hmembers.length_le ih).trans hlt.le
    | scalar _ _ hread => exact (shortens_readScalar p c hread).trans hlt

/-- A value can be skipped, with a depth of as many containers as it has characters. -/
theorem readValue_skipped {depth n : Nat} {text rest : List Char} {j : Json}
    (h : readValue .used depth text = .ok (j, rest)) (hn : text.length ≤ n) :
    ∃ k, readValue .skipped n text = .ok (k, rest) := by
  induction depth generalizing n text j rest with
  | zero =>
    obtain ⟨c, more, htext, hat⟩ := readValue_eq_ok_iff.mp h
    cases hat with
    | scalar harray hobject hread =>
      obtain ⟨k, hk⟩ := readScalar_skipped hread
      exact ⟨k, readValue_eq_ok_iff.mpr ⟨c, more, htext, .scalar harray hobject hk⟩⟩
  | succ depth ih =>
    obtain ⟨c, more, htext, hat⟩ := readValue_eq_ok_iff.mp h
    have hlt := length_lt_of_skipBlanks htext
    -- the bracket is a character, so for what is inside one level less is enough
    obtain ⟨n, rfl⟩ : ∃ m, n = m + 1 := ⟨n - 1, by omega⟩
    have hmore : more.length ≤ n := by omega
    cases hat with
    | array hitems hlength =>
      obtain ⟨ks, hks, hitems⟩ := hitems.imitated (shortens_readValue _ _) ih hmore
      exact ⟨_, readValue_eq_ok_iff.mpr ⟨_, more, htext, .array hitems (hks ▸ hlength)⟩⟩
    | object hmembers hlength =>
      obtain ⟨ks, hks, hmembers⟩ := hmembers.imitated (shortens_readValue _ _) ih hmore
      exact ⟨_, readValue_eq_ok_iff.mpr ⟨_, more, htext, .object hmembers (hks ▸ hlength)⟩⟩
    | scalar harray hobject hread =>
      obtain ⟨k, hk⟩ := readScalar_skipped hread
      exact ⟨k, readValue_eq_ok_iff.mpr ⟨c, more, htext, .scalar harray hobject hk⟩⟩

/-- Whatever can be read can be skipped. -/
theorem skipValue_of_readValue {depth : Nat} {text rest : List Char} {j : Json}
    (h : readValue .used depth text = .ok (j, rest)) : ∃ k, skipValue text = .ok (k, rest) :=
  readValue_skipped h le_rfl

end EcmaPrinter.Json
