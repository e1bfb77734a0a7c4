import EcmaPrinter.Proofs.Command.Configuration

/-!
Renderings from the command line are all or nothing.

`Outcome` says how a rendering ends and what the world is afterwards, rule by rule.  A rule for a
failure needs that everything before it went well, so the rules also say which failure comes first
when several things are wrong, and in all of them the world stays as it was.  There is always a rule
that applies (`exists_outcome`), and the command does what the rule says (`Outcome.runOn_eq`).

The rules speak of places and of the bytes there, not of texts that are put together: a path leads
from one directory to the next (`Files.walk?_join`).
-/

namespace EcmaPrinter.Command

/-! ### Files -/

namespace Files

theorem find?_filter_ne {α : Type} (entries : List (Path × α)) {place path : Path}
    (hne : path ≠ place) :
    (entries.filter (·.1 != place)).find? (·.1 == path) = entries.find? (·.1 == path) := by
  rw [List.find?_filter]
  congr 1
  funext entry
  by_cases hentry : entry.1 = path
  · simp [hentry, hne]
  · simp [hentry]

theorem get?_put_self (fs : Files) (place : Path) (contents : ByteArray) :
    (fs.put place contents).get? place = some contents := by
  simp [get?, put]

/-- Writing a file leaves all others as they are. -/
theorem get?_put_of_ne (fs : Files) {place path : Path} (contents : ByteArray)
    (hne : path ≠ place) : (fs.put place contents).get? path = fs.get? path := by
  have hfirst : (place == path) = false := by simpa using Ne.symm hne
  rw [get?, get?, put, List.find?_cons, hfirst, find?_filter_ne fs.entries hne]

/-- A text can be written where no directory is, in a directory. -/
def Writable (fs : Files) (place : Path) : Prop :=
  fs.isDirectory place = false ∧ fs.isDirectory place.dropLast = true

instance (fs : Files) (place : Path) : Decidable (fs.Writable place) :=
  inferInstanceAs (Decidable (_ ∧ _))

theorem writeText?_eq (fs : Files) (path text : String) :
    fs.writeText? path text =
      (fs.resolve? path).bind fun place =>
        if fs.Writable place then some (fs.put place text.toUTF8) else none := by
  unfold writeText? Writable
  cases fs.resolve? path with
  | none => rfl
  | some place =>
    cases hplace : fs.isDirectory place <;> cases hparent : fs.isDirectory place.dropLast <;>
      simp [hplace, hparent]

theorem fromUTF8?_eq_some_iff {contents : ByteArray} {text : String} :
    String.fromUTF8? contents = some text ↔ contents = text.toUTF8 := by
  unfold String.fromUTF8?
  constructor
  · intro h
    split at h
    · cases h
      rfl
    · cases h
  · rintro rfl
    exact dif_pos text.isValidUTF8

/-! ### Paths -/

/-- Where a path text leads: from the root if it is absolute, and otherwise from where another path
has led. -/
def walk? (fs : Files) (start? : Option Path) (text : String) : Option Path :=
  (if isAbsolute text then some [] else start?).bind (fs.follow (names text))

theorem resolve?_eq_walk? (fs : Files) (text : String) :
    fs.resolve? text = fs.walk? (some []) text := by
  rw [walk?, ite_self, Option.bind_some, resolve?]

theorem splitPath_cons {c : Char} (hc : c ≠ '/') {text name : List Char} {rest : List (List Char)}
    (h : splitPath text = name :: rest) : splitPath (c :: text) = (c :: name) :: rest := by
  unfold splitPath at h ⊢
  rw [List.foldr_cons, h]
  split
  · exact absurd rfl hc
  · next heq =>
    cases heq
    rfl
  · next heq => cases heq

theorem exists_splitPath_eq (text : List Char) : ∃ name rest, splitPath text = name :: rest := by
  induction text with
  | nil => exact ⟨_, _, rfl⟩
  | cons c text ih =>
    obtain ⟨name, rest, heq⟩ := ih
    by_cases hc : c = '/'
    · subst hc
      exact ⟨_, _, rfl⟩
    · exact ⟨_, _, splitPath_cons hc heq⟩

theorem splitPath_append (text more : List Char) :
    splitPath (text ++ '/' :: more) = splitPath text ++ splitPath more := by
  induction text with
  | nil => rfl
  | cons c text ih =>
    by_cases hc : c = '/'
    · subst hc
      exact congrArg ([] :: ·) ih
    · obtain ⟨name, rest, heq⟩ := exists_splitPath_eq text
      rw [heq, List.cons_append] at ih
      rw [List.cons_append, splitPath_cons hc ih, splitPath_cons hc heq, List.cons_append]

theorem names_append (text more : String) :
    names (text ++ "/" ++ more) = names text ++ names more := by
  have hslash : (text ++ "/" ++ more).toList = text.toList ++ '/' :: more.toList := by simp
  rw [names, names, names, hslash, splitPath_append, List.map_append]

theorem follow_append (fs : Files) (ns more : List String) (path : Path) :
    fs.follow (ns ++ more) path = (fs.follow ns path).bind (fs.follow more) := by
  induction ns generalizing path with
  | nil => rfl
  | cons name ns ih =>
    rw [List.cons_append, follow, follow]
    split
    · rfl
    · split
      · exact ih path
      · split
        · exact ih _
        · exact ih _

/-- To look whether a directory is one before following a path from there changes nothing. -/
theorem follow_bind_names (fs : Files) (directory : Path) (path : String) :
    (fs.follow [""] directory).bind (fs.follow (names path)) =
      fs.follow (names path) directory := by
  obtain ⟨name, rest, heq⟩ := exists_splitPath_eq path.toList
  rw [names, heq, List.map_cons]
  cases hdirectory : fs.isDirectory directory <;> simp [follow, hdirectory]

theorem exists_append_slash {text : String} (h : text.toList.getLast? = some '/') :
    ∃ front, text = front ++ "/" := by
  refine ⟨String.ofList text.toList.dropLast, String.toList_injective ?_⟩
  rw [String.toList_append, String.toList_ofList]
  exact (List.dropLast_append_getLast? '/' h).symm

section

variable {path : String} (h : isAbsolute path = false) (directory : String)

include h

/-- A slash is put between a directory and a relative path unless there is one already. -/
theorem join_cases :
    directory = "" ∧ join directory path = path ∨
      (∃ front, directory = front ++ "/" ∧ join directory path = front ++ "/" ++ path) ∨
      directory ≠ "" ∧ join directory path = directory ++ "/" ++ path := by
  rw [join, h, if_neg Bool.false_ne_true]
  by_cases hempty : directory = ""
  · subst hempty
    exact .inl ⟨rfl, String.empty_append⟩
  · have hne : directory.isEmpty = false := by simpa using hempty
    rw [hne, Bool.false_or]
    split
    · next hslash =>
      obtain ⟨front, rfl⟩ := exists_append_slash (eq_of_beq hslash)
      exact .inr (.inl ⟨front, rfl, rfl⟩)
    · exact .inr (.inr ⟨hempty, rfl⟩)

theorem isAbsolute_join : isAbsolute (join directory path) = isAbsolute directory := by
  have happend {directory : String} (hne : directory ≠ "") (more : String) :
      isAbsolute (directory ++ more) = isAbsolute directory := by
    have hne : directory.toList ≠ [] := by simpa using hne
    rw [isAbsolute, isAbsolute, String.toList_append, List.head?_append_of_ne_nil _ hne]
  rcases join_cases h directory with ⟨rfl, heq⟩ | ⟨front, rfl, heq⟩ | ⟨hne, heq⟩
  · rw [heq, h]
    rfl
  · rw [heq, happend (by simp)]
  · rw [heq, String.append_assoc, happend hne]

theorem follow_join (fs : Files) (start : Path) :
    fs.follow (names (join directory path)) start =
      (fs.follow (names directory) start).bind (fs.follow (names path)) := by
  rcases join_cases h directory with ⟨rfl, heq⟩ | ⟨front, rfl, heq⟩ | ⟨-, heq⟩
  · rw [heq]
    exact (fs.follow_bind_names start path).symm
  · -- the name behind the last slash is empty, and the directory stays where it is
    have hnames : names (front ++ "/") = names front ++ [""] := by
      rw [← String.append_empty (s := front ++ "/"), names_append]
      rfl
    rw [heq, names_append, hnames, follow_append, follow_append, Option.bind_assoc]
    simp only [follow_bind_names]
  · rw [heq, names_append, follow_append]

end

/-- A path seen from a directory leads on from where the directory lies. -/
theorem walk?_join (fs : Files) (start? : Option Path) (directory path : String) :
    fs.walk? start? (join directory path) = fs.walk? (fs.walk? start? directory) path := by
  cases h : isAbsolute path with
  | true =>
    have hjoin : join directory path = path := by rw [join, h, if_pos rfl]
    rw [hjoin, walk?, walk?, h, if_pos rfl, if_pos rfl]
  | false =>
    rw [walk?, isAbsolute_join h, funext (follow_join h directory fs)]
    simp only [walk?, h, if_neg Bool.false_ne_true, Option.bind_assoc]

end Files

namespace World

/-- The place to which a path leads, seen from a working directory. -/
def place? (w : World) (cwd path : String) : Option Path :=
  w.files.walk? (w.files.walk? (w.files.walk? (some []) w.directory) cwd) path

theorem resolve?_join (w : World) (cwd path : String) :
    w.files.resolve? (Files.join w.directory (Files.join cwd path)) = w.place? cwd path := by
  rw [Files.resolve?_eq_walk?, Files.walk?_join, Files.walk?_join, place?]

/-- The file to which a path leads holds a text. -/
def Holds (w : World) (cwd path text : String) : Prop :=
  ∃ place, w.place? cwd path = some place ∧ w.files.get? place = some text.toUTF8

theorem readText?_eq_some_iff {w : World} {cwd path text : String} :
    w.files.readText? (Files.join w.directory (Files.join cwd path)) = some text ↔
      w.Holds cwd path text := by
  rw [Files.readText?, resolve?_join]
  simp only [Option.bind_eq_bind, Option.bind_eq_some_iff, Files.fromUTF8?_eq_some_iff, Holds]
  constructor
  · rintro ⟨place, hplace, contents, hget, rfl⟩
    exact ⟨place, hplace, hget⟩
  · rintro ⟨place, hplace, hget⟩
    exact ⟨place, hplace, _, hget, rfl⟩

theorem readText?_eq_none_iff {w : World} {cwd path : String} :
    w.files.readText? (Files.join w.directory (Files.join cwd path)) = none ↔
      ∀ text, ¬ w.Holds cwd path text := by
  simp only [← readText?_eq_some_iff, Option.eq_none_iff_forall_ne_some, ne_eq]

end World

/-! ### How a rendering ends -/

/-- The path is a dash, for the standard input, up to what a path may have behind it. -/
def IsDash (path : String) : Prop :=
  ∃ rest, Files.names path = "-" :: rest ∧ ∀ name ∈ rest, name = "" ∨ name = "."

theorem isStandardInput_iff {path : String} : isStandardInput path = true ↔ IsDash path := by
  have hname (name : List Char) : (name.isEmpty || name == ['.']) = true ↔
      String.ofList name = "" ∨ String.ofList name = "." := by
    have hdot : String.ofList name = "." ↔ name = ['.'] :=
      ⟨fun h => String.ofList_inj.mp h, fun h => h ▸ rfl⟩
    simp [hdot]
  unfold isStandardInput IsDash Files.names
  split
  · next rest heq =>
    have hdash : String.ofList ['-'] = "-" := rfl
    rw [heq, List.map_cons, hdash, List.all_eq_true]
    constructor
    · intro h
      refine ⟨_, rfl, fun name hmem => ?_⟩
      obtain ⟨chars, hchars, rfl⟩ := List.mem_map.mp hmem
      exact (hname chars).mp (h chars hchars)
    · rintro ⟨_, hrest, h⟩ chars hchars
      obtain rfl := (List.cons.inj hrest).2
      exact (hname chars).mpr (h _ (List.mem_map_of_mem hchars))
  · next hne =>
    refine ⟨nofun, ?_⟩
    rintro ⟨rest, hnames, -⟩
    obtain ⟨name, more, heq⟩ := Files.exists_splitPath_eq path.toList
    rw [heq, List.map_cons] at hnames
    obtain rfl : name = ['-'] := by
      have hdash : "-" = String.ofList ['-'] := rfl
      exact String.ofList_inj.mp ((List.cons.inj hnames).1.trans hdash)
    exact (hne more heq).elim

/-- The input is a text: that of the standard input, or of a file. -/
inductive InputText (w : World) (cwd : String) (a : RenderArguments) (text : String) : Prop where
  | standard (hdash : IsDash a.input) (hread : w.input = some text) : InputText w cwd a text
  | file (hdash : ¬ IsDash a.input) (hread : w.Holds cwd a.input text) : InputText w cwd a text

section

variable (d : Decoder) (value? : String → Option Json) (w : World) (cwd : String)
  (a : RenderArguments)

/-- The options before the switches: the default ones, those that the configuration file stands for,
or what the decoder makes of a file that is not JSON throughout. -/
inductive Configured : Options → Prop where
  | default (hconfig : a.config? = none) : Configured {}
  | json {path text : String} {j : Json} {c : Options} (hconfig : a.config? = some path)
      (hread : w.Holds cwd path text) (hvalue : value? text = some j) (hoptions : ConfigOf j c) :
      Configured c
  | other {path text : String} {c : Options} (hconfig : a.config? = some path)
      (hread : w.Holds cwd path text) (hvalue : value? text = none)
      (hdecode : d.config text = .ok c) : Configured c

/-- There is a configuration and a program, and these are the options and the program. -/
structure Prepared (o : Options) (p : Program) : Prop where
  options : ∃ c, Configured d value? w cwd a c ∧ o.pretty = (c.pretty || a.pretty) ∧
    o.webSafe = (c.webSafe || a.webSafe) ∧
    o.hexLargeIntegers = (c.hexLargeIntegers && !a.noHex) ∧ o.indent = c.indent
  program : ∃ text j, InputText w cwd a text ∧ value? text = some j ∧
    Tree.ofJson? .program j = some p

/-- How a rendering ends, and the world afterwards. -/
inductive Outcome : Except Failure Unit → World → Prop where
  | configRead {path : String} (hconfig : a.config? = some path)
      (hread : ∀ text, ¬ w.Holds cwd path text) : Outcome (.error .configRead) w
  | configParse {path text : String} {fault : Fault} (hconfig : a.config? = some path)
      (hread : w.Holds cwd path text)
      (hrefused : ∀ j, value? text = some j → ∀ c, ¬ ConfigOf j c)
      (hfault : d.config text = .error fault) : Outcome (.error (.configParse fault)) w
  | inputRead {c : Options} (hconfig : Configured d value? w cwd a c)
      (hread : ∀ text, ¬ InputText w cwd a text) : Outcome (.error .inputRead) w
  | inputParse {c : Options} {text : String} {fault : Fault}
      (hconfig : Configured d value? w cwd a c) (hread : InputText w cwd a text)
      (hrefused : ∀ j, value? text = some j → Tree.ofJson? .program j = none)
      (hfault : d.program text = .error fault) : Outcome (.error (.inputParse fault)) w
  | hazard {o : Options} {p : Program} {hazard : Hazard}
      (hprepared : Prepared d value? w cwd a o p) (hrender : Program.render o p = .error hazard) :
      Outcome (.error (.hazard hazard)) w
  | printed {o : Options} {p : Program} {text : String}
      (hprepared : Prepared d value? w cwd a o p) (hrender : Program.render o p = .ok text)
      (houtput : a.output? = none) :
      Outcome (.ok ()) { w with output := w.output ++ (text ++ "\n") }
  | written {o : Options} {p : Program} {path text : String} {place : Path}
      (hprepared : Prepared d value? w cwd a o p) (hrender : Program.render o p = .ok text)
      (houtput : a.output? = some path) (hplace : w.place? cwd path = some place)
      (hwritable : w.files.Writable place) :
      Outcome (.ok ()) { w with files := w.files.put place text.toUTF8 }
  | outputWrite {o : Options} {p : Program} {path text : String}
      (hprepared : Prepared d value? w cwd a o p) (hrender : Program.render o p = .ok text)
      (houtput : a.output? = some path)
      (hplace : ∀ place, w.place? cwd path = some place → ¬ w.files.Writable place) :
      Outcome (.error .outputWrite) w

end

variable {d : Decoder} {value? : String → Option Json} {w w' : World} {cwd : String}
  {a : RenderArguments} {c : Options}

/-! ### Runs -/

/-- How a command ends in a world, and the world afterwards. -/
abbrev runOn {α : Type} (x : ExceptT Failure (StateM World) α) (w : World) :
    Except Failure α × World :=
  x.run.run w

theorem runOn_bind {α β : Type} (x : ExceptT Failure (StateM World) α)
    (f : α → ExceptT Failure (StateM World) β) (w : World) :
    runOn (x >>= f) w = match runOn x w with
      | (.ok y, w') => runOn (f y) w'
      | (.error e, w') => (.error e, w') := by
  show ExceptT.bindCont f (runOn x w).1 (runOn x w).2 = _
  rcases runOn x w with ⟨_ | y, w'⟩ <;> rfl

theorem runOn_lift {α : Type} (x : StateM World α) (w : World) :
    runOn (liftM x) w = (.ok (x.run w).1, (x.run w).2) :=
  rfl

/-- The options that a configuration text gives. -/
def RenderArguments.optionsOf (a : RenderArguments) (d : Decoder) :
    Option String → Except Failure Options
  | none => .error .configRead
  | some text => match d.config text with
    | .ok c => .ok (a.adjust c)
    | .error fault => .error (.configParse fault)

/-- The program that an input text gives. -/
def Decoder.programOf (d : Decoder) : Option String → Except Failure Program
  | none => .error .inputRead
  | some text => match d.program text with
    | .ok p => .ok p
    | .error fault => .error (.inputParse fault)

/-- The text of the input, if it can be read. -/
def World.inputText? (w : World) (cwd : String) (a : RenderArguments) : Option String :=
  if isStandardInput a.input then w.input
  else w.files.readText? (Files.join w.directory (Files.join cwd a.input))

theorem inputText?_eq_some_iff {text : String} :
    w.inputText? cwd a = some text ↔ InputText w cwd a text := by
  unfold World.inputText?
  by_cases hdash : IsDash a.input
  · rw [if_pos (isStandardInput_iff.mpr hdash)]
    refine ⟨.standard hdash, fun h => ?_⟩
    cases h with
    | standard _ hread => exact hread
    | file hnot => exact absurd hdash hnot
  · rw [if_neg (fun h => hdash (isStandardInput_iff.mp h)), World.readText?_eq_some_iff]
    refine ⟨.file hdash, fun h => ?_⟩
    cases h with
    | standard hdash' => exact absurd hdash' hdash
    | file _ hread => exact hread

theorem inputText?_eq_none_iff :
    w.inputText? cwd a = none ↔ ∀ text, ¬ InputText w cwd a text := by
  simp only [← inputText?_eq_some_iff, Option.eq_none_iff_forall_ne_some, ne_eq]

theorem runOn_readFile (path : String) (w : World) :
    runOn (liftM (World.host.readFile path)) w =
      (.ok (w.files.readText? (Files.join w.directory path)), w) :=
  rfl

theorem runOn_readInput (w : World) :
    runOn (liftM World.host.readInput) w = (.ok w.input, w) :=
  rfl

theorem runOn_renderOptions (d : Decoder) (cwd : String) (a : RenderArguments) (w : World) :
    runOn (renderOptions d World.host cwd a) w =
      (a.config?.elim (.ok (a.adjust {})) fun path =>
        a.optionsOf d (w.files.readText? (Files.join w.directory (Files.join cwd path))), w) := by
  have hoptions (text? : Option String) : runOn (match text? with
      | none => throw .configRead
      | some text => match d.config text with
        | .ok c => pure (a.adjust c)
        | .error fault => throw (.configParse fault)) w = (a.optionsOf d text?, w) := by
    cases text? with
    | none => rfl
    | some text =>
      simp only [RenderArguments.optionsOf]
      cases d.config text <;> rfl
  unfold renderOptions
  cases a.config? with
  | none => rfl
  | some path =>
    simp only
    rw [runOn_bind, runOn_readFile, Option.elim_some]
    -- how the text is found does not matter
    generalize w.files.readText? (Files.join w.directory (Files.join cwd path)) = text?
    exact hoptions text?

theorem runOn_renderInput (d : Decoder) (cwd : String) (a : RenderArguments) (w : World) :
    runOn (renderInput d World.host cwd a) w = (d.programOf (w.inputText? cwd a), w) := by
  have hprogram (text? : Option String) : runOn (match text? with
      | none => throw .inputRead
      | some text => match d.program text with
        | .ok p => pure p
        | .error fault => throw (.inputParse fault)) w = (d.programOf text?, w) := by
    cases text? with
    | none => rfl
    | some text =>
      simp only [Decoder.programOf]
      cases d.program text <;> rfl
  unfold renderInput World.inputText?
  split
  · rw [runOn_bind, runOn_readInput]
    exact hprogram w.input
  · rw [runOn_bind, runOn_readFile]
    generalize w.files.readText? (Files.join w.directory (Files.join cwd a.input)) = text?
    exact hprogram text?

theorem runOn_writeFile (path text : String) (w : World) :
    runOn (liftM (World.host.writeFile path text)) w =
      match w.files.writeText? (Files.join w.directory path) text with
      | some files => (.ok true, { w with files := files })
      | none => (.ok false, w) := by
  have hwrite : (World.host.writeFile path text).run w =
      match w.files.writeText? (Files.join w.directory path) text with
      | some files => (true, { w with files := files })
      | none => (false, w) := by
    simp only [World.host, StateT.run_bind, StateT.run_get, pure_bind]
    cases w.files.writeText? (Files.join w.directory path) text <;> rfl
  rw [runOn_lift, hwrite]
  cases w.files.writeText? (Files.join w.directory path) text <;> rfl

/-! ### Rules and runs -/

/-- What the decoder makes of the configuration is what the rules say. -/
theorem configured_iff (hd : d.Reads value?) :
    Configured d value? w cwd a c ↔ a.config? = none ∧ c = {} ∨
      ∃ path text, a.config? = some path ∧ w.Holds cwd path text ∧ d.config text = .ok c := by
  constructor
  · rintro (hconfig | ⟨hconfig, hread, hvalue, hoptions⟩ | ⟨hconfig, hread, -, hdecode⟩)
    · exact .inl ⟨hconfig, rfl⟩
    · exact .inr ⟨_, _, hconfig, hread, (hd.config hvalue).mpr hoptions⟩
    · exact .inr ⟨_, _, hconfig, hread, hdecode⟩
  · rintro (⟨hconfig, rfl⟩ | ⟨path, text, hconfig, hread, hdecode⟩)
    · exact .default hconfig
    · cases hvalue : value? text with
      | none => exact .other hconfig hread hvalue hdecode
      | some j => exact .json hconfig hread hvalue ((hd.config hvalue).mp hdecode)

theorem runOn_renderOptions_of_configured (hd : d.Reads value?)
    (h : Configured d value? w cwd a c) :
    runOn (renderOptions d World.host cwd a) w = (.ok (a.adjust c), w) := by
  rw [runOn_renderOptions]
  rcases (configured_iff hd).mp h with ⟨hconfig, rfl⟩ | ⟨path, text, hconfig, hread, hdecode⟩
  · rw [hconfig]
    rfl
  · rw [hconfig, Option.elim_some, World.readText?_eq_some_iff.mpr hread]
    simp only [RenderArguments.optionsOf, hdecode]

/-- What happens to a text that has been made. -/
theorem runOn_runRender_of_prepared (hd : d.Reads value?) {o : Options} {p : Program}
    (h : Prepared d value? w cwd a o p) :
    runOn (runRender d World.host cwd a) w = match Program.render o p with
      | .error hazard => (.error (.hazard hazard), w)
      | .ok text => match a.output? with
        | none => (.ok (), { w with output := w.output ++ (text ++ "\n") })
        | some path =>
          match w.files.writeText? (Files.join w.directory (Files.join cwd path)) text with
          | some files => (.ok (), { w with files := files })
          | none => (.error .outputWrite, w) := by
  obtain ⟨⟨c, hconfig, hpretty, hsafe, hhex, hindent⟩, text, j, hinput, hvalue, hj⟩ := h
  have ho : a.adjust c = o := by
    cases o
    simp only at hpretty hsafe hhex hindent
    rw [RenderArguments.adjust, hpretty, hsafe, hhex, hindent]
  have hprogram : runOn (renderInput d World.host cwd a) w = (.ok p, w) := by
    rw [runOn_renderInput, inputText?_eq_some_iff.mpr hinput]
    simp only [Decoder.programOf, hd.program.mpr ⟨j, hvalue, hj⟩]
  rw [runRender, runOn_bind, runOn_renderOptions_of_configured hd hconfig, ho]
  simp only
  rw [runOn_bind, hprogram]
  simp only
  cases Program.render o p with
  | error hazard => rfl
  | ok text =>
    cases a.output? with
    | none => rfl
    | some path =>
      simp only
      rw [runOn_bind, runOn_writeFile]
      cases w.files.writeText? (Files.join w.directory (Files.join cwd path)) text <;> rfl

theorem writeText?_of_writable {path text : String} {place : Path}
    (hplace : w.place? cwd path = some place) (hwritable : w.files.Writable place) :
    w.files.writeText? (Files.join w.directory (Files.join cwd path)) text =
      some (w.files.put place text.toUTF8) := by
  rw [Files.writeText?_eq, World.resolve?_join, hplace, Option.bind_some, if_pos hwritable]

theorem writeText?_eq_none {path text : String}
    (h : ∀ place, w.place? cwd path = some place → ¬ w.files.Writable place) :
    w.files.writeText? (Files.join w.directory (Files.join cwd path)) text = none := by
  rw [Files.writeText?_eq, World.resolve?_join, Option.bind_eq_none_iff]
  exact fun place hplace => if_neg (h place hplace)

/-- A rendering ends as a rule says. -/
theorem Outcome.runOn_eq (hd : d.Reads value?) {e : Except Failure Unit}
    (h : Outcome d value? w cwd a e w') : runOn (runRender d World.host cwd a) w = (e, w') := by
  cases h with
  | configRead hconfig hread =>
    rw [runRender, runOn_bind, runOn_renderOptions, hconfig, Option.elim_some,
      World.readText?_eq_none_iff.mpr hread]
    rfl
  | configParse hconfig hread _ hfault =>
    rw [runRender, runOn_bind, runOn_renderOptions, hconfig, Option.elim_some,
      World.readText?_eq_some_iff.mpr hread]
    simp only [RenderArguments.optionsOf, hfault]
  | inputRead hconfig hread =>
    rw [runRender, runOn_bind, runOn_renderOptions_of_configured hd hconfig]
    simp only
    rw [runOn_bind, runOn_renderInput, inputText?_eq_none_iff.mpr hread]
    rfl
  | inputParse hconfig hread _ hfault =>
    rw [runRender, runOn_bind, runOn_renderOptions_of_configured hd hconfig]
    simp only
    rw [runOn_bind, runOn_renderInput, inputText?_eq_some_iff.mpr hread]
    simp only [Decoder.programOf, hfault]
  | hazard hprepared hrender =>
    rw [runOn_runRender_of_prepared hd hprepared, hrender]
  | printed hprepared hrender houtput =>
    rw [runOn_runRender_of_prepared hd hprepared, hrender]
    simp only [houtput]
  | written hprepared hrender houtput hplace hwritable =>
    rw [runOn_runRender_of_prepared hd hprepared, hrender]
    simp only [houtput, writeText?_of_writable hplace hwritable]
  | outputWrite hprepared hrender houtput hplace =>
    rw [runOn_runRender_of_prepared hd hprepared, hrender]
    simp only [houtput, writeText?_eq_none hplace]

section

variable (hd : d.Reads value?) (w : World) (cwd : String) (a : RenderArguments)

include hd

theorem Configured.exists_or :
    (∃ c, Configured d value? w cwd a c) ∨ ∃ e w', Outcome d value? w cwd a e w' := by
  cases hconfig : a.config? with
  | none => exact .inl ⟨_, .default hconfig⟩
  | some path =>
    by_cases hread : ∃ text, w.Holds cwd path text
    · obtain ⟨text, hread⟩ := hread
      cases hdecode : d.config text with
      | ok c => exact .inl ⟨c, (configured_iff hd).mpr (.inr ⟨_, _, hconfig, hread, hdecode⟩)⟩
      | error fault =>
        refine .inr ⟨_, _, .configParse hconfig hread (fun j hvalue c hoptions => ?_) hdecode⟩
        cases hdecode.symm.trans ((hd.config hvalue).mpr hoptions)
    · exact .inr ⟨_, _, .configRead hconfig (not_exists.mp hread)⟩

theorem Prepared.exists_or :
    (∃ o p, Prepared d value? w cwd a o p) ∨ ∃ e w', Outcome d value? w cwd a e w' := by
  rcases Configured.exists_or hd w cwd a with ⟨c, hconfig⟩ | houtcome
  · by_cases hread : ∃ text, InputText w cwd a text
    · obtain ⟨text, hread⟩ := hread
      cases hdecode : d.program text with
      | ok p =>
        obtain ⟨j, hvalue, hj⟩ := hd.program.mp hdecode
        exact .inl ⟨a.adjust c, p, ⟨c, hconfig, rfl, rfl, rfl, rfl⟩, text, j, hread, hvalue, hj⟩
      | error fault =>
        refine .inr ⟨_, _, .inputParse hconfig hread (fun j hvalue => ?_) hdecode⟩
        rw [Option.eq_none_iff_forall_ne_some]
        intro p hj
        cases hdecode.symm.trans (hd.program.mpr ⟨j, hvalue, hj⟩)
    · exact .inr ⟨_, _, .inputRead hconfig (not_exists.mp hread)⟩
  · exact .inr houtcome

/-- There is always a rule that applies. -/
theorem exists_outcome : ∃ e w', Outcome d value? w cwd a e w' := by
  rcases Prepared.exists_or hd w cwd a with ⟨o, p, hprepared⟩ | houtcome
  · cases hrender : Program.render o p with
    | error hazard => exact ⟨_, _, .hazard hprepared hrender⟩
    | ok text =>
      cases houtput : a.output? with
      | none => exact ⟨_, _, .printed hprepared hrender houtput⟩
      | some path =>
        by_cases hplace : ∃ place, w.place? cwd path = some place ∧ w.files.Writable place
        · obtain ⟨place, hplace, hwritable⟩ := hplace
          exact ⟨_, _, .written hprepared hrender houtput hplace hwritable⟩
        · refine ⟨_, _, .outputWrite hprepared hrender houtput fun place hplace' hwritable => ?_⟩
          exact hplace ⟨place, hplace', hwritable⟩
  · exact houtcome

end

theorem Outcome.world_eq {f : Failure} (h : Outcome d value? w cwd a (.error f) w') : w' = w := by
  cases h <;> rfl

/-- What a rendering that succeeds has changed: what was printed, or one file. -/
def Rendered (d : Decoder) (value? : String → Option Json) (w : World) (cwd : String)
    (a : RenderArguments) (w' : World) : Prop :=
  ∃ o p text, Prepared d value? w cwd a o p ∧ Program.render o p = .ok text ∧
    match a.output? with
    | none => w'.output = w.output ++ text ++ "\n" ∧ w'.files = w.files
    | some path => w'.output = w.output ∧ ∃ place, w.place? cwd path = some place ∧
        w'.files.get? place = some text.toUTF8 ∧
        ∀ other, other ≠ place → w'.files.get? other = w.files.get? other

theorem Outcome.rendered (h : Outcome d value? w cwd a (.ok ()) w') :
    Rendered d value? w cwd a w' := by
  cases h with
  | printed hprepared hrender houtput =>
    refine ⟨_, _, _, hprepared, hrender, ?_⟩
    rw [houtput]
    exact ⟨String.append_assoc.symm, rfl⟩
  | written hprepared hrender houtput hplace hwritable =>
    refine ⟨_, _, _, hprepared, hrender, ?_⟩
    rw [houtput]
    exact ⟨rfl, _, hplace, w.files.get?_put_self _ _, fun _ => w.files.get?_put_of_ne _⟩

/-- A rendering ends by exactly one of the rules.  If it fails, nothing has changed; if it succeeds,
the text has been printed or written to one file. -/
theorem runRender_outcome (d : Decoder) (value? : String → Option Json) (hd : d.Reads value?)
    (w : World) (cwd : String) (a : RenderArguments) :
    ∃ e w', runOn (runRender d World.host cwd a) w = (e, w') ∧
      Outcome d value? w cwd a e w' ∧
      (∀ e' w'', Outcome d value? w cwd a e' w'' → e' = e ∧ w'' = w') ∧
      (∀ f, e = .error f → w' = w) ∧
      (e = .ok () → Rendered d value? w cwd a w') := by
  obtain ⟨e, w', houtcome⟩ := exists_outcome hd w cwd a
  refine ⟨e, w', houtcome.runOn_eq hd, houtcome, ?_, ?_, ?_⟩
  · intro e' w'' h
    exact Prod.mk.inj ((h.runOn_eq hd).symm.trans (houtcome.runOn_eq hd))
  · rintro f rfl
    exact houtcome.world_eq
  · rintro rfl
    exact houtcome.rendered

/-- In the directory `/work`, a tree is rendered by the configuration over the file that it was read
from, and printed without a configuration from the standard input. -/
theorem runRender_outcome_overInput :
    let statement := "\x7b\"type\":\"DebuggerStatement\"\x7d"
    let tree :=
      "\x7b\"type\":\"Script\",\"directives\":[],\"statements\":[" ++ statement ++ "]\x7d"
    let config := "\x7b\"codegen\": \x7b\"pretty\": true\x7d\x7d"
    let w : World :=
      { files := { entries := [(["work", "tree.json"], tree.toUTF8),
          (["work", "unparse.json"], config.toUTF8)] }
        directory := "/work"
        input := some tree }
    let written : RenderArguments :=
      { input := "tree.json", output? := some "../work/tree.json",
        config? := some "/work/unparse.json" }
    let printed : RenderArguments := { input := "-" }
    runOn (runRender .json World.host "/work" written) w =
        (.ok (), { w with files := w.files.put ["work", "tree.json"] "debugger;".toUTF8 }) ∧
      runOn (runRender .json World.host "/work" printed) w =
        (.ok (), { w with output := "debugger\n" }) := by
  intro statement tree config w written printed
  let treeJson : Json := .object [("type", .string "Script"), ("directives", .array []),
    ("statements", .array [.object [("type", .string "DebuggerStatement")]])]
  let program : Program := .script .nil (.cons .debuggerStatement .nil)
  have htree : jsonValue? tree = some treeJson := by
    unfold tree treeJson statement
    cbv
  have hprogram : Tree.ofJson? .program treeJson = some program := by cbv
  constructor
  · have hconfig : Configured .json jsonValue? w "/work" written { pretty := true } := by
      have hvalue : jsonValue? config =
          some (.object [("codegen", .object [("pretty", .bool true)])]) := by cbv
      have hread : w.Holds "/work" "/work/unparse.json" config :=
        ⟨["work", "unparse.json"], by decide, by decide⟩
      refine .json rfl hread hvalue ⟨_, rfl, ?_⟩
      rw [valuesOf_cons_self]
      refine .given ⟨_, rfl, ?_, ?_, ?_, ?_⟩
      · rw [valuesOf_cons_self]
        exact .given rfl
      all_goals
        rw [valuesOf_cons_of_ne (by decide)]
        exact .absent
    have hinput : InputText w "/work" written tree := by
      refine .file ?_ ⟨["work", "tree.json"], by decide, by decide⟩
      rw [← isStandardInput_iff]
      decide
    have hprepared : Prepared .json jsonValue? w "/work" written { pretty := true } program :=
      ⟨⟨_, hconfig, rfl, rfl, rfl, rfl⟩, tree, treeJson, hinput, htree, hprogram⟩
    have hrender : Program.render { pretty := true } program = .ok "debugger;" := by decide
    have hplace : w.place? "/work" "../work/tree.json" = some ["work", "tree.json"] := by
      decide
    obtain ⟨e, w', hrun, -, hunique, -, -⟩ :=
      runRender_outcome .json jsonValue? Decoder.json_reads w "/work" written
    obtain ⟨he, hw⟩ := hunique _ _ (.written hprepared hrender rfl hplace (by decide))
    exact hrun.trans (he ▸ hw ▸ rfl)
  · have hinput : InputText w "/work" printed tree :=
      .standard (isStandardInput_iff.mp (by decide)) rfl
    have hprepared : Prepared .json jsonValue? w "/work" printed {} program :=
      ⟨⟨{}, .default rfl, rfl, rfl, rfl, rfl⟩, tree, treeJson, hinput, htree, hprogram⟩
    have hrender : Program.render {} program = .ok "debugger" := by decide
    obtain ⟨e, w', hrun, -, hunique, -, -⟩ :=
      runRender_outcome .json jsonValue? Decoder.json_reads w "/work" printed
    obtain ⟨he, hw⟩ := hunique _ _ (.printed hprepared hrender rfl)
    exact hrun.trans (he ▸ hw ▸ rfl)

end EcmaPrinter.Command
