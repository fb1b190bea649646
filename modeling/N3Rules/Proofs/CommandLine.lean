/-
What a command line comes to.

Words are read from left to right, and reading ends at the first that makes no sense. What comes of it can be told from
the arguments as a whole, in which the flags may stand anywhere. Then the file is read, and its text is loaded and its
rules are run by an engine that is new but for its set-up, which changes no reply.

- `Argument.ofWords`: the arguments that words are;
- `Request.readFrom_eq`: the request that words make, told from all arguments at once;
- `FlagMoved`, `answer?_of_moved`: a flag is moved, and the outcome is the same;
- `Replies`: what a new engine comes to with a text, however many sweeps it takes;
- `Misused`, `Fails`, `Reads`: what a command line comes to, told from its arguments and the file;
- `command_line_outcome`: the exit code and the output.
-/
import N3Rules.CommandLine
import N3Rules.Proofs.Engine.Plugins

namespace N3Rules

/-! ## Arguments -/

/-- an argument, with its value if it takes one -/
inductive Argument where
  | json
  | trace
  | format (name : String)
  /-- a `--format` that stands last and has no value -/
  | unfinished
  | file (path : String)
  deriving DecidableEq

@[simp]
def Argument.path? : Argument → Option String
  | .file path => some path
  | _ => none

@[simp]
def Argument.format? : Argument → Option String
  | .format name => some name
  | _ => none

/-- the arguments that words are; a `--format` takes the next word, whatever it is -/
def Argument.ofWords : List String → List Argument
  | [] => []
  | "--json" :: words => .json :: ofWords words
  | "--trace" :: words => .trace :: ofWords words
  | ["--format"] => [.unfinished]
  | "--format" :: name :: words => .format name :: ofWords words
  | word :: words => .file word :: ofWords words

theorem Argument.ofWords_file {word : String} (hjson : word ≠ "--json") (htrace : word ≠ "--trace")
    (hformat : word ≠ "--format") (words : List String) :
    Argument.ofWords (word :: words) = .file word :: Argument.ofWords words := by
  rw [Argument.ofWords]
  all_goals simp_all

/-- the request after arguments, all read at once -/
def Request.ofArguments (r : Request) (args : List Argument) : Except ExitCode Request :=
  match r.path.toList ++ args.filterMap Argument.path? with
  | [] => .error (if .unfinished ∈ args then .failure else .usage)
  | [path] =>
    if .unfinished ∈ args then .error .failure
    else .ok {
      path := some path
      json := r.json || .json ∈ args
      trace := r.trace || .trace ∈ args
      format := (args.filterMap Argument.format?).getLast?.getD r.format }
  | _ :: _ :: _ => .error .usage

section Reading

variable (r : Request) (args : List Argument)

theorem Request.ofArguments_nil : r.ofArguments [] = if r.path.isSome then .ok r else .error .usage := by
  cases h : r.path with
  | none => simp [Request.ofArguments, h]
  | some path =>
    simp [Request.ofArguments, h]
    rw [← h]

theorem Request.ofArguments_json : r.ofArguments (.json :: args) = { r with json := true }.ofArguments args := by
  simp [Request.ofArguments, List.filterMap_cons]

theorem Request.ofArguments_trace : r.ofArguments (.trace :: args) = { r with trace := true }.ofArguments args := by
  simp [Request.ofArguments, List.filterMap_cons]

theorem Request.ofArguments_format (name : String) :
    r.ofArguments (.format name :: args) = { r with format := name }.ofArguments args := by
  simp [Request.ofArguments, List.filterMap_cons, List.getLast?_cons, -List.getLast?_filterMap]

theorem Request.ofArguments_unfinished : r.ofArguments [.unfinished] = .error .failure := by
  cases h : r.path <;> simp [Request.ofArguments, h, List.filterMap_cons]

theorem Request.ofArguments_file (path : String) : r.ofArguments (.file path :: args) =
    if r.path.isSome then .error .usage else { r with path := some path }.ofArguments args := by
  cases h : r.path <;> simp [Request.ofArguments, List.filterMap_cons, h]

end Reading

/-- words are read as their arguments are -/
theorem Request.readFrom_eq (r : Request) (words : List String) :
    r.readFrom words = r.ofArguments (Argument.ofWords words) := by
  fun_induction Argument.ofWords words generalizing r with
  | case1 => rw [Request.ofArguments_nil, Request.readFrom]
  | case2 words ih => rw [Request.ofArguments_json, ← ih, Request.readFrom]
  | case3 words ih => rw [Request.ofArguments_trace, ← ih, Request.readFrom]
  | case4 => rw [Request.ofArguments_unfinished, Request.readFrom]
  | case5 name words ih => rw [Request.ofArguments_format, ← ih, Request.readFrom]
  | case6 word words _ _ _ _ ih =>
    rw [Request.ofArguments_file, ← ih, Request.readFrom]
    all_goals assumption

/-- the word behind a `--format` is its value, even if it looks like a flag -/
example : Argument.ofWords ["--format", "--json", "facts.n3", "--format"] =
    [.format "--json", .file "facts.n3", .unfinished] := by
  decide

/-! ## Flags -/

/-- words whose last argument is whole: no `--format` lacks its value -/
def Complete (words : List String) : Prop :=
  .unfinished ∉ Argument.ofWords words

instance (words : List String) : Decidable (Complete words) :=
  inferInstanceAs (Decidable (_ ∉ _))

/-- behind whole arguments, words are read as if they stood alone -/
theorem Argument.ofWords_append {words : List String} (h : Complete words) (later : List String) :
    Argument.ofWords (words ++ later) = Argument.ofWords words ++ Argument.ofWords later := by
  unfold Complete at h
  fun_induction Argument.ofWords words with
  | case1 => rfl
  | case2 words ih =>
    rw [List.cons_append, Argument.ofWords, ih (List.not_mem_of_not_mem_cons h), List.cons_append]
  | case3 words ih =>
    rw [List.cons_append, Argument.ofWords, ih (List.not_mem_of_not_mem_cons h), List.cons_append]
  | case4 => exact absurd (List.mem_singleton_self _) h
  | case5 name words ih =>
    rw [List.cons_append, List.cons_append, Argument.ofWords, ih (List.not_mem_of_not_mem_cons h), List.cons_append]
  | case6 word words hjson htrace hlast hformat ih =>
    have hword : word ≠ "--format" := by
      intro hword
      cases words with
      | nil => exact hlast hword rfl
      | cons name words => exact hformat name words hword rfl
    rw [List.cons_append, Argument.ofWords_file hjson htrace hword, ih (List.not_mem_of_not_mem_cons h), List.cons_append]

theorem complete_append {words later : List String} (h : Complete words) :
    Complete (words ++ later) ↔ Complete later := by
  have hwords : .unfinished ∉ Argument.ofWords words := h
  simp [Complete, Argument.ofWords_append h, hwords]

/-- a flag is moved over some words, and neither of its places is behind a `--format` that lacks its value -/
inductive FlagMoved : List String → List String → Prop where
  | past {flag : String} {before middle : List String} (after : List String)
      (hflag : flag = "--json" ∨ flag = "--trace") (hbefore : Complete before) (hwhole : Complete (before ++ middle)) :
      FlagMoved (before ++ flag :: (middle ++ after)) (before ++ middle ++ flag :: after)

/-- a flag is read alone, whatever follows -/
theorem Argument.ofWords_flag {word : String} (h : word = "--json" ∨ word = "--trace") :
    ∃ flag, (flag = Argument.json ∨ flag = Argument.trace) ∧
      ∀ words, Argument.ofWords (word :: words) = flag :: Argument.ofWords words := by
  rcases h with rfl | rfl
  · exact ⟨.json, .inl rfl, fun words => by rw [Argument.ofWords]⟩
  · exact ⟨.trace, .inr rfl, fun words => by rw [Argument.ofWords]⟩

/-- among the arguments, a flag may stand anywhere -/
theorem Request.ofArguments_moved (r : Request) {flag : Argument} (h : flag = .json ∨ flag = .trace)
    (before middle after : List Argument) :
    r.ofArguments (before ++ flag :: (middle ++ after)) = r.ofArguments (before ++ middle ++ flag :: after) := by
  rcases h with rfl | rfl
  · simp [Request.ofArguments, List.filterMap_cons]
  · simp [Request.ofArguments, List.filterMap_cons]

theorem Request.read_of_flagMoved {words words' : List String} (h : FlagMoved words words') :
    Request.read words = Request.read words' := by
  obtain @⟨flag, before, middle, after, hflag, hbefore, hwhole⟩ := h
  obtain ⟨arg, harg, hwords⟩ := Argument.ofWords_flag hflag
  have hmiddle : Complete middle := (complete_append hbefore).1 hwhole
  have hfrom : Argument.ofWords (before ++ flag :: (middle ++ after)) =
      Argument.ofWords before ++ arg :: (Argument.ofWords middle ++ Argument.ofWords after) := by
    rw [Argument.ofWords_append hbefore, hwords, Argument.ofWords_append hmiddle]
  have hto : Argument.ofWords (before ++ middle ++ flag :: after) =
      Argument.ofWords before ++ Argument.ofWords middle ++ arg :: Argument.ofWords after := by
    rw [Argument.ofWords_append hwhole, Argument.ofWords_append hbefore, hwords]
  calc Request.read (before ++ flag :: (middle ++ after))
    _ = ({} : Request).ofArguments (Argument.ofWords (before ++ flag :: (middle ++ after))) := Request.readFrom_eq _ _
    _ = ({} : Request).ofArguments (Argument.ofWords (before ++ middle ++ flag :: after)) := by
      rw [hfrom, hto, Request.ofArguments_moved _ harg]
    _ = Request.read (before ++ middle ++ flag :: after) := (Request.readFrom_eq _ _).symm

/-- wherever the flags are moved, one after the other, the outcome stays the same -/
theorem answer?_of_moved {words words' : List String} (h : Relation.EqvGen FlagMoved words words') (limit : Nat)
    (contents : String → Option (List UInt8)) : answer? limit words contents = answer? limit words' contents := by
  induction h with
  | rel words words' h => rw [answer?, answer?, Request.read_of_flagMoved h]
  | refl words => rfl
  | symm words words' _ ih => exact ih.symm
  | trans words words' words'' _ _ ih ih' => exact ih.trans ih'

/-! ## Replies -/

/-- what a new engine replies when it has loaded a text and then runs its rules -/
def Engine.replyTo? (limit : Nat) (text : String) : Option Reply := do
  let (e, _) ← ({} : Engine).perform? limit (.load text)
  let (_, reply) ← e.perform? limit .reason
  return reply

/-- a new engine that has loaded a text and runs its rules comes to a reply -/
def Replies (text : String) (reply : Reply) : Prop :=
  ∃ limit, Engine.replyTo? limit text = some reply

/-- what is asked for in so many sweeps comes to a value from some number on -/
def Settles {α : Type} (answer : Nat → Option α) (a : α) : Prop :=
  ∃ least, ∀ limit, least ≤ limit → answer limit = some a

theorem Settles.of_always {α : Type} {answer : Nat → Option α} {a : α} (h : ∀ limit, answer limit = some a) :
    Settles answer a :=
  ⟨0, fun limit _ => h limit⟩

theorem Settles.map {α β : Type} {answer : Nat → Option α} {a : α} (h : Settles answer a) (f : α → β) :
    Settles (fun limit => (answer limit).map f) (f a) := by
  obtain ⟨least, hleast⟩ := h
  exact ⟨least, fun limit hle => congrArg (Option.map f) (hleast limit hle)⟩

theorem Settles.unique {α : Type} {answer : Nat → Option α} {a b : α} (ha : Settles answer a) (hb : Settles answer b) :
    a = b := by
  obtain ⟨least, hleast⟩ := ha
  obtain ⟨least', hleast'⟩ := hb
  have hmax := hleast _ (Nat.le_max_left least least')
  rw [hleast' _ (Nat.le_max_right least least')] at hmax
  exact (Option.some.inj hmax).symm

theorem reason?_mono {limit limit' : Nat} (hle : limit ≤ limit') {e : Engine} {r : Engine × Reply}
    (h : e.reason? limit = some r) : e.reason? limit' = some r := by
  unfold Engine.reason? at h ⊢
  cases hd : e.state.runnable? with
  | none =>
    rw [hd] at h
    exact h
  | some d =>
    simp only [hd] at h ⊢
    obtain ⟨r', hr', hmap⟩ := Option.map_eq_some_iff.1 h
    rw [Run.ofDocument?_mono hle hr', Option.map_some, hmap]

/-- the set-up changes no reply -/
theorem reason?_config (limit : Nat) (e : Engine) (config : Config) :
    (({ e with config } : Engine).reason? limit).map Prod.snd = (e.reason? limit).map Prod.snd := by
  unfold Engine.reason?
  cases hd : e.state.runnable? with
  | none => rfl
  | some d =>
    simp only [Option.map_map]
    refine congrArg (Option.map · _) (funext fun r => ?_)
    cases r <;> rfl

/-- a text that is a document is put in place, and its rules are run -/
theorem Engine.replyTo?_of_ok {text : String} {d : Document} (h : Document.ofText text = .ok d) (limit : Nat) :
    Engine.replyTo? limit text = ((({} : Engine).accept d).reason? limit).map Prod.snd := by
  have hload : ({} : Engine).perform? limit (.load text) = some (({} : Engine).accept d, .done) := by
    rw [perform?_of_reading (c := .load text) rfl, reading, h, Engine.loaded?_of_none rfl]
  rw [Engine.replyTo?, hload]
  change ((({} : Engine).accept d).reason? limit).bind (fun r => some r.2) = _
  exact (Option.map_eq_bind ..).symm

/-- a text that is a document has one reply, from some number of sweeps on -/
theorem Replies.settles {text : String} {d : Document} (hd : Document.ofText text = .ok d) {reply : Reply}
    (h : Replies text reply) : Settles (fun limit => Engine.replyTo? limit text) reply := by
  obtain ⟨least, hleast⟩ := h
  rw [Engine.replyTo?_of_ok hd, Option.map_eq_some_iff] at hleast
  obtain ⟨r, hreason, rfl⟩ := hleast
  have hmore : ∀ limit, least ≤ limit → Engine.replyTo? limit text = some r.2 := by
    intro limit hle
    rw [Engine.replyTo?_of_ok hd, reason?_mono hle hreason, Option.map_some]
  exact ⟨least, hmore⟩

/-- the reply is a report or a failure -/
theorem Replies.report_or_failure {text : String} {d : Document} (hd : Document.ofText text = .ok d) {reply : Reply}
    (h : Replies text reply) : (∃ report, reply = .report report) ∨ ∃ f, reply = .failure f := by
  obtain ⟨limit, hlimit⟩ := h
  rw [Engine.replyTo?_of_ok hd, Option.map_eq_some_iff] at hlimit
  obtain ⟨⟨e, reply⟩, hreason, rfl⟩ := hlimit
  cases reason?_cases hreason with
  | refused _ => exact .inr ⟨_, rfl⟩
  | notReady _ => exact .inr ⟨_, rfl⟩
  | finished _ _ => exact .inl ⟨_, rfl⟩
  | stopped _ _ => exact .inr ⟨_, rfl⟩

/-! ## Outcomes -/

/-- the paths that words give -/
def paths (words : List String) : List String :=
  (Argument.ofWords words).filterMap Argument.path?

/-- the name of the format that words ask for: the last one -/
def formatName (words : List String) : String :=
  ((Argument.ofWords words).filterMap Argument.format?).getLast?.getD "n3"

/-- words that name too many files, or none -/
def Misused (words : List String) : Prop :=
  2 ≤ (paths words).length ∨ paths words = [] ∧ Complete words

/-- words ask for a text: it is that of the one file that they name -/
structure Reads (words : List String) (contents : String → Option (List UInt8)) (text : String) : Prop where
  complete : Complete words
  supported : Format.ofName? (formatName words) = some .n3
  found : ∃ path bytes chars, paths words = [path] ∧ contents path = some bytes ∧ Text.decodeUtf8 bytes = .ok chars ∧
    text = String.ofList chars

/-- why words come to nothing, misuse aside -/
inductive Fails (words : List String) (contents : String → Option (List UInt8)) : Prop where
  | unfinished (h : ¬ Complete words)
  | unsupported (h : Format.ofName? (formatName words) = none)
  | missing {path : String} (hpath : paths words = [path]) (h : contents path = none)
  | notText {path : String} {bytes : List UInt8} {fault : Text.Utf8Fault} (hpath : paths words = [path])
      (hbytes : contents path = some bytes) (h : Text.decodeUtf8 bytes = .error fault)
  | notDocument {text : String} {err : SyntaxError} (hreads : Reads words contents text)
      (h : Document.ofText text = .error err)
  | stopped {text : String} {d : Document} {f : Failure} (hreads : Reads words contents text)
      (hd : Document.ofText text = .ok d) (h : Replies text (.failure f))

/-- the request that words make, when they make one -/
def Request.asked (words : List String) (path : String) : Request where
  path := some path
  json := .json ∈ Argument.ofWords words
  trace := .trace ∈ Argument.ofWords words
  format := formatName words

theorem Reads.unique {words : List String} {contents : String → Option (List UInt8)} {text text' : String}
    (h : Reads words contents text) (h' : Reads words contents text') : text = text' := by
  obtain ⟨path, bytes, chars, hpath, hbytes, hchars, rfl⟩ := h.found
  obtain ⟨path', bytes', chars', hpath', hbytes', hchars', rfl⟩ := h'.found
  rw [hpath] at hpath'
  cases hpath'
  rw [hbytes] at hbytes'
  cases hbytes'
  rw [hchars] at hchars'
  cases hchars'
  rfl

/-- words are misused, or unfinished, or make a request -/
theorem Request.read_cases (words : List String) :
    Misused words ∧ Request.read words = .error .usage ∨
    (¬ Misused words ∧ ¬ Complete words) ∧ Request.read words = .error .failure ∨
    ∃ path, (Complete words ∧ paths words = [path]) ∧ Request.read words = .ok (Request.asked words path) := by
  have hread : Request.read words = ({} : Request).ofArguments (Argument.ofWords words) := Request.readFrom_eq _ _
  have hpaths : (({} : Request).path.toList ++ (Argument.ofWords words).filterMap Argument.path?) = paths words := rfl
  rw [hread, Request.ofArguments, hpaths, Misused]
  by_cases hcomplete : Complete words
  · have hfinished : .unfinished ∉ Argument.ofWords words := hcomplete
    match h : paths words with
    | [] => exact .inl ⟨.inr ⟨rfl, hcomplete⟩, by simp [hfinished]⟩
    | [path] => exact .inr (.inr ⟨path, ⟨hcomplete, rfl⟩, by simp [hfinished, Request.asked, formatName]⟩)
    | _ :: _ :: _ => exact .inl ⟨.inl (by simp), rfl⟩
  · have hunfinished : .unfinished ∈ Argument.ofWords words := not_not.1 hcomplete
    match h : paths words with
    | [] => exact .inr (.inl ⟨⟨by simp [hcomplete], hcomplete⟩, by simp [hunfinished]⟩)
    | [path] => exact .inr (.inl ⟨⟨by simp, hcomplete⟩, by simp [hunfinished]⟩)
    | _ :: _ :: _ => exact .inl ⟨.inl (by simp), rfl⟩

/-! ## Stages -/

section Stages

variable {r : Request} {bytes : List UInt8} {chars : List Char}

theorem Request.loads (hformat : Format.ofName? r.format = some .n3) (limit : Nat) (text : String) :
    (r.engine .n3).perform? limit (.loadAs text r.format) =
      (r.engine .n3).loaded? (Plugin.run? limit 0) (reading text) := by
  refine perform?_of_reading (c := .loadAs text r.format) ?_ limit _
  rw [Command.reading?, hformat]

theorem Request.answer?_of_error (hformat : Format.ofName? r.format = some .n3)
    (hchars : Text.decodeUtf8 bytes = .ok chars) {err : SyntaxError}
    (herr : Document.ofText (String.ofList chars) = .error err) (limit : Nat) :
    r.answer? limit (some bytes) = some ⟨.failure, "", (Failure.notDocument err).message⟩ := by
  rw [Request.answer?, hformat, Option.map_some, hchars]
  simp only [Request.loads hformat, reading, herr, Engine.loaded?]
  rfl

theorem Request.answer?_of_ok (hformat : Format.ofName? r.format = some .n3)
    (hchars : Text.decodeUtf8 bytes = .ok chars) {d : Document}
    (hd : Document.ofText (String.ofList chars) = .ok d) (limit : Nat) :
    r.answer? limit (some bytes) = (Engine.replyTo? limit (String.ofList chars)).map r.outcome := by
  have hengine : (r.engine .n3).accept d = { ({} : Engine).accept d with config := (r.engine .n3).config } := rfl
  rw [Engine.replyTo?_of_ok hd, ← reason?_config limit _ (r.engine .n3).config, ← hengine, Option.map_map]
  rw [Request.answer?, hformat, Option.map_some, hchars]
  simp only [Request.loads hformat, reading, hd, Engine.loaded?_of_none (e := r.engine .n3) rfl]
  change (((r.engine .n3).accept d).reason? limit).bind (fun e => some (r.outcome e.2)) = _
  exact (Option.map_eq_bind ..).symm

end Stages

/-! ## What an outcome tells -/

section Endings

variable {words : List String} {contents : String → Option (List UInt8)}

theorem Reads.not_misused {text : String} (h : Reads words contents text) : ¬ Misused words := by
  obtain ⟨path, _, _, hpath, -⟩ := h.found
  simp [Misused, hpath]

/-- words whose text makes a report do not fail -/
theorem Reads.not_fails {text : String} {d : Document} {report : Report} (hreads : Reads words contents text)
    (hd : Document.ofText text = .ok d) (h : Replies text (.report report)) : ¬ Fails words contents := by
  intro hfails
  obtain ⟨path, bytes, chars, hpath, hbytes, hchars, -⟩ := hreads.found
  cases hfails with
  | unfinished hunfinished => exact hunfinished hreads.complete
  | unsupported hformat => cases hformat.symm.trans hreads.supported
  | missing hpath' hmissing =>
    cases hpath'.symm.trans hpath
    cases hmissing.symm.trans hbytes
  | notText hpath' hbytes' hfault =>
    cases hpath'.symm.trans hpath
    cases hbytes'.symm.trans hbytes
    cases hfault.symm.trans hchars
  | notDocument hreads' herr =>
    cases hreads'.unique hreads
    cases herr.symm.trans hd
  | stopped hreads' _ hstopped =>
    cases hreads'.unique hreads
    cases (hstopped.settles hd).unique (h.settles hd)

/-- what an outcome tells of the words that it comes of, and of the file that they name -/
structure Outcome.Tells (words : List String) (contents : String → Option (List UInt8)) (o : Outcome) : Prop where
  misused : o.code.toNat = 2 ↔ Misused words
  failed : o.code.toNat = 1 ↔ ¬ Misused words ∧ Fails words contents
  succeeded : o.code.toNat = 0 ↔ ¬ Misused words ∧ ¬ Fails words contents
  silent : o.code.toNat ≠ 0 → o.output = ""
  printed : o.code.toNat = 0 → ∃ text report, Reads words contents text ∧ Replies text (.report report) ∧
    o.output =
      if .json ∈ Argument.ofWords words then report.json ++ "\n" else String.join (report.triples.map (· ++ "\n"))

/-- the outcomes that a command line may come to -/
inductive Ending (words : List String) (contents : String → Option (List UInt8)) : Outcome → Prop where
  | misused (h : Misused words) : Ending words contents ExitCode.usage.outcome
  | failed (hused : ¬ Misused words) (h : Fails words contents) (note : String) :
      Ending words contents ⟨.failure, "", note⟩
  | reported {text : String} {d : Document} {report : Report} (path : String) (hreads : Reads words contents text)
      (hd : Document.ofText text = .ok d) (h : Replies text (.report report)) :
      Ending words contents ((Request.asked words path).outcome (.report report))

theorem Ending.tells {o : Outcome} (h : Ending words contents o) : o.Tells words contents := by
  cases h with
  | misused hmisused => constructor <;> simp [ExitCode.outcome, ExitCode.toNat, hmisused]
  | failed hused hfails note => constructor <;> simp [ExitCode.toNat, hused, hfails]
  | @reported text d report path hreads hd hreport =>
    have hused := hreads.not_misused
    have hfails := hreads.not_fails hd hreport
    have hcode : ((Request.asked words path).outcome (.report report)).code.toNat = 0 := by
      cases hjson : (Request.asked words path).json <;> simp [Request.outcome, hjson, ExitCode.toNat]
    constructor
    · simp [hcode, hused]
    · simp [hcode, hfails]
    · simp [hcode, hused, hfails]
    · exact fun h => absurd hcode h
    · refine fun _ => ⟨text, report, hreads, hreport, ?_⟩
      simp only [Request.outcome, Request.asked, decide_eq_true_eq]
      split <;> rfl

/-- what fails before a rule is run fails for every number of sweeps -/
theorem ending_of_failure (hused : ¬ Misused words) (hfails : Fails words contents) {answer : Nat → Option Outcome}
    {note : String} (h : ∀ limit, answer limit = some ⟨.failure, "", note⟩) :
    ∃ o, Settles answer o ∧ Ending words contents o :=
  ⟨_, .of_always h, .failed hused hfails note⟩

/-- the rules of a document that was asked for are run -/
theorem ending_of_document {text : String} {d : Document} (hreads : Reads words contents text)
    (hd : Document.ofText text = .ok d) {reply : Reply} (hreply : Replies text reply) (path : String) :
    ∃ o, Settles (fun limit => (Engine.replyTo? limit text).map (Request.asked words path).outcome) o ∧
      Ending words contents o := by
  refine ⟨_, (hreply.settles hd).map _, ?_⟩
  rcases hreply.report_or_failure hd with ⟨report, rfl⟩ | ⟨f, rfl⟩
  · exact .reported path hreads hd hreply
  · exact .failed hreads.not_misused (.stopped hreads hd hreply) f.message

/-- a request is carried out up to the stage that fails, or to the end -/
theorem ending_of_request {path : String} (hcomplete : Complete words) (hpath : paths words = [path])
    (hends : ∀ text, Reads words contents text → ∃ reply, Replies text reply) :
    ∃ o, Settles (fun limit => (Request.asked words path).answer? limit (contents path)) o ∧
      Ending words contents o := by
  have hused : ¬ Misused words := by simp [Misused, hpath]
  have hasked : Format.ofName? (Request.asked words path).format = Format.ofName? (formatName words) := rfl
  cases hformat : Format.ofName? (formatName words) with
  | none =>
    apply ending_of_failure hused (.unsupported hformat)
    intro limit
    rw [Request.answer?, hasked, hformat]
  | some format =>
    rw [hformat] at hasked
    cases hbytes : contents path with
    | none =>
      apply ending_of_failure hused (.missing hpath hbytes)
      intro limit
      rw [Request.answer?, hasked]
      rfl
    | some bytes =>
      cases hchars : Text.decodeUtf8 bytes with
      | error fault =>
        apply ending_of_failure hused (.notText hpath hbytes hchars)
        intro limit
        rw [Request.answer?, hasked, Option.map_some, hchars]
      | ok chars =>
        have hreads : Reads words contents (String.ofList chars) :=
          ⟨hcomplete, hformat, path, bytes, chars, hpath, hbytes, hchars, rfl⟩
        cases hd : Document.ofText (String.ofList chars) with
        | error err =>
          apply ending_of_failure hused (.notDocument hreads hd)
          exact Request.answer?_of_error hasked hchars hd
        | ok d =>
          obtain ⟨reply, hreply⟩ := hends _ hreads
          simp only [Request.answer?_of_ok hasked hchars hd]
          exact ending_of_document hreads hd hreply path

/-- every command line whose run ends comes to one of these outcomes -/
theorem exists_ending (hends : ∀ text, Reads words contents text → ∃ reply, Replies text reply) :
    ∃ o, Settles (fun limit => answer? limit words contents) o ∧ Ending words contents o := by
  unfold answer?
  rcases Request.read_cases words with
    ⟨hmisused, hread⟩ | ⟨⟨hused, hunfinished⟩, hread⟩ | ⟨path, ⟨hcomplete, hpath⟩, hread⟩
  · rw [hread]
    exact ⟨_, .of_always fun _ => rfl, .misused hmisused⟩
  · rw [hread]
    exact ending_of_failure hused (.unfinished hunfinished) fun _ => rfl
  · rw [hread]
    exact ending_of_request hcomplete hpath hends

end Endings

/-- **The outcome of a command line.** If the run of the text that is asked for ends, a command line comes to an outcome,
whose code and output are those that `Outcome.Tells` says; and wherever its flags are moved, to the same. -/
theorem command_line_outcome {words : List String} {contents : String → Option (List UInt8)}
    (hends : ∀ text, Reads words contents text → ∃ reply, Replies text reply) :
    (∃ o, Settles (fun limit => answer? limit words contents) o ∧ o.Tells words contents) ∧
      ∀ words', Relation.EqvGen FlagMoved words words' →
        ∀ limit, answer? limit words' contents = answer? limit words contents := by
  refine ⟨?_, ?_⟩
  · obtain ⟨o, hcomes, hending⟩ := exists_ending hends
    exact ⟨o, hcomes, hending.tells⟩
  · intro words' hmoved limit
    exact (answer?_of_moved hmoved limit contents).symm

/-- a fact, and a rule that turns it round -/
def turnedText : String :=
  "<a> <p> <b> .\n\x7b?s <p> ?o\x7d => \x7b?o <q> ?s\x7d ."

/-- words that ask for two formats, of which only the last has a reader -/
def turnedWords : List String :=
  ["--trace", "facts.n3", "--format", "turtle", "--format", " N3 "]

/-- the one file that there is -/
def turnedFile (path : String) : Option (List UInt8) :=
  if path = "facts.n3" then some (turnedText.toList.map fun c => c.toNat.toUInt8) else none

/-- the fact and its consequence are printed, wherever the flag stands -/
theorem turned_fact_printed :
    (∀ text, Reads turnedWords turnedFile text → ∃ reply, Replies text reply) ∧
    (∃ o, Settles (fun limit => answer? limit turnedWords turnedFile) o ∧ o.Tells turnedWords turnedFile) ∧
    answer? 2 turnedWords turnedFile = some ⟨.success, "<a> <p> <b> .\n<b> <q> <a> .\n",
      "Reasoning complete: 2 triples (1 inferred) after 2 sweeps"⟩ ∧
    answer? 2 (turnedWords.tail ++ ["--trace"]) turnedFile = answer? 2 turnedWords turnedFile := by
  have hends : ∀ text, Reads turnedWords turnedFile text → ∃ reply, Replies text reply := by
    intro text hreads
    obtain ⟨path, bytes, chars, hpath, hbytes, hchars, rfl⟩ := hreads.found
    have hfacts : paths turnedWords = ["facts.n3"] := by decide
    cases hfacts.symm.trans hpath
    have hfile : turnedFile "facts.n3" = some (turnedText.toList.map fun c => c.toNat.toUInt8) := by decide
    cases hfile.symm.trans hbytes
    have htext : Text.decodeUtf8 (turnedText.toList.map fun c => c.toNat.toUInt8) = .ok turnedText.toList := by
      decide +kernel
    cases htext.symm.trans hchars
    have hreply : (Engine.replyTo? 2 (String.ofList turnedText.toList)).isSome = true := by decide +kernel
    obtain ⟨reply, hreply⟩ := Option.isSome_iff_exists.1 hreply
    exact ⟨reply, 2, hreply⟩
  obtain ⟨houtcome, hmoved⟩ := command_line_outcome hends
  refine ⟨hends, houtcome, by decide +kernel, hmoved _ (.rel _ _ ?_) 2⟩
  exact @FlagMoved.past "--trace" [] turnedWords.tail [] (.inr rfl) (by decide) (by decide)

end N3Rules
