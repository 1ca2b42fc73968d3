import UpdateDispatch.CommandLine.Run
import UpdateDispatch.Proofs.Filter.Predicate
import UpdateDispatch.Proofs.Json.Grammar
import UpdateDispatch.Proofs.Settings.Loading

/-!
# The commands that take queries

`check` and `match` are called on the same queries and go different ways: `check` expands one query
after the other, `match` compiles the whole list. They agree nevertheless (`commands_agree`).
`match` refuses a list exactly if `check` shows a fault in it, with the first fault shown, and
otherwise judges the update, which may be any value that the grammar of JSON has a text for.

Only a whole number with more digits than the reader takes stands in the way. Its fault is not
reported but leaves `match` (`long_number_escapes`).
-/

namespace UpdateDispatch.CommandLine

open UpdateDispatch.Filter (joined expand matchFilter compileQueries denoted QueryFault)

/-! ## Calls -/

/-- A call of a command: arguments that the program takes apart into the command and the arguments
of its own, without a fault and without a question for help. -/
structure Call (c : Subcommand) where
  args : List String
  main : Parsed
  name : String
  more : List String
  own : Parsed
  splits : split mainOptions false args = .ok main
  plain : ∀ g ∈ main.options, g.name = "log_level"
  level : ∀ level, main.value? "log_level" = some level → level ≠ "" → levelFault? level = none
  starts : main.rest = name :: more
  named : Subcommand.named? name = some c
  splitsOwn : split c.options true more = .ok own
  noHelp : ∀ g ∈ own.options, g.name ≠ "help"

namespace Call

/-- The call of `check` on some queries. -/
def checking (queries : List String) : Call .check where
  args := "check" :: "--" :: queries
  main := { options := [], rest := "check" :: "--" :: queries }
  name := "check"
  more := "--" :: queries
  own := { options := [], rest := queries }
  splits := rfl
  plain := List.forall_mem_nil _
  level _ given := by cases given
  starts := rfl
  named := rfl
  splitsOwn := rfl
  noHelp := List.forall_mem_nil _

/-- The call of `match` on an update file and some queries. -/
def judging (path : String) (queries : List String) : Call .judge where
  args := "match" :: "--update" :: path :: "--" :: queries
  main := { options := [], rest := "match" :: "--update" :: path :: "--" :: queries }
  name := "match"
  more := "--update" :: path :: "--" :: queries
  own := { options := [{ name := "update", value := some path }], rest := queries }
  splits := rfl
  plain := List.forall_mem_nil _
  level _ given := by cases given
  starts := rfl
  named := rfl
  splitsOwn := rfl
  noHelp := by simp

end Call

theorem levelFault?_name (level : LogLevel) : levelFault? level.name = none := by
  cases level <;> rfl

variable {m : Type → Type} [Monad m] {files : Files m} {env : Settings.Environment} {entry : Entry}
  {s : Settings} {c : Subcommand}

/-- With settings that load, a call comes to its command, run on the arguments of its own. -/
theorem Call.run_eq [LawfulMonad m] (call : Call c) (hs : files.settings = pure entry)
    (hl : loadFrom env entry = .ok s) :
    run files env call.args = runCommand files env c call.own := by
  have noQuestion :
      (call.main.options.find? fun g => g.name == "version" || g.name == "help") = none := by
    rw [List.find?_eq_none]
    intro g hg
    simp [call.plain g hg]
  have noHelp : (call.own.options.any fun g => g.name == "help") = false := by
    simpa using call.noHelp
  simp only [run, call.splits, noQuestion, call.starts, call.named, runNamed, hs, pure_bind, hl,
    call.splitsOwn, noHelp]
  cases given : call.main.value? "log_level" with
  | none => simp [levelFault?_name]
  | some name =>
    by_cases empty : name = ""
    · simp [empty, levelFault?_name]
    · simp [empty, call.level name given empty]

theorem runCommand_check {own : Parsed} (files : Files m) (env : Settings.Environment)
    (some : own.rest ≠ []) :
    runCommand files env .check own = pure (check own.rest) := by
  simp [runCommand, some]

theorem runCommand_judge [LawfulMonad m] {own : Parsed} {path : String} {me : Int}
    {content : ByteArray} (env : Settings.Environment) (some : own.rest ≠ [])
    (arguments : judgeArguments own = .ok (path, me))
    (found : files.file path = pure (.file content)) :
    runCommand files env .judge own = pure (judge own.rest path content me) := by
  simp [runCommand, some, arguments, found]

/-! ## Queries -/

/-- A query that is accepted on its own. -/
def Accepted (query : String) : Prop := ∃ p, matchFilter (.str query) = .ok p

theorem accepted_iff {query : String} : Accepted query ↔ denoted query ≠ [] := by
  constructor
  · rintro ⟨p, h⟩
    rw [Filter.matchFilter_text, Filter.compileQueries_eq_ok_iff] at h
    exact h.2.1 query (List.mem_singleton_self query)
  · exact fun h => ⟨_, Filter.matchFilter_of_denoted h⟩

/-- A query with what `check` shows of it: the paths that it is expanded to, or its fault. -/
inductive Shows (query : String) : List String → Prop
  | paths {texts : List String} (h : expand [query] = .ok texts) :
      Shows query [query, joined "\n" texts]
  | fault {cause : QueryFault} (h : expand [query] = .error (.query cause)) :
      Shows query [query, "[red]" ++ cause.message ++ "[/red]"]

/-- A row shows its query, and it counts as refused exactly if the query is not accepted. -/
theorem checkRow_shows (query : String) :
    Shows query (checkRow query).1 ∧ ((checkRow query).2 = true ↔ ¬Accepted query) := by
  rw [accepted_iff, not_not]
  by_cases h : denoted query = []
  · obtain ⟨cause, refused⟩ :=
      Filter.expand_of_not_denoted ⟨query, List.mem_singleton_self query, h⟩
    have row : checkRow query = ([query, "[red]" ++ cause.message ++ "[/red]"], true) := by
      delta checkRow
      rw [refused]
      rfl
    rw [row]
    exact ⟨.fault refused, by simp [h]⟩
  · obtain ⟨texts, expanded⟩ : ∃ texts, expand [query] = .ok texts :=
      ⟨_, Filter.expand_of_denoted (List.forall_mem_singleton.mpr h)⟩
    have row : checkRow query = ([query, joined "\n" texts], false) := by
      delta checkRow
      rw [expanded]
    rw [row]
    exact ⟨.paths expanded, by simp [h]⟩

variable {queries : List String} {cause : QueryFault} {p : Filter.Predicate}

theorem forall₂_shows (queries : List String) :
    List.Forall₂ Shows queries ((queries.map checkRow).map Prod.fst) := by
  rw [List.map_map, List.forall₂_map_right_iff, List.forall₂_same]
  exact fun query _ => (checkRow_shows query).1

theorem check_of_accepted (h : ∀ q ∈ queries, Accepted q) : (check queries).ending = .exit 0 := by
  have none : (queries.map checkRow).any Prod.snd = false := by
    rw [List.any_map, List.any_eq_false]
    exact fun q hq refused => (checkRow_shows q).2.mp refused (h q hq)
  simp only [check, none]
  rfl

theorem check_of_refused (h : ∃ q ∈ queries, ¬Accepted q) : (check queries).ending = .exit 1 := by
  obtain ⟨q, hq, refused⟩ := h
  have some : (queries.map checkRow).any Prod.snd = true := by
    rw [List.any_map, List.any_eq_true]
    exact ⟨q, hq, (checkRow_shows q).2.mpr refused⟩
  simp only [check, some]
  rfl

theorem check_accepts_iff : (check queries).ending = .exit 0 ↔ ∀ q ∈ queries, Accepted q := by
  refine ⟨fun ends => ?_, check_of_accepted⟩
  by_contra some
  rw [check_of_refused (by simpa using some)] at ends
  simp at ends

theorem check_refuses_iff : (check queries).ending = .exit 1 ↔ ∃ q ∈ queries, ¬Accepted q := by
  refine ⟨fun ends => ?_, check_of_refused⟩
  by_contra none
  rw [check_of_accepted (by simpa using none)] at ends
  simp at ends

theorem compileQueries_of_accepted (hne : queries ≠ []) (h : ∀ q ∈ queries, Accepted q) :
    ∃ p, compileQueries queries = .ok p :=
  ⟨_, Filter.compileQueries_eq_ok_iff.mpr ⟨hne, fun q hq => accepted_iff.mp (h q hq), rfl⟩⟩

/-- The fault of the first query that is not accepted is that of the list. -/
theorem compileQueries_of_refused {before after : List String} {q : String}
    (h : ∀ b ∈ before, Accepted b) (refused : expand [q] = .error (.query cause)) :
    compileQueries (before ++ q :: after) = .error (.query cause) := by
  have front := Filter.mapM_paths_of_denoted fun b hb => accepted_iff.mp (h b hb)
  have own : Filter.paths (Filter.parts q) = .error (.query cause) := by
    cases found : Filter.paths (Filter.parts q) with
    | ok found' => simp [expand, found, bind, Except.bind, pure, Except.pure] at refused
    | error fault => simpa [expand, found, bind, Except.bind] using refused
  simp [compileQueries, Filter.compile, front, own, bind, Except.bind]

/-- Of a list with a query that is not accepted, there is a first one, with its fault. -/
theorem exists_first_refused (h : ∃ q ∈ queries, ¬Accepted q) :
    ∃ before q after cause, queries = before ++ q :: after ∧ (∀ b ∈ before, Accepted b) ∧
      expand [q] = .error (.query cause) := by
  induction queries with
  | nil => simp at h
  | cons q queries ih =>
    by_cases accepted : Accepted q
    · obtain ⟨before, r, after, cause, rfl, accepts, refused⟩ := ih (by simpa [accepted] using h)
      exact ⟨q :: before, r, after, cause, rfl, List.forall_mem_cons.mpr ⟨accepted, accepts⟩,
        refused⟩
    · rw [accepted_iff, not_not] at accepted
      obtain ⟨cause, refused⟩ :=
        Filter.expand_of_not_denoted ⟨q, List.mem_singleton_self q, accepted⟩
      exact ⟨[], q, queries, cause, rfl, List.forall_mem_nil _, refused⟩

/-! ## Updates -/

/-- What `match` comes to if a query is refused. -/
def refusal (cause : QueryFault) : Result :=
  { output := [.line ("[red]Invalid query:[/red] " ++ cause.message)], ending := .exit 1 }

/-- What `match` comes to if the update was judged. -/
def verdict (passes : Bool) : Result :=
  if passes then { output := [.line "[green]✓[/green] match"] }
  else { output := [.line "[yellow]✗[/yellow] no match"], ending := .exit 2 }

theorem verdict_ending (passes : Bool) :
    (verdict passes).ending = .exit (if passes then 0 else 2) := by
  cases passes <;> rfl

theorem verdict_ne_refusal (passes : Bool) (cause : QueryFault) :
    verdict passes ≠ refusal cause := by
  intro same
  have ends := congrArg Result.ending same
  cases passes <;> simp [verdict_ending, refusal] at ends

variable {path text : String} {me : Int} {update : Json} {digits : Nat}

theorem message_query (cause : QueryFault) : (Fault.query cause).message = some cause.message := rfl

theorem judge_of_refused (path : String) (content : ByteArray) (me : Int)
    (h : compileQueries queries = .error (.query cause)) :
    judge queries path content me = refusal cause := by
  simp only [judge, h, refusal, message_query, Option.getD_some]

theorem judge_of_read (path : String) (me : Int) (h : compileQueries queries = .ok p)
    (read : Json.read text = .ok update) :
    judge queries path text.toUTF8 me = verdict (p.test update (.int me)) := by
  simp only [judge, h, Settings.fromUTF8?_toUTF8, read]
  rfl

theorem judge_of_long (path : String) (me : Int) (h : compileQueries queries = .ok p)
    (read : Json.read text = .error .tooManyDigits) :
    judge queries path text.toUTF8 me = { ending := .escaped .tooManyDigits } := by
  simp only [judge, h, Settings.fromUTF8?_toUTF8, read]

/-- The ways of `match`: a query is refused, or the update is judged if its numbers are short. -/
theorem judge_cases (hne : queries ≠ []) (hv : Json.Holds text update digits) (path : String)
    (me : Int) :
    ((∃ q ∈ queries, ¬Accepted q) ∧
        ∃ cause, judge queries path text.toUTF8 me = refusal cause) ∨
      (∀ q ∈ queries, Accepted q) ∧ ∃ p, compileQueries queries = .ok p ∧
        judge queries path text.toUTF8 me =
          if digits ≤ Json.maxDigits then verdict (p.test update (.int me))
          else { ending := .escaped .tooManyDigits } := by
  by_cases accepts : ∀ q ∈ queries, Accepted q
  · obtain ⟨p, compiled⟩ := compileQueries_of_accepted hne accepts
    refine .inr ⟨accepts, p, compiled, ?_⟩
    have read := Json.read_of_holds hv
    unfold Json.within at read
    split_ifs at read ⊢
    · exact judge_of_read path me compiled read
    · exact judge_of_long path me compiled read
  · have refuses : ∃ q ∈ queries, ¬Accepted q := by simpa using accepts
    obtain ⟨before, q, after, cause, rfl, front, refused⟩ := exists_first_refused refuses
    exact .inl ⟨refuses, cause,
      judge_of_refused path _ me (compileQueries_of_refused front refused)⟩

/-! ## Both commands -/

/-- What `check` and `match` come to on the same queries, if the update file holds a value whose
longest whole number has so many digits. `check` shows the queries in order, and its exit code says
whether all of them are accepted. `match` reports the first query that is refused, and otherwise
judges the update as the predicate of the whole list does, whatever else the bot is. -/
structure Agree (queries : List String) (update : Json) (digits : Nat) (me : Int)
    (shown judged : Result) : Prop where
  rows : ∃ rows, List.Forall₂ Shows queries rows ∧
    shown.output = [.table "Filter queries" ["Query", "Expands to"] rows]
  accepts : shown.ending = .exit 0 ↔ ∀ q ∈ queries, Accepted q
  refuses : shown.ending = .exit 1 ↔ ∃ q ∈ queries, ¬Accepted q
  reports : (∃ cause, judged = refusal cause) ↔ shown.ending = .exit 1
  first : ∀ before q after cause, queries = before ++ q :: after → (∀ b ∈ before, Accepted b) →
    expand [q] = .error (.query cause) → judged = refusal cause
  judges : shown.ending = .exit 0 → digits ≤ Json.maxDigits →
    ∃ p, matchFilter (.arr (queries.map .str)) = .ok p ∧
      ∀ c : Context, c.update = update → c.me.id = .int me → judged = verdict (c.passes p)
  escapes : (∃ e, judged.ending = .escaped e) ↔ shown.ending = .exit 0 ∧ Json.maxDigits < digits

theorem agree (hne : queries ≠ []) (hv : Json.Holds text update digits) (path : String)
    (me : Int) : Agree queries update digits me (check queries)
      (judge queries path text.toUTF8 me) where
  rows := ⟨_, forall₂_shows queries, rfl⟩
  accepts := check_accepts_iff
  refuses := check_refuses_iff
  reports := by
    rw [check_refuses_iff]
    obtain ⟨refuses, cause, ends⟩ | ⟨accepts, p, -, ends⟩ := judge_cases hne hv path me
    · exact iff_of_true ⟨cause, ends⟩ refuses
    · refine iff_of_false ?_ (by simpa using accepts)
      rintro ⟨cause, refused⟩
      rw [ends] at refused
      split_ifs at refused
      · exact verdict_ne_refusal _ cause refused
      · simp [refusal] at refused
  first := by
    rintro before q after cause rfl accepts refused
    exact judge_of_refused path _ me (compileQueries_of_refused accepts refused)
  judges := by
    intro ends short
    have accepts := check_accepts_iff.mp ends
    obtain ⟨⟨q, hq, refused⟩, -⟩ | ⟨-, p, compiled, judged⟩ := judge_cases hne hv path me
    · exact absurd (accepts q hq) refused
    · refine ⟨p, by rw [Filter.matchFilter_texts, compiled], fun c update id => ?_⟩
      rw [judged, if_pos short, Context.passes, update, id]
  escapes := by
    -- neither a report nor a verdict escapes, only a number that is too long
    rw [check_accepts_iff]
    obtain ⟨⟨q, hq, refused⟩, cause, ends⟩ | ⟨accepts, p, -, ends⟩ := judge_cases hne hv path me
    · rw [ends]
      exact iff_of_false (by simp [refusal]) fun h => refused (h.1 q hq)
    · rw [ends]
      split_ifs with short
      · exact iff_of_false (by simp [verdict_ending]) (by omega)
      · exact iff_of_true ⟨_, rfl⟩ ⟨accepts, by omega⟩

/-- With settings that load, `check` and `match` called on the same queries agree, whatever value
the update file holds. -/
theorem commands_agree [LawfulMonad m] (checking : Call .check) (judging : Call .judge)
    (hne : queries ≠ []) (hc : checking.own.rest = queries) (hj : judging.own.rest = queries)
    (arguments : judgeArguments judging.own = .ok (path, me)) (hs : files.settings = pure entry)
    (hl : loadFrom env entry = .ok s) (found : files.file path = pure (.file text.toUTF8))
    (hv : Json.Holds text update digits) :
    ∃ shown judged, run files env checking.args = pure shown ∧
      run files env judging.args = pure judged ∧
      Agree queries update digits me shown judged := by
  subst hj
  -- what is left of both runs are the commands on their own arguments
  refine ⟨_, _, ?_, ?_, agree hne hv path me⟩
  · rw [checking.run_eq hs hl, runCommand_check files env (hc ▸ hne), hc]
  · rw [judging.run_eq hs hl, runCommand_judge env hne arguments found]

/-- One file with a text, and no settings. -/
def onlyFile (text : String) : Files Id where
  settings := .missing
  file path := if path = "u.json" then .file text.toUTF8 else .missing

theorem onlyFile_file (text : String) :
    (onlyFile text).file "u.json" = pure (.file text.toUTF8) := rfl

theorem holds_message : Json.Holds "\x7b\"message\":0\x7d" (.obj [("message", .int 0)]) 1 := by
  have blank : Json.Blank [] := List.forall_mem_nil _
  have zero : Json.UnsignedText false (.int 0) 1 ['0'] :=
    .whole ⟨⟨List.cons_ne_nil _ _, by simp⟩, fun _ => rfl⟩
  have name : Json.CharsText "message".toList "message".toList := .refl (by simp)
  exact ⟨[], _, [], blank, blank, .object (.field blank blank blank blank name (.number zero)), rfl⟩

/-- A file with a message, and queries for messages and for polls. -/
theorem commands_agree_on_message :
    ∃ shown judged : Result,
      run (onlyFile "\x7b\"message\":0\x7d") [] ["check", "--", "message", "poll"] = pure shown ∧
        run (onlyFile "\x7b\"message\":0\x7d") []
          ["match", "--update", "u.json", "--", "message", "poll"] = pure judged ∧
        Agree ["message", "poll"] (.obj [("message", .int 0)]) 1 0 shown judged :=
  commands_agree (.checking ["message", "poll"]) (.judging "u.json" ["message", "poll"])
    (List.cons_ne_nil _ _) rfl rfl rfl rfl rfl (onlyFile_file _) holds_message

/-- A whole number of 4301 digits. -/
def longNumber : String := String.ofList (List.replicate 4301 '1')

/-- A number that is too long is a value of JSON, and `check` accepts the query; but `match` neither
reports anything nor judges the update. -/
theorem long_number_escapes :
    (∃ v, Json.Holds longNumber v 4301) ∧
      (∃ shown, run (onlyFile longNumber) [] ["check", "--", "message"] = pure shown ∧
        shown.ending = .exit 0) ∧
      run (onlyFile longNumber) [] ["match", "--update", "u.json", "--", "message"] =
        pure { ending := .escaped .tooManyDigits } := by
  have number : Json.WholeDigits (List.replicate 4301 '1') := Json.wholeDigits_ones (by decide)
  have holds : Json.Holds longNumber _ (List.replicate 4301 '1').length :=
    Json.holds_of_digits number
  rw [List.length_replicate] at holds
  have accepts : ∀ q ∈ ["message"], Accepted q := by
    simpa [accepted_iff] using by decide
  obtain ⟨p, compiled⟩ := compileQueries_of_accepted (List.cons_ne_nil _ _) accepts
  refine ⟨⟨_, holds⟩, ⟨check ["message"], ?_, check_of_accepted accepts⟩, ?_⟩
  · exact ((Call.checking ["message"]).run_eq rfl rfl).trans
      (runCommand_check _ _ (List.cons_ne_nil _ _))
  · have long := judge_of_long "u.json" 0 compiled (Json.read_of_holds holds)
    exact ((Call.judging "u.json" ["message"]).run_eq rfl rfl).trans
      ((runCommand_judge _ (List.cons_ne_nil _ _) rfl (onlyFile_file longNumber)).trans
        (congrArg pure long))

end UpdateDispatch.CommandLine
