import DeviceShell.Proofs.Failures
import DeviceShell.Proofs.Precedence
import DeviceShell.Proofs.Sessions

/-!
# The colour of the help text

There are four ways to the help text: no arguments at all, no subcommand among them, a help word in
its place, and a word that names no subcommand. Whichever it is, the text is styled throughout or
nowhere, by the choice of colour that the run leaves behind. A run with arguments makes that choice
anew from its flags, its settings and its terminal. A run without arguments makes none, so its help
follows the last call before it whose flags were in order: `help_color` says when that shows, and
`help_color_kept` is a case where it does.
-/
namespace DeviceShell.Proofs.HelpColor

open Cli Cli.Args
open Precedence (fileField)
open Sessions (Call sessionAfter)
open Terminal (paint)

/-- A help text, styled or not. -/
def IsHelp (text : String) : Prop := ∃ color, text = Help.text color

/-- An escape sequence of the terminal stands somewhere in a text. -/
def Escaped (text : String) : Prop :=
  ∃ code : String, (Terminal.sequence code).toList <:+: text.toList

/-- The four ways to the help text. -/
inductive AsksHelp (w : World) (argv : List String) : Prop
  | unasked (h : argv = [])
  | wordless {inv : Invocation} (h : Invocation.ofArgs argv = .ok inv)
      (hw : inv.words = [] ∨ ∃ args, inv.words = "" :: args)
  | helpWord {inv : Invocation} {word : String} {args : List String}
      (h : Invocation.ofArgs argv = .ok inv) (hw : inv.words = word :: args)
      (hh : isHelpWord word = true)
  | unknown {p : Plan} (h : plan w .fresh argv = .ok p) (hu : Subcommand.ofWord? p.word = none)

/-- The settings that an invocation loads, if it gets that far: its first word is there and asks for
neither help nor the version, and the settings are in order. -/
def settings? (w : World) (inv : Invocation) : Option Config :=
  inv.words.head?.bind fun word =>
    if word = "" ∨ isHelpWord word ∨ isVersionWord word then none
    else (w.load inv.configPath?).toOption

def loaded? (w : World) (argv : List String) : Option Config :=
  (Invocation.ofArgs argv).toOption.bind (settings? w)

/-- The colour that the settings of a run define, if it loads any: none at all against the
environment, else that of the file. -/
def definedColor? (w : World) (argv : List String) : Option Bool :=
  (loaded? w argv).bind fun _ =>
    if Config.isSet w.env.noColor? then some false
    else fileField w (separate argv).flagged .color Config.Shape.color?

/-- A run is to be in colour: the switch is off, and the settings say so or, where they say nothing,
the environment and the terminal. -/
def Colored (w : World) (argv : List String) : Prop :=
  "--no-color" ∉ (separate argv).flagged ∧
    (definedColor? w argv = some true ∨
      definedColor? w argv = none ∧ Config.isSet w.env.noColor? = false ∧
        w.stderrIsTerminal = true)

/-- The choice of colour that a run puts in force, which may be to leave it open. Without arguments,
or with flags that are misused, it makes none. -/
def choice? (w : World) (argv : List String) : Option (Option Bool) :=
  if argv = [] then none
  else (Invocation.ofArgs argv).toOption.map fun _ =>
    if "--no-color" ∈ (separate argv).flagged then some false else definedColor? w argv

/-- The choice of the last call that made one. -/
def lastChoice? (calls : List Call) : Option (Option Bool) :=
  (calls.filterMap fun call => choice? call.world call.argv).getLast?

/-- A text without any style. -/
def Plain (text : String) : Prop := '\x1b' ∉ text.toList

instance (text : String) : Decidable (Plain text) :=
  inferInstanceAs (Decidable ('\x1b' ∉ text.toList))

theorem Plain.append {s t : String} (hs : Plain s) (ht : Plain t) : Plain (s ++ t) := by
  rw [Plain, String.toList_append, List.mem_append, not_or]
  exact ⟨hs, ht⟩

theorem Plain.padRight {s : String} (h : Plain s) (width : Nat) :
    Plain (Text.padRight width s) := by
  refine h.append ?_
  rw [Plain, String.toList_ofList]
  intro hm
  exact absurd (List.eq_of_mem_replicate hm) (by decide)

theorem Plain.intercalate {lines : List String} (h : ∀ line ∈ lines, Plain line) :
    Plain ("\n".intercalate lines) := by
  induction lines with
  | nil => decide
  | cons line rest ih =>
    have hline := h line List.mem_cons_self
    have hrest := ih fun l hl => h l (List.mem_cons_of_mem _ hl)
    cases rest with
    | nil => rwa [String.intercalate_singleton]
    | cons next rest =>
      rw [String.intercalate_cons_cons]
      exact (hline.append (by decide)).append hrest

theorem plain_entries : ∀ e ∈ Help.entries, Plain e.name ∧ Plain e.summary ∧ Plain e.usage := by
  decide +kernel

theorem plain_flags : ∀ flag ∈ Help.flags, Plain flag.1 ∧ Plain flag.2 := by
  decide +kernel

theorem plain_keyword (k : Keyword) : Plain k.usage ∧ Plain k.summary := by
  cases k <;> decide +kernel

theorem plain_entryLines {e : Help.Entry} (h : e ∈ Help.entries) :
    ∀ line ∈ Help.entryLines false e, Plain line := by
  obtain ⟨hname, hsummary, husage⟩ := plain_entries e h
  have hblank : Plain "  " := by decide
  intro line hline
  obtain rfl | rfl : line = _ ∨ line = _ := by simpa [Help.entryLines] using hline
  · exact ((hblank.append (hname.padRight _)).append hblank).append hsummary
  · exact ((Plain.append (by decide) (by decide)).append (by decide)).append husage

theorem plain_flagLine {flag : String × String} (h : flag ∈ Help.flags) :
    Plain (Help.flagLine flag) := by
  obtain ⟨hname, hpurpose⟩ := plain_flags flag h
  exact (Plain.append (by decide) (hname.padRight _)).append hpurpose

theorem plain_grammarLine (k : Keyword) : Plain (Help.grammarLine false k) := by
  obtain ⟨husage, hsummary⟩ := plain_keyword k
  exact (Plain.append (by decide) (husage.padRight _)).append (Plain.append (by decide) hsummary)

theorem plain_help : Plain (Help.text false) := by
  refine Plain.intercalate fun line hline => ?_
  simp only [Help.lines, List.mem_append, List.mem_flatMap, List.mem_map] at hline
  -- Between the tables stand lines that are the same in every help text.
  rcases hline with ((((h | ⟨e, he, h⟩) | h) | ⟨flag, hf, rfl⟩) | h) | ⟨k, -, rfl⟩
  · revert line
    decide +kernel
  · exact plain_entryLines he line h
  · revert line
    decide +kernel
  · exact plain_flagLine hf
  · revert line
    decide +kernel
  · exact plain_grammarLine k

/-- The help text begins with the name of the program, styled or not. -/
theorem name_prefix_help (color : Bool) :
    (paint color .bold "scanshell").toList <+: (Help.text color).toList := by
  have htitle : (Help.title color).toList <+: (Help.text color).toList := by
    simp only [Help.text, Help.lines, List.append_assoc, List.cons_append,
      String.intercalate_cons_cons, String.toList_append]
    exact List.prefix_append _ _
  refine List.IsPrefix.trans ?_ htitle
  rw [Help.title, String.toList_append, String.toList_append, List.append_assoc]
  exact List.prefix_append _ _

theorem escaped_help (color : Bool) : Escaped (Help.text color) ↔ color = true := by
  cases color with
  | true =>
    refine iff_of_true ⟨"1", ?_⟩ rfl
    have hbegins : (Terminal.sequence "1").toList <+: (paint true .bold "scanshell").toList := by
      decide +kernel
    exact (hbegins.trans (name_prefix_help true)).isInfix
  | false =>
    refine iff_of_false ?_ Bool.false_ne_true
    rintro ⟨code, hcode⟩
    -- Every sequence begins with the escape character.
    refine plain_help (hcode.subset ?_)
    simp [Terminal.sequence]

/-- The first characters of a text, enough to tell a help text from every other line. -/
def opening (text : String) : List Char := text.toList.take 3

/-- How help texts open: plain, or with the sequence for bold letters. -/
def helpOpenings : List (List Char) := [['s', 'c', 'a'], ['\x1b', '[', '1']]

theorem opening_of_begins {p text : String} (h : p.toList <+: text.toList)
    (hlen : 3 ≤ p.toList.length) : opening text = opening p := by
  obtain ⟨rest, hrest⟩ := h
  rw [opening, opening, ← hrest, List.take_append_of_le_length hlen]

theorem opening_help (color : Bool) : opening (Help.text color) ∈ helpOpenings := by
  rw [opening_of_begins (name_prefix_help color) (by cases color <;> decide +kernel)]
  cases color <;> decide +kernel

theorem not_isHelp {text : String} (h : opening text ∉ helpOpenings) : ¬ IsHelp text := by
  rintro ⟨color, rfl⟩
  exact h (opening_help color)

/-- A few characters in front rule a help text out, whatever stands behind them. -/
theorem not_isHelp_of_begins {p text : String} (hlen : 3 ≤ p.toList.length)
    (h : opening p ∉ helpOpenings) (hp : Text.hasPrefix p text = true) : ¬ IsHelp text := by
  refine not_isHelp ?_
  rw [opening_of_begins (Text.hasPrefix_iff.mp hp) hlen]
  exact h

theorem not_isHelp_append {s : String} (hlen : 3 ≤ s.toList.length) (h : opening s ∉ helpOpenings)
    (t : String) : ¬ IsHelp (s ++ t) := by
  refine not_isHelp_of_begins hlen h (Text.hasPrefix_iff.mpr ?_)
  rw [String.toList_append]
  exact List.prefix_append _ _

theorem not_isHelp_debugLine {s : Session} {messages : List String} {text : String}
    (h : text ∈ debugLines s messages) : ¬ IsHelp text := by
  obtain ⟨message, -, hwritten⟩ := List.mem_flatMap.mp h
  have hline : text ∈ debugLines s [message] :=
    List.mem_flatMap.mpr ⟨message, List.mem_singleton_self _, hwritten⟩
  rw [Failures.debugLines_singleton] at hline
  split at hline
  · obtain rfl := List.mem_singleton.mp hline
    exact not_isHelp_append (by decide) (by decide) message
  · cases hline

/-- A diagnosis is told in one line behind the tag of the program, in red or in yellow. -/
theorem not_isHelp_paint (color : Bool) (d : Diagnosis) :
    ¬ IsHelp (paint color d.style d.text) := by
  cases color with
  | false =>
    show ¬ IsHelp d.text
    rw [Diagnosis.text, String.append_assoc, String.append_assoc]
    exact not_isHelp_append (by decide) (by decide) _
  | true =>
    show ¬ IsHelp (Terminal.sequence d.style.opening ++ d.text ++ _)
    rw [String.append_assoc, Diagnosis.style]
    cases d.kind <;> exact not_isHelp_append (by decide +kernel) (by decide +kernel) _

/-- A stack begins with the name of its error or with what every error is called. -/
theorem not_isHelp_stack {w : World} {e : ParseError} {stack : String}
    (h : w.engine.stack (.parse e) = some stack) (hne : stack ≠ "") : ¬ IsHelp stack := by
  rcases w.engine.named rfl h hne with hname | hname
  · exact not_isHelp_of_begins (by decide) (by decide) hname
  · exact not_isHelp_of_begins (by decide) (by decide) hname

theorem not_isHelp_debugStrings {w : World} {s : Session} {e : ParseError} {text : String}
    (h : text ∈ Failures.debugStrings w s (.parse e)) : ¬ IsHelp text := by
  rw [Failures.debugStrings] at h
  cases hstack : w.engine.stack (.parse e) with
  | none => rw [hstack] at h; cases h
  | some stack =>
    rw [hstack] at h
    dsimp only at h
    split at h
    · next hcond =>
      obtain rfl | rfl : text = _ ∨ text = _ := by simpa using h
      · refine not_isHelp ?_
        cases w.hasColor s.color? <;> decide +kernel
      · exact not_isHelp_stack hstack hcond.2
    · cases h

theorem not_isHelp_reportLines {w : World} {s : Session} {o : Batch.Outcome} {text : String}
    (h : text ∈ Parse.reportLines (w.appearance s.color?) o) : ¬ IsHelp text := by
  rw [Parse.reportLines] at h
  cases hres : o.result with
  | ok c => rw [hres] at h; cases h
  | error e =>
    rw [hres] at h
    rcases List.mem_cons.mp h with rfl | htrace
    · exact not_isHelp_paint _ _
    · rw [Failures.traceLines_fault rfl] at htrace
      exact not_isHelp_debugStrings htrace

/-- Parsing writes messages of the log and reports of rejected lines. -/
theorem not_isHelp_of_parsed {w : World} {s : Session} {format : OutputFormat}
    {args : List String} {o : Outcome} {text : String} (hp : Plans.Parsed w s format args o)
    (h : text ∈ o.stderr) : ¬ IsHelp text := by
  cases hp with
  | unread _ _ => cases h
  | refused _ => cases h
  | @answered input r hr =>
    rw [Parse.run] at hr
    cases hrequest : Parse.request format input args with
    | error e => rw [hrequest] at hr; cases hr
    | ok request =>
      rw [hrequest] at hr
      obtain rfl := Except.ok.inj hr
      change text ∈ debugLines s _ ++
        (Parse.respond (w.appearance s.color?) request).stderr at h
      rcases List.mem_append.mp h with hlog | hreport
      · exact not_isHelp_debugLine hlog
      · obtain ⟨format, lines⟩ := request
        cases format with
        | json => cases hreport
        | text =>
          obtain ⟨o, -, ho⟩ := List.mem_flatMap.mp hreport
          exact not_isHelp_reportLines ho

/-- A subcommand shows a help text only where its word is unknown. -/
theorem help_of_dispatch {w : World} {s : Session} {format : OutputFormat} {word : String}
    {args : List String} {text : String} (hhelp : IsHelp text)
    (h : text ∈ (dispatch w s format word args).stderr) :
    Subcommand.ofWord? word = none ∧ text = Help.text (w.hasColor s.color?) := by
  rw [dispatch] at h
  cases hw : Subcommand.ofWord? word with
  | none =>
    rw [hw] at h
    obtain rfl | rfl | rfl : text = "Unknown command '" ++ word ++ "'." ∨ text = "" ∨ text = _ := by
      simpa [help, Outcome.answered] using h
    · rw [String.append_assoc] at hhelp
      exact absurd hhelp (not_isHelp_append (by decide) (by decide) _)
    · exact absurd hhelp (not_isHelp (by decide))
    · exact ⟨rfl, rfl⟩
  | some sub =>
    rw [hw] at h
    cases sub with
    | parse => exact absurd hhelp (not_isHelp_of_parsed (Plans.parsed_runParse w s format args) h)
    | complete =>
      simp only [runComplete] at h
      cases hc : Catalogue.complete format args <;> rw [hc] at h <;> cases h
    | keywords =>
      simp only [runKeywords] at h
      cases hk : (Catalogue.keywords format args).result <;> rw [hk] at h <;> cases h

/-- The flags of an invocation are those before `--`. -/
theorem exists_front_of_ofArgs {argv : List String} {inv : Invocation}
    (h : Invocation.ofArgs argv = .ok inv) :
    ∃ front, Precedence.FlagsOf (separate argv).flagged front ∧
      inv = { front with positional := (separate argv).positional } := by
  rw [Plans.ofArgs_eq] at h
  cases hf : Invocation.ofArgs (separate argv).flagged with
  | error e => rw [hf] at h; cases h
  | ok front =>
    rw [hf] at h
    exact ⟨front, Precedence.flagsOf_of_ofArgs (Passes.separator_not_mem_flagged argv) hf,
      (Except.ok.inj h).symm⟩

theorem flagColor_eq {argv : List String} {inv : Invocation}
    (h : Invocation.ofArgs argv = .ok inv) :
    flagColor inv = if "--no-color" ∈ (separate argv).flagged then some false else none := by
  obtain ⟨front, hf, rfl⟩ := exists_front_of_ofArgs h
  simp only [flagColor, hf.color]

/-- The colour of the settings that are loaded is the one that the environment and the file define. -/
theorem color?_of_settings {w : World} {argv : List String} {inv : Invocation} {c : Config}
    (h : Invocation.ofArgs argv = .ok inv) (hc : settings? w inv = some c) :
    c.color? = if Config.isSet w.env.noColor? then some false
      else fileField w (separate argv).flagged .color Config.Shape.color? := by
  have hload : w.load inv.configPath? = .ok c := by
    obtain ⟨word, -, hword⟩ := Option.bind_eq_some_iff.mp hc
    split at hword
    · cases hword
    · cases hl : w.load inv.configPath? with
      | error e => rw [hl] at hword; cases hword
      | ok loaded =>
        rw [hl] at hword
        rw [Option.some.inj hword]
  obtain ⟨front, hf, rfl⟩ := exists_front_of_ofArgs h
  obtain ⟨base, hfile, henv⟩ := Precedence.exists_base_of_load hf hload
  rw [henv.color, hfile.color]
  rfl

theorem choice?_of_ofArgs {w : World} {argv : List String} {inv : Invocation} (hne : argv ≠ [])
    (h : Invocation.ofArgs argv = .ok inv) :
    choice? w argv = some ((flagColor inv).or ((settings? w inv).bind Config.color?)) := by
  have hdefined : definedColor? w argv = (settings? w inv).bind Config.color? := by
    rw [definedColor?, loaded?, h]
    cases hc : settings? w inv with
    | none => simp [Except.toOption, hc]
    | some c => simp [Except.toOption, hc, color?_of_settings h hc]
  rw [choice?, if_neg hne, h, flagColor_eq h, ← hdefined]
  show some _ = some _
  split <;> rfl

/-- The session behind a plan, or behind a run that ends without one. -/
def sessionOf : Except Outcome Plan → Session
  | .error o => o.session
  | .ok p => p.session

theorem session_run (w : World) (s : Session) (argv : List String) :
    (run w s argv).session = sessionOf (plan w s argv) := by
  rw [run]
  cases plan w s argv with
  | error o => rfl
  | ok p =>
    exact (Failures.failsFirst_of_dispatched
      (Failures.dispatched w p.session p.format p.word _)).2

/-- The flags choose first, and then the settings, if they are loaded. -/
theorem color?_planInvocation (w : World) (s : Session) (inv : Invocation) :
    (sessionOf (planInvocation w { s with color? := flagColor inv } inv)).color? =
      (flagColor inv).or ((settings? w inv).bind Config.color?) := by
  rw [planInvocation, settings?]
  cases inv.words with
  | nil => exact (Option.or_none).symm
  | cons word args =>
    simp only [List.head?_cons, Option.bind_some]
    by_cases hempty : word = ""
    · rw [if_pos hempty, if_pos (.inl hempty)]
      exact (Option.or_none).symm
    by_cases hhelp : isHelpWord word = true
    · rw [if_neg hempty, if_pos hhelp, if_pos (.inr (.inl hhelp))]
      exact (Option.or_none).symm
    by_cases hversion : isVersionWord word = true
    · rw [if_neg hempty, if_neg hhelp, if_pos hversion, if_pos (.inr (.inr hversion))]
      exact (Option.or_none).symm
    rw [if_neg hempty, if_neg hhelp, if_neg hversion, if_neg (by simp [hempty, hhelp, hversion])]
    cases w.load inv.configPath? with
    | error e => exact (Option.or_none).symm
    | ok c =>
      -- Whether or not the level is in order, the colour is in force before it is looked at.
      simp only [planUnder]
      cases LogLevel.choose inv.level? c.level <;> rfl

/-- A run leaves the choice that it makes or, if it makes none, the one that it found. -/
theorem color?_run (w : World) (s : Session) (argv : List String) :
    (run w s argv).session.color? = (choice? w argv).getD s.color? := by
  rw [session_run]
  by_cases hne : argv = []
  · subst hne
    rfl
  rw [plan, List.isEmpty_eq_false_iff.mpr hne, if_neg Bool.false_ne_true]
  cases h : Invocation.ofArgs argv with
  | error e =>
    rw [choice?, if_neg hne, h]
    rfl
  | ok inv =>
    rw [choice?_of_ofArgs hne h, Option.getD_some]
    exact color?_planInvocation w s inv

/-- After any calls the last choice among them is in force. -/
theorem color?_sessionAfter (s : Session) (calls : List Call) :
    (sessionAfter s calls).color? = (lastChoice? calls).getD s.color? := by
  -- The session is kept general, for each call hands its own to the calls behind it.
  induction calls generalizing s with
  | nil => rfl
  | cons call calls ih =>
    have hstep : sessionAfter s (call :: calls) =
        sessionAfter (run call.world s call.argv).session calls := rfl
    rw [hstep, ih, color?_run, lastChoice?, lastChoice?, List.filterMap_cons]
    cases choice? call.world call.argv with
    | none => rfl
    | some choice => rw [List.getLast?_cons, Option.getD_some, Option.getD_some]

/-- What a run that ends without a subcommand shows of a help text. -/
theorem help_of_ended {w : World} {s : Session} {argv : List String} {o : Outcome} {text : String}
    (h : Plans.Ended w s argv o) (ht : text ∈ o.stderr) :
    AsksHelp w argv ∧ text = Help.text (w.hasColor o.session.color?) := by
  cases h with
  | unasked h => exact ⟨.unasked h, List.mem_singleton.mp ht⟩
  | wordless h hw => exact ⟨.wordless h hw, List.mem_singleton.mp ht⟩
  | help h hw hh => exact ⟨.helpWord h hw hh, List.mem_singleton.mp ht⟩
  | _ => cases ht

/-- A help text is shown only where it is asked for, in the colour that the run leaves. -/
theorem help_of_run {w : World} {s : Session} {argv : List String} {text : String}
    (hhelp : IsHelp text) (h : text ∈ (run w s argv).stderr) :
    AsksHelp w argv ∧ text = Help.text (w.hasColor (run w s argv).session.color?) := by
  rw [session_run]
  rw [run] at h
  cases hp : plan w s argv with
  | error o =>
    rw [hp] at h
    exact help_of_ended (Plans.ended_of_plan hp) h
  | ok p =>
    have hne : argv ≠ [] := by
      rintro rfl
      cases hp
    rw [hp] at h
    change text ∈ debugLines p.session _ ++ (dispatch w p.session p.format p.word _).stderr at h
    rcases List.mem_append.mp h with hlog | hanswer
    · exact absurd hhelp (not_isHelp_debugLine hlog)
    · obtain ⟨hword, htext⟩ := help_of_dispatch hhelp hanswer
      exact ⟨.unknown (Sessions.plan_eq_ok hp .fresh hne) hword, htext⟩

/-- An invocation that is answered with the help text from every session. -/
theorem help_mem_of_planInvocation {w : World} (s : Session) {argv : List String}
    {inv : Invocation} {exitCode : Nat} (h : Invocation.ofArgs argv = .ok inv)
    (hp : ∀ s, planInvocation w s inv = .error (help w s none exitCode)) :
    Help.text (w.hasColor (run w s argv).session.color?) ∈ (run w s argv).stderr := by
  by_cases hne : argv = []
  · subst hne
    exact List.mem_singleton_self _
  have hrun : run w s argv = help w { s with color? := flagColor inv } none exitCode := by
    rw [run, plan, List.isEmpty_eq_false_iff.mpr hne, if_neg Bool.false_ne_true, h]
    simp only [hp]
  rw [hrun]
  exact List.mem_singleton_self _

/-- Wherever it is asked for, a help text is shown. -/
theorem help_mem_of_asksHelp {w : World} (s : Session) {argv : List String}
    (h : AsksHelp w argv) :
    Help.text (w.hasColor (run w s argv).session.color?) ∈ (run w s argv).stderr := by
  cases h with
  | unasked h =>
    subst h
    exact List.mem_singleton_self _
  | @wordless inv h hw =>
    have hplan : ∀ s, planInvocation w s inv = .error (help w s none 1) := by
      intro s
      obtain hw | ⟨args, hw⟩ := hw <;> rw [planInvocation, hw]
      rfl
    exact help_mem_of_planInvocation s h hplan
  | @helpWord inv word args h hw hh =>
    have hempty : word ≠ "" := by
      rintro rfl
      cases hh
    have hplan : ∀ s, planInvocation w s inv = .error (help w s none 0) := by
      intro s
      rw [planInvocation, hw]
      exact (if_neg hempty).trans (if_pos hh)
    exact help_mem_of_planInvocation s h hplan
  | @unknown p h hu =>
    have hne : argv ≠ [] := by
      rintro rfl
      cases h
    have hplan := Sessions.plan_eq_ok h s hne
    rw [session_run, hplan, Separator.run_eq_carryOut hplan]
    show _ ∈ debugLines p.session _ ++ (dispatch w p.session p.format p.word _).stderr
    rw [dispatch, hu]
    exact List.mem_append_right _
      (List.mem_cons_of_mem _ (List.mem_cons_of_mem _ (List.mem_singleton_self _)))

/-- Flags that are misused lead to no help text. -/
theorem exists_invocation_of_asksHelp {w : World} {argv : List String} (h : AsksHelp w argv) :
    ∃ inv, Invocation.ofArgs argv = .ok inv := by
  cases h with
  | unasked h =>
    subst h
    exact ⟨_, rfl⟩
  | wordless h _ => exact ⟨_, h⟩
  | helpWord h _ _ => exact ⟨_, h⟩
  | unknown h _ =>
    obtain ⟨inv, _, hs⟩ := Plans.exists_source h
    exact ⟨inv, hs.flags⟩

theorem colored_iff (w : World) (argv : List String) :
    Colored w argv ↔
      w.hasColor (if "--no-color" ∈ (separate argv).flagged then some false
        else definedColor? w argv) = true := by
  rw [Colored, World.hasColor, Terminal.hasColor]
  by_cases hswitch : "--no-color" ∈ (separate argv).flagged
  · simp [hswitch]
  · rw [if_neg hswitch]
    cases definedColor? w argv with
    | none => simp [hswitch]
    | some color => simp [hswitch]

/-- With arguments a run that is asked for help leaves the choice that its own sources make. -/
theorem colored_iff_session {w : World} (s : Session) {argv : List String} (hne : argv ≠ [])
    (h : AsksHelp w argv) :
    Colored w argv ↔ w.hasColor (run w s argv).session.color? = true := by
  obtain ⟨inv, hinv⟩ := exists_invocation_of_asksHelp h
  have hchoice : choice? w argv = some (if "--no-color" ∈ (separate argv).flagged then some false
      else definedColor? w argv) := by
    rw [choice?, if_neg hne, hinv]
    rfl
  rw [colored_iff, color?_run, hchoice, Option.getD_some]

/-- After any calls, a help text is shown exactly if it is asked for. It is in the colour that the
run itself is to be in, if there are arguments or if the last choice of the calls before happens to
come out as none would have; without arguments it is that choice that decides. -/
theorem help_color (before : List Call) (w : World) (argv : List String) :
    ((∃ text ∈ (run w (sessionAfter .fresh before) argv).stderr, IsHelp text) ↔
      AsksHelp w argv) ∧
    ∀ text ∈ (run w (sessionAfter .fresh before) argv).stderr, IsHelp text →
      ((Escaped text ↔ Colored w argv) ↔
        argv ≠ [] ∨ w.hasColor ((lastChoice? before).getD none) = w.hasColor none) ∧
      (argv = [] → (Escaped text ↔ w.hasColor ((lastChoice? before).getD none) = true)) := by
  constructor
  · constructor
    · rintro ⟨text, ht, hhelp⟩
      exact (help_of_run hhelp ht).1
    · intro h
      exact ⟨_, help_mem_of_asksHelp _ h, _, rfl⟩
  intro text ht hhelp
  obtain ⟨hasks, rfl⟩ := help_of_run hhelp ht
  rw [escaped_help]
  by_cases hne : argv = []
  · subst hne
    have hkept : (run w (sessionAfter .fresh before) []).session.color? =
        (lastChoice? before).getD none := color?_sessionAfter .fresh before
    have halone : Colored w [] ↔ w.hasColor none = true := colored_iff w []
    rw [hkept, halone, ← Bool.eq_iff_iff]
    exact ⟨by simp, fun _ => Iff.rfl⟩
  · have hown := (colored_iff_session (sessionAfter .fresh before) hne hasks).symm
    exact ⟨iff_of_true hown (.inl hne), fun h => absurd h hne⟩

/-- A terminal, and nothing else. -/
def atTerminal : World := { World.empty with stderrIsTerminal := true }

/-- The calls before have declined colour. A word that is unknown is answered in colour all the same,
the switch behind `--` being none, but help without arguments still goes without. -/
theorem help_color_noisy :
    (Help.text true ∈
        (run atTerminal (sessionAfter .fresh Sessions.noisyCalls) ["scan", "--", "--no-color"]).stderr ∧
      IsHelp (Help.text true) ∧ (Escaped (Help.text true) ↔
        Colored atTerminal ["scan", "--", "--no-color"])) ∧
    (Help.text false ∈ (run atTerminal (sessionAfter .fresh Sessions.noisyCalls) []).stderr ∧
      IsHelp (Help.text false) ∧ ¬ (Escaped (Help.text false) ↔ Colored atTerminal [])) := by
  have hlast : (lastChoice? Sessions.noisyCalls).getD none = some false := by decide +kernel
  have hasks : AsksHelp atTerminal ["scan", "--", "--no-color"] :=
    .unknown (rfl : plan atTerminal .fresh ["scan", "--", "--no-color"] = .ok _) rfl
  have hown := help_mem_of_asksHelp (sessionAfter .fresh Sessions.noisyCalls) hasks
  have hcolor : atTerminal.hasColor (run atTerminal (sessionAfter .fresh Sessions.noisyCalls)
      ["scan", "--", "--no-color"]).session.color? = true := by decide +kernel
  rw [hcolor] at hown
  have hkept := help_mem_of_asksHelp (w := atTerminal)
    (sessionAfter .fresh Sessions.noisyCalls) (.unasked rfl)
  have hplain : atTerminal.hasColor
      (run atTerminal (sessionAfter .fresh Sessions.noisyCalls) []).session.color? = false := by
    decide +kernel
  rw [hplain] at hkept
  refine ⟨⟨hown, ⟨true, rfl⟩, ?_⟩, hkept, ⟨false, rfl⟩, ?_⟩
  · exact ((help_color Sessions.noisyCalls atTerminal _).2 _ hown ⟨true, rfl⟩).1.mpr
      (.inl (List.cons_ne_nil _ _))
  · intro h
    have hsame := ((help_color Sessions.noisyCalls atTerminal []).2 _ hkept ⟨false, rfl⟩).1.mp h
    rw [hlast] at hsame
    revert hsame
    decide

/-- A call under a settings file that turns colour on. -/
def coloring : Call where
  world := { World.empty with
    disk := ⟨.ok "/w", fun path =>
      if path = "/w/scanshell.json" then .content "\x7b\"color\": true\x7d" else .missing⟩ }
  argv := ["complete", "q"]

/-- A terminal at which the environment declines colour. -/
def declining : World := { atTerminal with env := ⟨none, none, some "1", none⟩ }

/-- Help without arguments keeps the colour of the call before, though the environment now declines
it. -/
theorem help_color_kept :
    ¬ ∀ (before : List Call) (w : World) (argv : List String),
      ∀ text ∈ (run w (sessionAfter .fresh before) argv).stderr, IsHelp text →
        (Escaped text ↔ Colored w argv) := by
  intro h
  have hsession : sessionAfter .fresh [coloring] = ⟨.warn, some true⟩ := by decide +kernel
  have hshown : Help.text true ∈ (run declining (sessionAfter .fresh [coloring]) []).stderr := by
    rw [hsession]
    exact List.mem_singleton_self _
  have hcolored : ¬ Colored declining [] := by
    rw [colored_iff]
    decide +kernel
  have hescaped : Escaped (Help.text true) := (escaped_help true).mpr rfl
  exact hcolored ((h [coloring] declining [] _ hshown ⟨true, rfl⟩).mp hescaped)

end DeviceShell.Proofs.HelpColor
