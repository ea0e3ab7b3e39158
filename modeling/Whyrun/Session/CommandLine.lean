import Whyrun.Model.Main

/-!
The language of the command line. What `main` accepts is spelled from requests;
`show` takes its options in any order, and a refusal is about the first
argument that does not fit. A refusal calls nothing and prints only to the
error stream.
-/

namespace Whyrun

open ByteText

/-! ### Command ids -/

/-- The text is a decimal number of the ids of commands. -/
def CommandIdText (value : Bytes) (id : ℤ) : Prop :=
  value ≠ [] ∧ (∀ b ∈ value, isDigit b = true) ∧ id = digitsValue value ∧ 0 < id ∧ id < 2 ^ 63

theorem parseCommandId_eq_some_iff {value : Bytes} {id : ℤ} :
    parseCommandId value = some id ↔ CommandIdText value id := by
  have hread : parseCommandId value = some id ↔
      fromCharsSigned (2 ^ 63) value = some (id, []) ∧ 0 < id := by
    rw [parseCommandId]
    split
    · rename_i v hv
      simp only [hv, Option.some.injEq, Prod.mk.injEq, and_true, ite_eq_iff, reduceCtorEq,
        and_false, false_or]
      constructor
      · rintro ⟨hpos, rfl⟩
        exact ⟨rfl, by omega⟩
      · rintro ⟨rfl, hpos⟩
        exact ⟨by omega, rfl⟩
    · rename_i hnone
      simp only [reduceCtorEq, false_iff, not_and]
      intro h
      exact absurd h (hnone id)
  rw [hread, fromCharsSigned_eq_some_iff]
  constructor
  · rintro ⟨⟨digits, hne, hdigits, ⟨rfl, hid, hlt⟩ | ⟨-, hid, -⟩⟩, hpos⟩
    · exact ⟨hne, hdigits, hid, hpos, by exact_mod_cast hlt⟩
    · omega
  · rintro ⟨hne, hdigits, hid, hpos, hlt⟩
    exact ⟨⟨value, hne, hdigits, .inl ⟨rfl, hid, by exact_mod_cast hlt⟩⟩, hpos⟩

/-! ### The options of `show` -/

/-- One option as it is given. -/
inductive ShowItem
  | events
  | command (value : Bytes) (id : ℤ) (reads : CommandIdText value id)

namespace ShowItem

def spell : ShowItem → List Bytes
  | events => [lit "--events"]
  | command value _ _ => [lit "--command", value]

def set (options : ShowOptions) : ShowItem → ShowOptions
  | events => { options with events := true }
  | command _ id _ => { options with commandId := some id }

def isCommand : ShowItem → Bool
  | events => false
  | command _ _ _ => true

end ShowItem

/-- The arguments that give the options. -/
def spellItems (items : List ShowItem) : List Bytes := items.flatMap ShowItem.spell

/-- The options can follow others: a command is named at most once. -/
def CanFollow (options : ShowOptions) (items : List ShowItem) : Prop :=
  items.countP ShowItem.isCommand + (if options.commandId.isSome then 1 else 0) ≤ 1

/-- What `show` refuses at the head of the remaining arguments, and how. -/
inductive ShowFault (options : ShowOptions) : List Bytes → Bytes → Prop
  | unknown {option : Bytes} (rest : List Bytes) (notEvents : option ≠ lit "--events")
      (notCommand : option ≠ lit "--command") :
      ShowFault options (option :: rest)
        (lit "whyrun show: unknown option: " ++ option ++ newline ++
          printLines ["Try 'whyrun help show'."])
  | again (rest : List Bytes) (named : options.commandId.isSome = true) :
      ShowFault options (lit "--command" :: rest)
        (printLines ["whyrun show: --command may only be specified once"])
  | missing (free : options.commandId.isSome = false) :
      ShowFault options [lit "--command"] (printLines ["whyrun show: --command requires an id"])
  | invalid {value : Bytes} (rest : List Bytes) (free : options.commandId.isSome = false)
      (unread : ∀ id, ¬ CommandIdText value id) :
      ShowFault options (lit "--command" :: value :: rest)
        (lit "whyrun show: invalid command id: " ++ value ++ newline)

theorem showOptions_cons (options : ShowOptions) (option : Bytes) (args : List Bytes) :
    showOptions options (option :: args) =
      if option = lit "--events" then showOptions { options with events := true } args
      else if option = lit "--command" then
        if options.commandId.isSome then
          .error (printLines ["whyrun show: --command may only be specified once"])
        else
          match args with
          | [] => .error (printLines ["whyrun show: --command requires an id"])
          | value :: args =>
              match parseCommandId value with
              | none => .error (lit "whyrun show: invalid command id: " ++ value ++ newline)
              | some commandId => showOptions { options with commandId := some commandId } args
      else
        .error (lit "whyrun show: unknown option: " ++ option ++ newline ++
          printLines ["Try 'whyrun help show'."]) :=
  showOptions.eq_def options (option :: args)

theorem command_ne_events : lit "--command" ≠ lit "--events" := by decide

/-- One option more. -/
theorem showOptions_spell (options : ShowOptions) (item : ShowItem) (args : List Bytes)
    (hfree : item.isCommand = true → options.commandId.isSome = false) :
    showOptions options (item.spell ++ args) = showOptions (item.set options) args := by
  cases item with
  | events => exact (showOptions_cons options (lit "--events") args).trans (if_pos rfl)
  | command value id reads =>
      show showOptions options (lit "--command" :: value :: args) = _
      rw [showOptions_cons, if_neg command_ne_events, if_pos rfl, if_neg (by simp [hfree rfl])]
      dsimp only
      rw [parseCommandId_eq_some_iff.mpr reads]
      rfl

theorem canFollow_cons {options : ShowOptions} {item : ShowItem} {items : List ShowItem} :
    CanFollow options (item :: items) ↔
      (item.isCommand = true → options.commandId.isSome = false) ∧
        CanFollow (item.set options) items := by
  rw [CanFollow, CanFollow, List.countP_cons]
  cases item with
  | events =>
      simp [ShowItem.isCommand, ShowItem.set]
      rfl
  | command value id reads =>
      cases hnamed : options.commandId.isSome with
      | true => simp [ShowItem.isCommand]
      | false => simp [ShowItem.isCommand, ShowItem.set]

theorem showOptions_spellItems (options : ShowOptions) (items : List ShowItem) (args : List Bytes)
    (hitems : CanFollow options items) :
    showOptions options (spellItems items ++ args) =
      showOptions (items.foldl ShowItem.set options) args := by
  induction items generalizing options with
  | nil => rfl
  | cons item items ih =>
      obtain ⟨hfree, hrest⟩ := canFollow_cons.mp hitems
      rw [spellItems, List.flatMap_cons, List.append_assoc, showOptions_spell options item _ hfree]
      exact ih _ hrest

theorem showOptions_fault {options : ShowOptions} {args : List Bytes} {message : Bytes}
    (h : ShowFault options args message) : showOptions options args = .error message := by
  cases h with
  | unknown rest notEvents notCommand =>
      rw [showOptions_cons, if_neg notEvents, if_neg notCommand]
  | again rest named => rw [showOptions_cons, if_neg command_ne_events, if_pos rfl, if_pos named]
  | missing free =>
      rw [showOptions_cons, if_neg command_ne_events, if_pos rfl, if_neg (by simp [free])]
  | @invalid value rest free unread =>
      have hnone : parseCommandId value = none := by
        refine Option.eq_none_iff_forall_not_mem.mpr fun id hid => ?_
        exact unread id (parseCommandId_eq_some_iff.mp hid)
      rw [showOptions_cons, if_neg command_ne_events, if_pos rfl, if_neg (by simp [free])]
      dsimp only
      rw [hnone]

/-- Arguments that begin with options and end there or go on with a fault. -/
def ReadsToFault (options : ShowOptions) (args : List Bytes) : Prop :=
  ∃ items rest, args = spellItems items ++ rest ∧ CanFollow options items ∧
    (rest = [] ∨ ∃ message, ShowFault (items.foldl ShowItem.set options) rest message)

theorem canFollow_nil (options : ShowOptions) : CanFollow options [] := by
  rw [CanFollow]
  split <;> simp

theorem ReadsToFault.of_fault {options : ShowOptions} {args : List Bytes} {message : Bytes}
    (h : ShowFault options args message) : ReadsToFault options args :=
  ⟨[], args, rfl, canFollow_nil options, .inr ⟨message, h⟩⟩

theorem ReadsToFault.spell {options : ShowOptions} (item : ShowItem) {args : List Bytes}
    (hfree : item.isCommand = true → options.commandId.isSome = false)
    (h : ReadsToFault (item.set options) args) : ReadsToFault options (item.spell ++ args) := by
  obtain ⟨items, rest, rfl, hitems, hrest⟩ := h
  refine ⟨item :: items, rest, ?_, canFollow_cons.mpr ⟨hfree, hitems⟩, hrest⟩
  rw [← List.append_assoc]
  rfl

/-- Every list of arguments is read to its end or to its first fault. -/
theorem readsToFault (options : ShowOptions) (args : List Bytes) : ReadsToFault options args := by
  induction hlength : args.length using Nat.strong_induction_on generalizing options args with
  | _ n ih =>
    cases args with
    | nil => exact ⟨[], [], rfl, canFollow_nil options, .inl rfl⟩
    | cons option args =>
        rw [List.length_cons] at hlength
        by_cases hevents : option = lit "--events"
        · subst hevents
          exact .spell .events (fun h => Bool.noConfusion h) (ih _ (by omega) _ args rfl)
        by_cases hcommand : option = lit "--command"
        · subst hcommand
          cases hnamed : options.commandId.isSome with
          | true => exact .of_fault (.again args hnamed)
          | false =>
              cases args with
              | nil => exact .of_fault (.missing hnamed)
              | cons value args =>
                  rw [List.length_cons] at hlength
                  by_cases hread : ∃ id, CommandIdText value id
                  · obtain ⟨id, hid⟩ := hread
                    exact .spell (.command value id hid) (fun _ => hnamed)
                      (ih _ (by omega) _ args rfl)
                  · exact .of_fault (.invalid args hnamed fun id hid => hread ⟨id, hid⟩)
        · exact .of_fault (.unknown args hevents hcommand)

/-- `show` accepts exactly the spellings of options. -/
theorem showOptions_ok_iff {options result : ShowOptions} {args : List Bytes} :
    showOptions options args = .ok result ↔
      ∃ items, args = spellItems items ∧ CanFollow options items ∧
        items.foldl ShowItem.set options = result := by
  constructor
  · intro h
    obtain ⟨items, rest, rfl, hitems, hrest⟩ := readsToFault options args
    rw [showOptions_spellItems options items rest hitems] at h
    rcases hrest with rfl | ⟨message, hfault⟩
    · rw [showOptions, Except.ok.injEq] at h
      exact ⟨items, List.append_nil _, hitems, h⟩
    · rw [showOptions_fault hfault] at h
      contradiction
  · rintro ⟨items, rfl, hitems, rfl⟩
    have hall := showOptions_spellItems options items [] hitems
    rwa [List.append_nil, showOptions] at hall

/-- A refusal is about the first argument that does not fit. -/
theorem showOptions_error_iff {options : ShowOptions} {args : List Bytes} {message : Bytes} :
    showOptions options args = .error message ↔
      ∃ items rest, args = spellItems items ++ rest ∧ CanFollow options items ∧
        ShowFault (items.foldl ShowItem.set options) rest message := by
  constructor
  · intro h
    obtain ⟨items, rest, rfl, hitems, hrest⟩ := readsToFault options args
    refine ⟨items, rest, rfl, hitems, ?_⟩
    rw [showOptions_spellItems options items rest hitems] at h
    rcases hrest with rfl | ⟨found, hfault⟩
    · rw [showOptions] at h
      contradiction
    · rw [showOptions_fault hfault] at h
      exact Except.error.inj h ▸ hfault
  · rintro ⟨items, rest, rfl, hitems, hfault⟩
    rw [showOptions_spellItems options items rest hitems]
    exact showOptions_fault hfault

/-! ### The whole command line -/

/-- What is given for a request. -/
inductive Invokes : List Bytes → Invocation → Prop
  | session : Invokes [lit "record"] .recordSession
  | record (command : Bytes) (args : List Bytes) :
      Invokes (lit "record" :: lit "--" :: command :: args) (.record (command :: args))
  | show (path : Bytes) (items : List ShowItem) (once : CanFollow {} items)
      (noHelp : items = [] → isHelpFlag path = false) :
      Invokes (lit "show" :: path :: spellItems items)
        (.showCapsule path (items.foldl ShowItem.set {}))
  | diff (before after : Bytes) : Invokes [lit "diff", before, after] (.diffCapsules before after)

/-- What is given to be told something, and what is told. -/
inductive Tells : List Bytes → Bytes → Prop
  | help : Tells [lit "help"] printGeneralHelp
  | flag {flag : Bytes} (isFlag : isHelpFlag flag = true) : Tells [flag] printGeneralHelp
  | helpFlag {flag : Bytes} (isFlag : isHelpFlag flag = true) :
      Tells [lit "help", flag] printGeneralHelp
  | command {command text : Bytes} (known : printCommandHelp command = some text) :
      Tells [lit "help", command] text
  | commandFlag {command flag text : Bytes} (isFlag : isHelpFlag flag = true)
      (recorder : command = lit "record" ∨ command = lit "show" ∨ command = lit "diff")
      (known : printCommandHelp command = some text) : Tells [command, flag] text
  | version {command : Bytes} (isVersion : command = lit "version" ∨ command = lit "--version") :
      Tells [command] (lit "WhyRun " ++ kVersion ++ newline)

/-- What is made of the arguments. -/
inductive Answers (args : List Bytes) : Outcome → Prop
  | called {request : Invocation} (given : Invokes args request) : Answers args (.call request)
  | told {text : Bytes} (asked : Tells args text) : Answers args (.exit 0 text [])
  | refused {message : Bytes} (spoken : message ≠ []) : Answers args (.exit 2 [] message)

theorem ShowFault.spoken {options : ShowOptions} {args : List Bytes} {message : Bytes}
    (h : ShowFault options args message) : message ≠ [] := by
  cases h with
  | unknown => exact List.append_ne_nil_of_right_ne_nil _ (by decide)
  | again => decide
  | missing => decide
  | invalid => exact List.append_ne_nil_of_right_ne_nil _ (by decide)

theorem printCommandHelp_recorder {command : Bytes}
    (h : command = lit "record" ∨ command = lit "show" ∨ command = lit "diff") :
    ∃ text, printCommandHelp command = some text := by
  rcases h with rfl | rfl | rfl <;> exact ⟨_, rfl⟩

theorem answers_helpCommand (args : List Bytes) :
    Answers (lit "help" :: args) (helpCommand args) := by
  cases args with
  | nil => exact .told .help
  | cons command rest =>
    cases rest with
    | cons => exact .refused (by decide)
    | nil =>
      rw [helpCommand.eq_def]
      dsimp only
      split
      · rename_i hflag
        exact .told (.helpFlag hflag)
      · split
        · exact .refused (List.append_ne_nil_of_right_ne_nil _ (by decide))
        · rename_i hknown
          exact .told (.command hknown)

theorem answers_recordArguments (args : List Bytes) :
    Answers (lit "record" :: args) (recordArguments args) := by
  cases args with
  | nil => exact .called .session
  | cons separator command =>
    rw [recordArguments]
    split
    · rename_i hcommand
      obtain ⟨hne, rfl⟩ := hcommand
      obtain ⟨program, rest, rfl⟩ := List.exists_cons_of_ne_nil hne
      exact .called (.record program rest)
    · exact .refused (by decide)

theorem answers_showArguments {args : List Bytes}
    (hflag : ¬ (args.length = 1 ∧ args.all isHelpFlag = true)) :
    Answers (lit "show" :: args) (showArguments args) := by
  cases args with
  | nil => exact .refused (by decide)
  | cons path rest =>
    rw [showArguments]
    split
    · rename_i hread
      obtain ⟨items, rfl, honce, rfl⟩ := showOptions_ok_iff.mp hread
      refine .called (.show path items honce fun hnone => ?_)
      subst hnone
      simpa [spellItems] using hflag
    · rename_i hread
      obtain ⟨items, fault, -, -, hfault⟩ := showOptions_error_iff.mp hread
      exact .refused hfault.spoken

theorem answers_diffArguments (args : List Bytes) :
    Answers (lit "diff" :: args) (diffArguments args) := by
  rw [diffArguments.eq_def]
  split
  · exact .called (.diff _ _)
  · exact .refused (by decide)

/-- Whatever the arguments, they spell a request, ask to be told something or
are refused with a message. -/
theorem answers_mainArguments (args : List Bytes) : Answers args (mainArguments args) := by
  cases args with
  | nil => exact .refused (by decide)
  | cons command args =>
    rw [mainArguments]
    split_ifs with hhelp hflag hmany hversion hmany hasked hrecord hshow hdiff
    · exact hhelp ▸ answers_helpCommand args
    · exact .refused (by decide)
    · obtain rfl := not_not.mp hmany
      exact .told (.flag hflag)
    · exact .refused (by decide)
    · obtain rfl := not_not.mp hmany
      exact .told (.version hversion)
    · obtain ⟨hrecorder, hone, hall⟩ := hasked
      obtain ⟨flag, rfl⟩ := List.length_eq_one_iff.mp hone
      obtain ⟨text, htext⟩ := printCommandHelp_recorder hrecorder
      rw [htext]
      exact .told (.commandFlag (by simpa using hall) hrecorder htext)
    · exact hrecord ▸ answers_recordArguments args
    · subst hshow
      exact answers_showArguments fun h => hasked ⟨.inr (.inl rfl), h⟩
    · exact hdiff ▸ answers_diffArguments args
    · exact .refused (List.append_ne_nil_of_right_ne_nil _ (by decide))

theorem mainArguments_show {path : Bytes} {rest : List Bytes}
    (hflag : rest = [] → isHelpFlag path = false) :
    mainArguments (lit "show" :: path :: rest) = showArguments (path :: rest) := by
  have hasked : ¬ ((path :: rest).length = 1 ∧ (path :: rest).all isHelpFlag = true) := by
    rintro ⟨hone, hall⟩
    obtain rfl : rest = [] := by simpa using hone
    simp [hflag rfl] at hall
  rw [mainArguments, if_neg (by decide), if_neg (by decide), if_neg (by decide),
    if_neg fun h => hasked h.2, if_neg (by decide), if_pos rfl]

/-- A request that is spelled is called. -/
theorem Invokes.call {args : List Bytes} {request : Invocation} (h : Invokes args request) :
    mainArguments args = .call request := by
  cases h with
  | session => rfl
  | record command args => rfl
  | diff before after => rfl
  | «show» path items once noHelp =>
    have hread : showOptions {} (spellItems items) = .ok (items.foldl ShowItem.set {}) :=
      showOptions_ok_iff.mpr ⟨items, rfl, once, rfl⟩
    rw [mainArguments_show, showArguments]
    · rw [hread]
    · intro hnone
      cases items with
      | nil => exact noHelp rfl
      | cons item items => cases item <;> simp [spellItems, ShowItem.spell] at hnone

theorem isHelpFlag_iff {value : Bytes} :
    isHelpFlag value = true ↔ value = lit "--help" ∨ value = lit "-h" := by
  simp [isHelpFlag]

theorem isHelpFlag_of_printCommandHelp {command text : Bytes}
    (h : printCommandHelp command = some text) : isHelpFlag command = false := by
  refine Bool.eq_false_iff.mpr fun hflag => ?_
  have hnone : printCommandHelp command = none := by
    rcases isHelpFlag_iff.mp hflag with rfl | rfl <;> rfl
  rw [hnone] at h
  contradiction

/-- What is asked for is told. -/
theorem Tells.exit {args : List Bytes} {text : Bytes} (h : Tells args text) :
    mainArguments args = .exit 0 text [] := by
  cases h with
  | help => rfl
  | flag isFlag => rcases isHelpFlag_iff.mp isFlag with rfl | rfl <;> rfl
  | helpFlag isFlag => rcases isHelpFlag_iff.mp isFlag with rfl | rfl <;> rfl
  | version isVersion => rcases isVersion with rfl | rfl <;> rfl
  | @command command _ known =>
    have hplain := isHelpFlag_of_printCommandHelp known
    show helpCommand [command] = _
    simp [helpCommand, hplain, known]
  | @commandFlag command flag _ isFlag recorder known =>
    have hasked : [flag].length = 1 ∧ [flag].all isHelpFlag = true := ⟨rfl, by simp [isFlag]⟩
    have hother : command ≠ lit "help" ∧ isHelpFlag command = false ∧
        ¬ (command = lit "version" ∨ command = lit "--version") := by
      rcases recorder with rfl | rfl | rfl <;> decide
    rw [mainArguments, if_neg hother.1, if_neg (by simp [hother.2.1]), if_neg hother.2.2,
      if_pos ⟨recorder, hasked⟩, known]
    rfl

/-- The command line is the language of `Invokes` and `Tells`. Arguments of
neither are refused with status 2, a message and no output; those of `show`
with the message about the first option that does not fit. -/
theorem command_line_language (args : List Bytes) :
    (∀ request, mainArguments args = .call request ↔ Invokes args request) ∧
      (∀ text, mainArguments args = .exit 0 text [] ↔ Tells args text) ∧
      ((∀ request, ¬ Invokes args request) → (∀ text, ¬ Tells args text) →
        ∃ message, message ≠ [] ∧ mainArguments args = .exit 2 [] message) ∧
      ∀ path options, (options = [] → isHelpFlag path = false) →
        args = lit "show" :: path :: options → ∀ message,
          mainArguments args = .exit 2 [] message ↔
            ∃ items rest, options = spellItems items ++ rest ∧ CanFollow {} items ∧
              ShowFault (items.foldl ShowItem.set {}) rest message := by
  have hanswers := answers_mainArguments args
  refine ⟨fun request => ⟨fun h => ?_, Invokes.call⟩, fun text => ⟨fun h => ?_, Tells.exit⟩,
    fun hspells htells => ?_, ?_⟩
  · rw [h] at hanswers
    cases hanswers with
    | called given => exact given
  · rw [h] at hanswers
    cases hanswers with
    | told asked => exact asked
  · generalize mainArguments args = outcome at hanswers
    cases hanswers with
    | called given => exact absurd given (hspells _)
    | told asked => exact absurd asked (htells _)
    | refused spoken => exact ⟨_, spoken, rfl⟩
  · rintro path options hflag rfl message
    rw [mainArguments_show hflag, showArguments, ← showOptions_error_iff]
    cases showOptions {} options with
    | ok options => simp
    | error found => simp [refuse]

end Whyrun
