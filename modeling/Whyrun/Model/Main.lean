import Whyrun.Model.Show

/-!
The command line of `src/main.cpp`: what `main` makes of its arguments. The
arguments are those after the name of the program. An outcome is a call of one
of the commands, or the exit status and what is written to the two streams.
-/

namespace Whyrun

open ByteText

structure ShowOptions where
  events : Bool := false
  commandId : Option ℤ := none
  deriving DecidableEq

/-- The call that `main` makes. -/
inductive Invocation
  | recordSession
  | record (command : List Bytes)
  | showCapsule (path : Bytes) (options : ShowOptions)
  | diffCapsules (before after : Bytes)
  deriving DecidableEq

inductive Outcome
  | call (invocation : Invocation)
  | exit (status : ℕ) (output errors : Bytes)
  deriving DecidableEq

def printLines (lines : List String) : Bytes := lines.flatMap fun line => lit line ++ newline

def isHelpFlag (value : Bytes) : Bool := value = lit "--help" || value = lit "-h"

def printGeneralHelp : Bytes :=
  lit "WhyRun " ++ kVersion ++ printLines
    [" - semantic Linux execution recorder",
      "",
      "Usage:",
      "  whyrun <command> [options]",
      "",
      "Commands:",
      "  record   Record a command or interactive Bash session",
      "  show     Show a capsule summary or semantic event timeline",
      "  diff     Compare two execution capsules",
      "  help     Show general or command-specific help",
      "  version  Show the WhyRun version",
      "",
      "Run 'whyrun help <command>' for command-specific help."]

/-- `print_command_help`; nothing for a command that does not exist. -/
def printCommandHelp (command : Bytes) : Option Bytes :=
  let text := fun lines =>
    some (lit "WhyRun " ++ kVersion ++ newline ++ newline ++ printLines lines)
  if command = lit "record" then
    text ["Usage:", "  whyrun record", "  whyrun record -- <command> [args...]", "",
      "Without a command, record an interactive Bash session.",
      "With --, record one command and its process tree."]
  else if command = lit "show" then
    text ["Usage:", "  whyrun show <capsule.wrun> [--events] [--command <id>]", "", "Options:",
      "  --events        Include the semantic event timeline",
      "  --command <id>  Show effects attributed to one command"]
  else if command = lit "diff" then
    text ["Usage:", "  whyrun diff <a.wrun> <b.wrun>", "",
      "Compare exit status, files, network, local IPC, and processes."]
  else if command = lit "help" then
    text ["Usage:", "  whyrun help [command]", "",
      "Show general help or detailed help for one command."]
  else if command = lit "version" then
    text ["Usage:", "  whyrun version", "", "Show the WhyRun version."]
  else none

/-- A message of a refusal. -/
def refuse (message : Bytes) : Outcome := .exit 2 [] message

def helpCommand (args : List Bytes) : Outcome :=
  match args with
  | [] => .exit 0 printGeneralHelp []
  | [command] =>
      if isHelpFlag command then .exit 0 printGeneralHelp []
      else
        match printCommandHelp command with
        | none => refuse (lit "whyrun help: unknown command: " ++ command ++ newline)
        | some text => .exit 0 text []
  | _ :: _ :: _ => refuse (printLines ["whyrun help: expected at most one command"])

/-- The arguments of `record_command`. -/
def recordArguments (args : List Bytes) : Outcome :=
  match args with
  | [] => .call .recordSession
  | separator :: command =>
      if command ≠ [] ∧ separator = lit "--" then .call (.record command)
      else
        refuse (printLines ["whyrun record: expected no arguments or -- followed by a command",
          "Try 'whyrun help record'."])

/-- The loop of `show_command` over the options, or the message with which it
stops. -/
def showOptions (options : ShowOptions) : List Bytes → Except Bytes ShowOptions
  | [] => .ok options
  | option :: args =>
      if option = lit "--events" then showOptions { options with events := true } args
      else if option = lit "--command" then
        if options.commandId.isSome then
          .error (printLines ["whyrun show: --command may only be specified once"])
        else
          match args with
          | [] => .error (printLines ["whyrun show: --command requires an id"])
          | value :: args =>
              match parseCommandId value with
              | none => .error (lit "whyrun show: invalid command id: " ++ value ++ newline)
              | some commandId => showOptions { options with commandId := some commandId } args
      else
        .error (lit "whyrun show: unknown option: " ++ option ++ newline ++
          printLines ["Try 'whyrun help show'."])

def showArguments (args : List Bytes) : Outcome :=
  match args with
  | [] => refuse (printLines ["whyrun show: expected a capsule path", "Try 'whyrun help show'."])
  | path :: args =>
      match showOptions {} args with
      | .ok options => .call (.showCapsule path options)
      | .error message => refuse message

def diffArguments (args : List Bytes) : Outcome :=
  match args with
  | [before, after] => .call (.diffCapsules before after)
  | _ =>
      refuse (printLines ["whyrun diff: expected two capsule paths", "Try 'whyrun help diff'."])

/-- `main`. -/
def mainArguments (args : List Bytes) : Outcome :=
  match args with
  | [] => refuse printGeneralHelp
  | command :: args =>
      let recorder := command = lit "record" ∨ command = lit "show" ∨ command = lit "diff"
      if command = lit "help" then helpCommand args
      else if isHelpFlag command then
        if args ≠ [] then
          refuse (printLines ["whyrun: global help does not accept arguments"])
        else .exit 0 printGeneralHelp []
      else if command = lit "version" ∨ command = lit "--version" then
        if args ≠ [] then refuse (printLines ["whyrun version: unexpected argument"])
        else .exit 0 (lit "WhyRun " ++ kVersion ++ newline) []
      else if recorder ∧ args.length = 1 ∧ (args.all isHelpFlag) then
        .exit 0 ((printCommandHelp command).getD []) []
      else if command = lit "record" then recordArguments args
      else if command = lit "show" then showArguments args
      else if command = lit "diff" then diffArguments args
      else
        refuse (lit "whyrun: unknown command: " ++ command ++ newline ++
          printLines ["Try 'whyrun help'."])

end Whyrun
