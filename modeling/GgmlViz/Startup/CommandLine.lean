import GgmlViz.Foundation.Getopt
import GgmlViz.Config.Environment
import Mathlib.Data.List.Induction
import Mathlib.Data.List.TakeWhile

/-! # The arguments of the viewer

`parse_arguments`, once with `getopt_long` and once as it is written for Windows. Each option
sets one field of the configuration, so that a line means the options and the operands in it,
however they are spelled and wherever they stand.
-/
namespace GgmlViz
open LittleEndian Getopt

/-- The `Config` of `main.cpp`. -/
structure MainConfig where
  traceFile : Bytes := []
  configFile : Bytes := []
  liveMode : Bool := false
  webMode : Bool := false
  verbose : Bool := false
  showHelp : Bool := false
  showVersion : Bool := false
  noHook : Bool := false
  port : ℤ := 8080
  deriving DecidableEq

/-- What `getopt_long` returns for an option. -/
inductive CliOption
  | help
  | version
  | verbose
  | live
  | web
  | port
  | config
  | noHook
  deriving DecidableEq

def longOptions : List (LongOption CliOption) :=
  [⟨ascii "help",false,.help⟩,⟨ascii "version",false,.version⟩,⟨ascii "verbose",false,.verbose⟩,
    ⟨ascii "live",false,.live⟩,⟨ascii "web",false,.web⟩,⟨ascii "port",true,.port⟩,
    ⟨ascii "config",true,.config⟩,⟨ascii "no-hook",false,.noHook⟩]

/-- The option string `"hVvlwp:c:"`. -/
def shortOptions : List (UInt8 × Bool × CliOption) :=
  [(104,false,.help),(86,false,.version),(118,false,.verbose),(108,false,.live),(119,false,.web),
    (112,true,.port),(99,true,.config)]

def viewerOptions : Spec CliOption where
  short c := shortOptions.lookup c
  long := longOptions

/-- The integer that a text begins with. -/
def leadingInt (text : Bytes) : Option ℤ :=
  let number (negative : Bool) (rest : Bytes) :=
    let digits := rest.takeWhile isDigit
    if digits = [] then none
    else some (if negative then -(digitsValue digits : ℤ) else digitsValue digits)
  match text.dropWhile isSpace with
  | 45 :: rest => number true rest
  | 43 :: rest => number false rest
  | rest => number false rest

/-- `std::stoi`, `none` where it throws. -/
def stoi (text : Bytes) : Option ℤ :=
  (leadingInt text).filter (fun n => -2 ^ 31 ≤ n && n < 2 ^ 31)

/-- `std::atoi`, which returns the nearest `int`, or 0 without a number. -/
def atoi (text : Bytes) : ℤ := max (-2 ^ 31) (min ((leadingInt text).getD 0) (2 ^ 31 - 1))

/-- Why `parse_arguments` ends the process, with exit code 1. -/
inductive ArgumentError
  | unknownOption
  | invalidPort (optarg : Bytes)
  | tooManyArguments
  deriving DecidableEq

/-- What is printed about an error; `getopt_long` has printed its own complaint. -/
def ArgumentError.messages : ArgumentError → List Bytes
  | .unknownOption => []
  | .invalidPort optarg =>
    [ascii "Invalid port number: " ++ optarg,ascii "Port must be between 1 and 65535"]
  | .tooManyArguments =>
    [ascii "Error: Too many arguments. Only one trace file can be specified.",
      ascii "Use --help for usage information."]

namespace MainConfig

/-- The `switch` of `parse_arguments`, where no error is found. -/
def set (config : MainConfig) (option : CliOption) (optarg : Bytes) : MainConfig :=
  match option with
  | .help => { config with showHelp := true }
  | .version => { config with showVersion := true }
  | .verbose => { config with verbose := true }
  | .live => { config with liveMode := true }
  | .web => { config with webMode := true }
  | .port => { config with port := (stoi optarg).getD config.port }
  | .config => { config with configFile := optarg }
  | .noHook => { config with noHook := true }

/-- `std::stoi` reads a port from the argument, whatever follows its digits. -/
def validPort (optarg : Bytes) : Bool :=
  match stoi optarg with
  | some n => !(n < 1 || n > 65535)
  | none => false

/-- The body of the loop over the options. -/
def handle (config : MainConfig) : Item CliOption → Except ArgumentError MainConfig
  | .unknown => .error .unknownOption
  | .opt option optarg =>
    if option = .port && !validPort (optarg.getD []) then
      .error (.invalidPort (optarg.getD []))
    else .ok (config.set option (optarg.getD []))

end MainConfig

/-- `parse_arguments`, without the name of the program. -/
def parseArguments (posixlyCorrect : Bool) (argv : List Bytes) :
    Except ArgumentError MainConfig :=
  let r := viewerOptions.scan posixlyCorrect none argv
  match r.1.foldlM MainConfig.handle {} with
  | .error e => .error e
  | .ok config =>
    match r.2 with
    | [] => .ok config
    | [traceFile] => .ok { config with traceFile }
    | _ :: _ :: _ => .error .tooManyArguments

/-- `parse_windows_args`. -/
def parseWindowsArgs (config : MainConfig) : List Bytes → MainConfig
  | [] => config
  | arg :: argv =>
    if arg = ascii "-h" ∨ arg = ascii "--help" then
      parseWindowsArgs { config with showHelp := true } argv
    else if arg = ascii "-V" ∨ arg = ascii "--version" then
      parseWindowsArgs { config with showVersion := true } argv
    else if arg = ascii "-v" ∨ arg = ascii "--verbose" then
      parseWindowsArgs { config with verbose := true } argv
    else if arg = ascii "-l" ∨ arg = ascii "--live" then
      parseWindowsArgs { config with liveMode := true } argv
    else if arg = ascii "-w" ∨ arg = ascii "--web" then
      parseWindowsArgs { config with webMode := true } argv
    else if arg = ascii "-p" ∨ arg = ascii "--port" then
      match argv with
      | [] => config
      | optarg :: argv => parseWindowsArgs { config with port := atoi optarg } argv
    else if arg = ascii "-c" ∨ arg = ascii "--config" then
      match argv with
      | [] => config
      | optarg :: argv => parseWindowsArgs { config with configFile := optarg } argv
    else if arg = ascii "--no-hook" then parseWindowsArgs { config with noHook := true } argv
    else if arg.head? ≠ some 45 then parseWindowsArgs { config with traceFile := arg } argv
    else parseWindowsArgs config argv

section Meaning
variable (os : List (CliOption × Option Word))

/-- The argument with which an option stands last. -/
def lastArgument (option : CliOption) : Option Bytes :=
  (os.filter (fun o => o.1 = option)).getLast?.map (fun o => o.2.getD [])

/-- An option stands somewhere. -/
def given (option : CliOption) : Bool := os.any (fun o => o.1 = option)

/-- What options and operands mean, whatever their order. -/
def MainConfig.ofOptions (ps : List Word) : MainConfig where
  traceFile := ps.headD []
  configFile := (lastArgument os .config).getD []
  liveMode := given os .live
  webMode := given os .web
  verbose := given os .verbose
  showHelp := given os .help
  showVersion := given os .version
  noHook := given os .noHook
  port := ((lastArgument os .port).bind stoi).getD 8080

/-- The options of a line, set one after the other. -/
def MainConfig.setAll (config : MainConfig) : MainConfig :=
  os.foldl (fun c o => MainConfig.set c o.1 (o.2.getD [])) config

/-- A port can be read from the argument of every `--port`. -/
def PortsValid : Prop := ∀ o ∈ os, o.1 = .port → MainConfig.validPort (o.2.getD []) = true

/-- Blanks, perhaps a plus sign, the digits of a number from 1 to 65535, and anything that does
not go on with a digit. -/
inductive BeginsWithPort : Bytes → Prop
  | intro {blanks digits rest : Bytes} (sign : Bytes)
    (hblanks : ∀ c ∈ blanks, isSpace c = true) (hsign : sign = [] ∨ sign = [43])
    (hdigits : ∀ c ∈ digits, isDigit c = true) (hrest : ∀ c ∈ rest.head?, isDigit c = false)
    (hlow : 1 ≤ digitsValue digits) (hhigh : digitsValue digits ≤ 65535) :
    BeginsWithPort (blanks ++ (sign ++ (digits ++ rest)))

end Meaning

section Parsing
variable {os : List (CliOption × Option Word)} {config : MainConfig}

theorem exists_stoi {optarg : Bytes} (h : MainConfig.validPort optarg = true) :
    ∃ n, stoi optarg = some n ∧ 1 ≤ n ∧ n ≤ 65535 := by
  unfold MainConfig.validPort at h
  split at h
  · next n hn =>
    refine ⟨n,hn,?_⟩
    simp only [Bool.not_eq_true',Bool.or_eq_false_iff,decide_eq_false_iff_not] at h
    omega
  · cases h

/-- A digit is neither a blank nor a sign. -/
theorem isDigit_ne {c : UInt8} (h : isDigit c = true) : isSpace c = false ∧ c ≠ 45 ∧ c ≠ 43 := by
  simp only [isDigit,Bool.and_eq_true,decide_eq_true_eq,UInt8.le_iff_toNat_le] at h
  refine ⟨?_,?_,?_⟩
  · simp only [isSpace,Bool.or_eq_false_iff,Bool.and_eq_false_iff,decide_eq_false_iff_not,
      UInt8.le_iff_toNat_le]
    refine ⟨?_,.inr (Nat.not_le.mpr (Nat.lt_of_lt_of_le (by decide) h.1))⟩
    rintro rfl
    exact absurd h.1 (by decide)
  · rintro rfl
    exact absurd h.1 (by decide)
  · rintro rfl
    exact absurd h.1 (by decide)

theorem takeWhile_isDigit {digits rest : Bytes} (hdigits : ∀ c ∈ digits, isDigit c = true)
    (hrest : ∀ c ∈ rest.head?, isDigit c = false) :
    (digits ++ rest).takeWhile isDigit = digits := by
  rw [List.takeWhile_append_of_pos hdigits]
  cases rest with
  | nil => simp
  | cons c rest => simp [hrest c rfl]

theorem head?_dropWhile_isDigit (text : Bytes) :
    ∀ c ∈ (text.dropWhile isDigit).head?, isDigit c = false := by
  intro c hc
  have hnot := List.head?_dropWhile_not isDigit text
  rw [Option.mem_def.mp hc] at hnot
  simpa using hnot

/-- Exactly so does an argument begin that `std::stoi` reads as a port. -/
theorem validPort_iff (text : Bytes) :
    MainConfig.validPort text = true ↔ BeginsWithPort text := by
  constructor
  · intro h
    obtain ⟨n,hn,hlow,hhigh⟩ := exists_stoi h
    have hlead : leadingInt text = some n := (Option.filter_eq_some_iff.mp hn).1
    have hsplit : text = text.takeWhile isSpace ++ text.dropWhile isSpace :=
      List.takeWhile_append_dropWhile.symm
    have hblanks : ∀ c ∈ text.takeWhile isSpace, isSpace c = true :=
      fun c hc => List.mem_takeWhile_imp hc
    have hnumber (rest : Bytes) : rest = rest.takeWhile isDigit ++ rest.dropWhile isDigit :=
      List.takeWhile_append_dropWhile.symm
    unfold leadingInt at hlead
    dsimp only at hlead
    split at hlead <;> split at hlead
    · cases hlead
    · obtain ⟨rfl⟩ := hlead
      -- a number with a minus sign is no port
      simp only [if_true] at hlow
      omega
    · cases hlead
    · next rest hrest _ =>
      obtain ⟨rfl⟩ := hlead
      simp only [Bool.false_eq_true,if_false] at hlow hhigh
      rw [hsplit,hrest,hnumber rest]
      exact .intro [43] hblanks (.inr rfl) (fun c hc => List.mem_takeWhile_imp hc)
        (head?_dropWhile_isDigit rest) (by omega) (by omega)
    · cases hlead
    · obtain ⟨rfl⟩ := hlead
      simp only [Bool.false_eq_true,if_false] at hlow hhigh
      rw [hsplit,hnumber (text.dropWhile isSpace)]
      exact .intro [] hblanks (.inl rfl) (fun c hc => List.mem_takeWhile_imp hc)
        (head?_dropWhile_isDigit _) (by omega) (by omega)
  · rintro @⟨blanks,digits,rest,sign,hblanks,hsign,hdigits,hrest,hlow,hhigh⟩
    have hne : digits ≠ [] := by
      rintro rfl
      exact absurd hlow (by decide)
    have hlead : leadingInt (blanks ++ (sign ++ (digits ++ rest))) =
        some (digitsValue digits : ℤ) := by
      simp only [leadingInt,List.dropWhile_append_of_pos hblanks]
      rcases hsign with rfl | rfl
      · obtain ⟨d,ds,rfl⟩ := List.exists_cons_of_ne_nil hne
        obtain ⟨hspace,hminus,hplus⟩ := isDigit_ne (hdigits d List.mem_cons_self)
        have hkeep : ([] ++ (d :: ds ++ rest)).dropWhile isSpace = d :: ds ++ rest := by
          simp [hspace]
        rw [hkeep]
        split
        · next h => exact absurd (List.cons.inj h).1 hminus
        · next h => exact absurd (List.cons.inj h).1 hplus
        · rw [takeWhile_isDigit hdigits hrest,if_neg hne]
          rfl
      · have hkeep : ([43] ++ (digits ++ rest)).dropWhile isSpace = 43 :: (digits ++ rest) := rfl
        simp only [hkeep,takeWhile_isDigit hdigits hrest,if_neg hne]
        rfl
    have hstoi : stoi (blanks ++ (sign ++ (digits ++ rest))) = some (digitsValue digits : ℤ) := by
      rw [stoi,hlead,Option.filter_some,if_pos]
      simp only [Bool.and_eq_true,decide_eq_true_eq]
      omega
    rw [MainConfig.validPort,hstoi]
    simp only [Bool.not_eq_true',Bool.or_eq_false_iff,decide_eq_false_iff_not]
    omega

/-- The loop over the options, where none of them is an error. -/
theorem foldlM_handle_iff {items : List (Item CliOption)} {config' : MainConfig} :
    items.foldlM MainConfig.handle config = .ok config' ↔
      ∃ os, items = os.map item ∧ PortsValid os ∧ config' = MainConfig.setAll os config := by
  induction items generalizing config with
  | nil =>
    constructor
    · intro h
      cases h
      exact ⟨[],rfl,by simp [PortsValid],rfl⟩
    · rintro ⟨os,hos,-,rfl⟩
      rw [List.map_eq_nil_iff.mp hos.symm]
      rfl
  | cons x items ih =>
    rw [List.foldlM_cons]
    cases x with
    | unknown =>
      refine iff_of_false (by simp [MainConfig.handle,bind,Except.bind]) ?_
      rintro ⟨os,hos,-⟩
      exact unknown_notMem os (hos ▸ List.mem_cons_self)
    | opt option optarg =>
      rw [MainConfig.handle]
      by_cases hport : option = .port ∧ MainConfig.validPort (optarg.getD []) = false
      · refine iff_of_false (by simp [hport,bind,Except.bind]) ?_
        rintro ⟨os,hos,hvalid,-⟩
        cases os with
        | nil => cases hos
        | cons o os =>
          obtain ⟨hfirst,-⟩ := List.cons.inj hos
          obtain ⟨rfl,rfl⟩ := Item.opt.inj hfirst
          have hfalse := hvalid o List.mem_cons_self hport.1
          exact absurd (hport.2.symm.trans hfalse) (by decide)
      · rw [if_neg (by simpa using hport)]
        show items.foldlM MainConfig.handle (config.set option (optarg.getD [])) = _ ↔ _
        rw [ih]
        constructor
        · rintro ⟨os,rfl,hvalid,rfl⟩
          refine ⟨(option,optarg) :: os,rfl,?_,rfl⟩
          intro o ho hp
          rcases List.mem_cons.mp ho with rfl | ho
          · simpa [show option = .port from hp] using hport
          · exact hvalid o ho hp
        · rintro ⟨os,hos,hvalid,rfl⟩
          cases os with
          | nil => cases hos
          | cons o os =>
            obtain ⟨hfirst,rfl⟩ := List.cons.inj hos
            obtain ⟨rfl,rfl⟩ := Item.opt.inj hfirst
            exact ⟨os,rfl,fun x hx => hvalid x (List.mem_cons_of_mem _ hx),rfl⟩

/-- Setting one field after the other gives what the options mean. -/
theorem setAll_eq (h : PortsValid os) :
    MainConfig.setAll os {} = .ofOptions os [] := by
  induction os using List.reverseRecOn with
  | nil => rfl
  | append_singleton os o ih =>
    rw [MainConfig.setAll,List.foldl_concat,← MainConfig.setAll,
      ih (fun x hx => h x (List.mem_append_left _ hx))]
    obtain ⟨option,optarg⟩ := o
    have hport : option = .port → ∃ n, stoi (optarg.getD []) = some n := by
      intro hp
      obtain ⟨n,hn,-⟩ := exists_stoi (h (option,optarg) (by simp) hp)
      exact ⟨n,hn⟩
    cases option with
    | port =>
      obtain ⟨n,hn⟩ := hport rfl
      simp [MainConfig.set,MainConfig.ofOptions,given,lastArgument,hn]
    | _ => simp [MainConfig.set,MainConfig.ofOptions,given,lastArgument]

variable {posixlyCorrect : Bool} {argv : List Bytes}

/-- The parser sees the options of a line that is read without a complaint. -/
theorem foldlM_scan_iff : (viewerOptions.scan posixlyCorrect none argv).1.foldlM
      MainConfig.handle {} = .ok config ↔
    ∃ os, Line viewerOptions posixlyCorrect argv os
        (viewerOptions.scan posixlyCorrect none argv).2 ∧
      PortsValid os ∧ config = .ofOptions os [] := by
  rw [foldlM_handle_iff]
  constructor
  · rintro ⟨os,hos,hvalid,rfl⟩
    exact ⟨os,scan_iff.mp (Prod.ext hos rfl),hvalid,setAll_eq hvalid⟩
  · rintro ⟨os,hline,hvalid,rfl⟩
    exact ⟨os,congrArg Prod.fst (scan_iff.mpr hline),hvalid,(setAll_eq hvalid).symm⟩

/-- The line is accepted with these operands. -/
theorem parse_of_operands {os : List (CliOption × Option Word)} {ps : List Word}
    (hline : Line viewerOptions posixlyCorrect argv os ps) (hvalid : PortsValid os) :
    parseArguments posixlyCorrect argv =
      if ps.length ≤ 1 then .ok (.ofOptions os ps) else .error .tooManyArguments := by
  have hscan := scan_iff.mpr hline
  have hfold : (viewerOptions.scan posixlyCorrect none argv).1.foldlM MainConfig.handle {} =
      .ok (.ofOptions os []) := by
    rw [foldlM_scan_iff]
    exact ⟨os,by rwa [hscan],hvalid,rfl⟩
  rw [parseArguments,hfold,hscan]
  match ps with
  | [] => rfl
  | [p] => rfl
  | p :: q :: ps => simp

theorem exists_of_parse (h : parseArguments posixlyCorrect argv = .ok config) :
    ∃ os ps, Line viewerOptions posixlyCorrect argv os ps ∧ PortsValid os ∧ ps.length ≤ 1 ∧
      config = .ofOptions os ps := by
  cases hfold : (viewerOptions.scan posixlyCorrect none argv).1.foldlM MainConfig.handle {} with
  | error e => simp [parseArguments,hfold] at h
  | ok config' =>
    obtain ⟨os,hline,hvalid,-⟩ := foldlM_scan_iff.mp hfold
    rw [parse_of_operands hline hvalid] at h
    split at h
    · next hlen => exact ⟨os,_,hline,hvalid,hlen,(Except.ok.inj h).symm⟩
    · cases h

/-- The viewer accepts exactly the lines that `getopt_long` reads without a complaint, where
every port begins with a number from 1 to 65535 and there is at most one trace file. What a line
means is the options and the operands in it, in whatever order they stand and however they are
spelled. -/
theorem parseArguments_iff (posixlyCorrect : Bool) (argv : List Bytes) (config : MainConfig) :
    parseArguments posixlyCorrect argv = .ok config ↔
      ∃ os ps, Line viewerOptions posixlyCorrect argv os ps ∧
        (∀ o ∈ os, o.1 = .port → BeginsWithPort (o.2.getD [])) ∧ ps.length ≤ 1 ∧
          config = .ofOptions os ps := by
  simp only [← validPort_iff]
  constructor
  · exact exists_of_parse
  · rintro ⟨os,ps,hline,hvalid,hlen,rfl⟩
    rw [parse_of_operands hline hvalid,if_pos hlen]

end Parsing

/-- The spellings that the help text has for the options without an argument. -/
def flagWords : List (Word × CliOption) :=
  [(ascii "-h",.help),(ascii "--help",.help),(ascii "-V",.version),(ascii "--version",.version),
    (ascii "-v",.verbose),(ascii "--verbose",.verbose),(ascii "-l",.live),(ascii "--live",.live),
    (ascii "-w",.web),(ascii "--web",.web),(ascii "--no-hook",.noHook)]

def settingWords : List (Word × CliOption) :=
  [(ascii "-p",.port),(ascii "--port",.port),(ascii "-c",.config),(ascii "--config",.config)]

/-- A line in these spellings, with every option and every argument a word of its own. -/
inductive Documented : List Word → List (CliOption × Option Word) → List Word → Prop
  | done : Documented [] [] []
  | flag {w : Word} {option : CliOption} {ws ps : List Word} {os : List (CliOption × Option Word)}
    (hw : (w,option) ∈ flagWords) (rest : Documented ws os ps) :
    Documented (w :: ws) ((option,none) :: os) ps
  | setting {w : Word} {option : CliOption} {ws ps : List Word}
    {os : List (CliOption × Option Word)} (hw : (w,option) ∈ settingWords) (arg : Word)
    (rest : Documented ws os ps) : Documented (w :: arg :: ws) ((option,some arg) :: os) ps
  | traceFile {w : Word} {ws ps : List Word} {os : List (CliOption × Option Word)}
    (hdash : w.head? ≠ some 45) (rest : Documented ws os ps) : Documented (w :: ws) os (w :: ps)

section Windows
variable {argv ps : List Word} {os : List (CliOption × Option Word)}

theorem parseWindowsArgs_flag {w : Word} {option : CliOption} (hw : (w,option) ∈ flagWords)
    (config : MainConfig) (argv : List Word) : parseWindowsArgs config (w :: argv) =
      parseWindowsArgs (config.set option []) argv := by
  simp only [flagWords,List.mem_cons,List.not_mem_nil,or_false,Prod.mk.injEq] at hw
  rcases hw with ⟨rfl,rfl⟩ | ⟨rfl,rfl⟩ | ⟨rfl,rfl⟩ | ⟨rfl,rfl⟩ | ⟨rfl,rfl⟩ | ⟨rfl,rfl⟩ | ⟨rfl,rfl⟩ |
    ⟨rfl,rfl⟩ | ⟨rfl,rfl⟩ | ⟨rfl,rfl⟩ | ⟨rfl,rfl⟩ <;>
    simp +decide [parseWindowsArgs.eq_def config (_ :: _),MainConfig.set]

theorem spelled_flag {w : Word} {option : CliOption} (hw : (w,option) ∈ flagWords) :
    Spelled viewerOptions w [(option,none)] none := by
  simp only [flagWords,List.mem_cons,List.not_mem_nil,or_false,Prod.mk.injEq] at hw
  rcases hw with ⟨rfl,rfl⟩ | ⟨rfl,rfl⟩ | ⟨rfl,rfl⟩ | ⟨rfl,rfl⟩ | ⟨rfl,rfl⟩ | ⟨rfl,rfl⟩ | ⟨rfl,rfl⟩ |
    ⟨rfl,rfl⟩ | ⟨rfl,rfl⟩ | ⟨rfl,rfl⟩ | ⟨rfl,rfl⟩ <;> exact spelled_iff.mpr ⟨by decide,by decide⟩

theorem spelled_setting {w : Word} {option : CliOption} (hw : (w,option) ∈ settingWords) :
    Spelled viewerOptions w [] (some option) := by
  simp only [settingWords,List.mem_cons,List.not_mem_nil,or_false,Prod.mk.injEq] at hw
  rcases hw with ⟨rfl,rfl⟩ | ⟨rfl,rfl⟩ | ⟨rfl,rfl⟩ | ⟨rfl,rfl⟩ <;>
    exact spelled_iff.mpr ⟨by decide,by decide⟩

/-- The digits may be read with `atoi`, as long as a port is a port. -/
theorem parseWindowsArgs_setting {w arg : Word} {option : CliOption}
    (hw : (w,option) ∈ settingWords) (hvalid : option = .port → MainConfig.validPort arg = true)
    (config : MainConfig) (argv : List Word) : parseWindowsArgs config (w :: arg :: argv) =
      parseWindowsArgs (config.set option arg) argv := by
  have hport : option = .port → some (atoi arg) = stoi arg := by
    intro hp
    obtain ⟨n,hn,hlow,hhigh⟩ := exists_stoi (hvalid hp)
    rw [hn,atoi,(Option.filter_eq_some_iff.mp hn).1,Option.getD_some]
    congr 1
    omega
  simp only [settingWords,List.mem_cons,List.not_mem_nil,or_false,Prod.mk.injEq] at hw
  rcases hw with ⟨rfl,rfl⟩ | ⟨rfl,rfl⟩ | ⟨rfl,rfl⟩ | ⟨rfl,rfl⟩
  · simp +decide [parseWindowsArgs.eq_def config (_ :: _),MainConfig.set,← hport rfl]
  · simp +decide [parseWindowsArgs.eq_def config (_ :: _),MainConfig.set,← hport rfl]
  · simp +decide [parseWindowsArgs.eq_def config (_ :: _),MainConfig.set]
  · simp +decide [parseWindowsArgs.eq_def config (_ :: _),MainConfig.set]

/-- The words of the options do not begin as a trace file does. -/
theorem parseWindowsArgs_traceFile {w : Word} (hdash : w.head? ≠ some 45) (config : MainConfig)
    (argv : List Word) : parseWindowsArgs config (w :: argv) =
      parseWindowsArgs { config with traceFile := w } argv := by
  have hne : ∀ v : Word, v.head? = some 45 → w ≠ v := by
    rintro v hv rfl
    exact hdash hv
  rw [parseWindowsArgs.eq_def]
  simp [hdash,hne (ascii "-h") rfl,hne (ascii "--help") rfl,hne (ascii "-V") rfl,
    hne (ascii "--version") rfl,hne (ascii "-v") rfl,hne (ascii "--verbose") rfl,
    hne (ascii "-l") rfl,hne (ascii "--live") rfl,hne (ascii "-w") rfl,hne (ascii "--web") rfl,
    hne (ascii "-p") rfl,hne (ascii "--port") rfl,hne (ascii "-c") rfl,
    hne (ascii "--config") rfl,hne (ascii "--no-hook") rfl]

/-- An option leaves the trace file alone. -/
theorem setAll_traceFile (config : MainConfig) (w : Bytes) :
    MainConfig.setAll os { config with traceFile := w } =
      { MainConfig.setAll os config with traceFile := w } := by
  induction os generalizing config with
  | nil => rfl
  | cons o os ih =>
    obtain ⟨option,optarg⟩ := o
    rw [MainConfig.setAll,MainConfig.setAll,List.foldl_cons,List.foldl_cons,← MainConfig.setAll,
      ← MainConfig.setAll,← ih]
    cases option <;> rfl

/-- On such a line the Windows parser sets the options one after the other. -/
theorem Documented.parseWindowsArgs_eq (h : Documented argv os ps) (hvalid : PortsValid os)
    (config : MainConfig) : parseWindowsArgs config argv =
      { MainConfig.setAll os config with traceFile := ps.getLast?.getD config.traceFile } := by
  induction h generalizing config with
  | done => rfl
  | @flag w option ws ps os hw _ ih =>
    rw [parseWindowsArgs_flag hw,ih (fun o ho => hvalid o (List.mem_cons_of_mem _ ho))]
    have htrace : (config.set option []).traceFile = config.traceFile := by cases option <;> rfl
    rw [htrace]
    rfl
  | @setting w option ws ps os hw arg _ ih =>
    have hport : option = .port → MainConfig.validPort arg = true :=
      hvalid (option,some arg) List.mem_cons_self
    rw [parseWindowsArgs_setting hw hport,
      ih (fun o ho => hvalid o (List.mem_cons_of_mem _ ho))]
    have htrace : (config.set option arg).traceFile = config.traceFile := by cases option <;> rfl
    rw [htrace]
    rfl
  | @traceFile w ws ps os hdash _ ih =>
    rw [parseWindowsArgs_traceFile hdash,ih hvalid,setAll_traceFile]
    cases ps with
    | nil => rfl
    | cons p ps => simp [List.getLast?_cons]

/-- `getopt_long` reads the same line, and the same things in it: only with `POSIXLY_CORRECT`
may it miss an option behind the trace file, and then it has too many arguments. -/
theorem Documented.exists_line (h : Documented argv os ps) (posixlyCorrect : Bool) :
    ∃ os' ps', Line viewerOptions posixlyCorrect argv os' ps' ∧
      (ps'.length ≤ 1 → os' = os ∧ ps' = ps) := by
  induction h with
  | done => exact ⟨[],[],.done,fun _ => ⟨rfl,rfl⟩⟩
  | flag hw _ ih =>
    obtain ⟨os',ps',hline,hsame⟩ := ih
    refine ⟨_,ps',.options (spelled_flag hw) hline,fun hlen => ?_⟩
    obtain ⟨rfl,rfl⟩ := hsame hlen
    exact ⟨rfl,rfl⟩
  | setting hw arg _ ih =>
    obtain ⟨os',ps',hline,hsame⟩ := ih
    refine ⟨_,ps',.waiting (spelled_setting hw) hline,fun hlen => ?_⟩
    obtain ⟨rfl,rfl⟩ := hsame hlen
    exact ⟨rfl,rfl⟩
  | @traceFile w ws ps os hdash rest ih =>
    cases posixlyCorrect with
    | false =>
      obtain ⟨os',ps',hline,hsame⟩ := ih
      refine ⟨os',w :: ps',.operand (.inl hdash) rfl hline,fun hlen => ?_⟩
      obtain ⟨rfl,rfl⟩ := hsame (by simp at hlen; simp [hlen])
      exact ⟨rfl,rfl⟩
    | true =>
      refine ⟨[],w :: ws,.stop ws (.inl hdash) rfl,fun hlen => ?_⟩
      obtain rfl : ws = [] := by simpa using hlen
      cases rest
      exact ⟨rfl,rfl⟩

/-- The Windows parser agrees with `getopt_long` on every line in the spellings of the help
text that the latter accepts. -/
theorem parsers_agree (posixlyCorrect : Bool) (argv : List Word)
    (os : List (CliOption × Option Word)) (ps : List Word) (config : MainConfig)
    (hdoc : Documented argv os ps) (hparse : parseArguments posixlyCorrect argv = .ok config) :
    parseWindowsArgs {} argv = config := by
  obtain ⟨os',ps',hline,hsame⟩ := hdoc.exists_line posixlyCorrect
  obtain ⟨os'',ps'',hline',hvalid,hlen,rfl⟩ := exists_of_parse hparse
  obtain ⟨hos,rfl⟩ := Prod.mk.inj ((scan_iff.mpr hline').symm.trans (scan_iff.mpr hline))
  obtain rfl := eq_of_map_item _ hos
  obtain ⟨rfl,rfl⟩ := hsame hlen
  rw [hdoc.parseWindowsArgs_eq hvalid,setAll_eq hvalid]
  match ps'' with
  | [] => rfl
  | [p] => rfl
  | p :: q :: ps => simp at hlen

/-- A trace file in the middle. -/
theorem parsers_agree_port : parseWindowsArgs {}
      [ascii "--port",ascii "9000",ascii "run",ascii "-v"] =
    { port := 9000, traceFile := ascii "run", verbose := true } :=
  parsers_agree false _ [(.port,some (ascii "9000")),(.verbose,none)] [ascii "run"] _
    (.setting (by decide) _ (.traceFile (by decide) (.flag (by decide) .done)))
    (by decide +kernel)

end Windows

example : parseArguments false [ascii "-vlp",ascii "9000",ascii "run",ascii "--conf=c.json"] =
    .ok { verbose := true, liveMode := true, port := 9000, traceFile := ascii "run"
          configFile := ascii "c.json" } := by decide +kernel

example : parseArguments false [ascii "--ver"] = .error .unknownOption := by decide +kernel

end GgmlViz
