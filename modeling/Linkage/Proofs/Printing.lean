import Linkage.CommandLine.Run
import Linkage.Proofs.Building
import Linkage.Proofs.Magnitudes

/-!
# Linkage.Proofs.Printing — what the program prints, and how it ends

A run of the program is refused before it prints anything if the numbers given for the configuration are, and it prints no
step if it is to make none.  Otherwise the mechanism is ready, so every step is printed, in order, and the exit code tells
whether all of them were met (`run_prints`).  None of this but the form of the lines depends on whether they are objects or
rows of a table (`runWith_withJson`).
-/

namespace Linkage.CommandLine

open Act
open Assembly (Coherent Draft)
open Mechanism (Step)

/-! ### Options -/

/-- A number that is given for the configuration is not valid. -/
def Options.Refused (o : Options) : Prop :=
  (∃ n, o.sweeps = some n ∧ n < 1) ∨ ∃ x, o.tolerance = some x ∧ ¬0 < x

/-- Names in upper case that stand for something else than a level: a text, and a table whose name may be spelled with a
ligature. -/
def reservedNames : List String := ["BASIC_FORMAT", "_STYLES", "_ﬅYLES", "_ﬆYLES"]

/-- The word given for the level is the name of a level, or no name of anything. -/
def Options.NamesLevel (o : Options) : Prop := String.ofList (o.level.toList.map upper) ∉ reservedNames

instance (o : Options) : Decidable o.NamesLevel := inferInstanceAs (Decidable (_ ∉ _))

/-- The driven angle of every step is a double, and not infinite. -/
def Options.TurnsFinitely (o : Options) : Prop := ∀ i : Nat, 1 ≤ i → i ≤ o.steps.toNat →
  ∃ phi : Float, Mechanism.stepAngle o.steps 1 i = .ok phi ∧ Scalar.isInfinite phi = false

/-- Nothing that is not given is refused. -/
theorem not_refused {o : Options} (hsweeps : o.sweeps = none) (htolerance : o.tolerance = none) : ¬o.Refused := by
  rintro (⟨n, hn, -⟩ | ⟨x, hx, -⟩)
  · exact nomatch hsweeps.symm.trans hn
  · exact nomatch htolerance.symm.trans hx

/-- As many steps as doubles can count turn finitely. -/
theorem turnsFinitely_of_lt {o : Options} {k : Nat} (hsteps : o.steps < 2 ^ k) (hk : k ≤ 1000) : o.TurnsFinitely := by
  intro i hi hle
  exact Mechanism.exists_stepAngle hi (by omega) hsteps hk

theorem exists_level {o : Options} (h : o.NamesLevel) : ∃ level, level? o.level = .ok level := by
  unfold Options.NamesLevel reservedNames at h
  unfold level?
  split
  case h_8 heq => exact absurd (by rw [heq]; exact List.mem_cons_self) h
  all_goals exact ⟨_, rfl⟩

/-! ### Reading the command line -/

/-- The options, but with objects instead of a table. -/
def Options.withJson (o : Options) : Options := { o with json := true }

/-- What a command line asks for, but with objects instead of a table. -/
def Request.withJson : Request → Request
  | .help => .help
  | .run o => .run o.withJson

theorem assign_withJson (o : Options) (flag : Flag) (argument : String) :
    o.withJson.assign flag argument = Options.withJson <$> o.assign flag argument := by
  cases flag <;> unfold Options.assign <;> dsimp only
  case mechanism => split <;> rfl
  case steps => split <;> rfl
  case sweeps => split <;> rfl
  case tolerance => split <;> rfl
  all_goals rfl

/-- Nothing that is read from the command line depends on whether objects were asked for before. -/
theorem collect_withJson (o : Options) (unknown : List String) (words : List Word) :
    collect o.withJson unknown words = Request.withJson <$> collect o unknown words := by
  have hassign (o : Options) (flag : Flag) (argument : String) (unknown : List String) (rest : List Word)
      (ih : ∀ o' : Options, collect o'.withJson unknown rest = Request.withJson <$> collect o' unknown rest) :
      (do collect (← o.withJson.assign flag argument) unknown rest) =
        Request.withJson <$> (do collect (← o.assign flag argument) unknown rest) := by
    rw [assign_withJson]
    cases o.assign flag argument with
    | ok o' => exact ih o'
    | error refusal => rfl
  -- by the cases of `collect`: each of them hands the options on, or ends without a look at them
  fun_induction collect o unknown words with
  | case1 o unknown h => simp only [collect, h]; rfl
  | case2 o unknown h => simp only [collect, h]; rfl
  | case3 o unknown text rest ih => rw [collect, ih]
  | case4 o unknown rest ih => rw [collect, ih]
  | case5 o unknown text rest ih => rw [collect, ih]
  | case6 o unknown flag more rest =>
    rw [collect]
    cases checkCluster flag more <;> rfl
  | case7 o unknown flag joined rest h ih =>
    rw [collect, if_pos h]
    exact hassign o flag joined unknown rest ih
  | case8 o unknown flag joined rest h => rw [collect, if_neg h]; rfl
  | case9 o unknown rest => rw [collect]; rfl
  | case10 o unknown rest ih => rw [collect]; exact ih
  | case11 o unknown flag text rest hhelp hjson ih =>
    rw [collect]
    · exact hassign o flag text unknown rest ih
    · exact hhelp
    · exact hjson
  | case12 o unknown flag rest hhelp hjson hnone =>
    rw [collect]
    · rfl
    · exact hhelp
    · exact hjson
    · exact hnone

theorem classify_json : classify "--json" = .ok (.option .json none) := by cbv

theorem classify_steps : classify "--steps" = .ok (.option .steps none) := by cbv

/-- A number of steps alone leaves the other options as they stand. -/
theorem parse_steps {text : String} {n : Int} (hplain : text.startsWith "-" = false) (hn : Text.integer? text = some n) :
    parse ["--steps", text] = .ok (.run { steps := n }) := by
  have hargument : classify text = .ok (.argument text) := by
    unfold classify
    rw [hplain]
    rfl
  have hseparator : text ≠ "--" := by
    rintro rfl
    exact absurd hplain (by decide +kernel)
  have hwords : classifyAll ["--steps", text] = .ok [.option .steps none, .argument text] := by
    rw [classifyAll, if_neg (by decide), classify_steps, classifyAll, if_neg hseparator, hargument]
    rfl
  unfold parse
  rw [hwords]
  change collect {} [] [.option .steps none, .argument text] = _
  rw [collect]
  · unfold Options.assign
    dsimp only
    rw [hn]
    rfl
  · exact nofun
  · exact nofun

/-- Asking for objects first of all adds that to what the rest of the command line asks for. -/
theorem parse_json {words : List String} {o : Options} (h : parse words = .ok (.run o)) :
    parse ("--json" :: words) = .ok (.run o.withJson) := by
  unfold parse at h ⊢
  have hwords : classifyAll ("--json" :: words) = (.option .json none :: ·) <$> classifyAll words := by
    rw [classifyAll, if_neg (by decide), classify_json]
    rfl
  rw [hwords]
  cases hclass : classifyAll words with
  | error refusal =>
    rw [hclass] at h
    exact nomatch h
  | ok classified =>
    rw [hclass] at h
    have hcollect : collect {} [] classified = .ok (.run o) := h
    change collect {} [] (.option .json none :: classified) = _
    rw [collect]
    change collect (Options.withJson {}) [] classified = _
    rw [collect_withJson, hcollect]
    rfl

/-! ### The configuration -/

/-- A cap and a tolerance as they are given make a configuration with a valid reach if both are valid. -/
theorem create_eq {n : Int} {x reach : Float} (hreach : 0 < reach) :
    Config.create (.int n) (.float x) (.float reach) =
      if n < 1 then .error (.showing .tooFewSweeps (.int n)) else
        if 0 < x then .ok ⟨.int n, x, reach⟩ else .error (.badTolerance (.float x)) := by
  have hcreate : Config.create (.int n) (.float x) (.float reach) = (do
      if n < 1 then throw (.showing .tooFewSweeps (.int n))
      if !decide (0 < x) then throw (.badTolerance (.float x))
      if !decide (0 < reach) then throw (.badReach (.float reach))
      return ⟨.int n, x, reach⟩) := rfl
  rw [hcreate, decide_eq_true hreach]
  by_cases hn : n < 1
  · rw [if_pos hn, if_pos hn]
    rfl
  · rw [if_neg hn, if_neg hn]
    by_cases hx : 0 < x
    · rw [if_pos hx, decide_eq_true hx]
      rfl
    · rw [if_neg hx, decide_eq_false hx]
      rfl

/-- The numbers in force are refused if those that are given are. -/
theorem refused_iff {o : Options} : o.Refused ↔ o.sweeps.getD 256 < 1 ∨ ¬0 < o.tolerance.getD Config.standard.tolerance := by
  have hstandard : 0 < Config.standard.tolerance := Config.standard_valid.2.1
  have hcount : ¬(256 : Int) < 1 := by decide
  unfold Options.Refused
  cases o.sweeps <;> cases o.tolerance <;> simp [hstandard, hcount]

/-- Giving a drafted system the numbers of the options fails if they are refused; otherwise it stays drafted, and its
configuration has a positive reach. -/
theorem runs_configure {s : SystemId} {nodes : List (NodeId × Node Float)}
    {constraints : List (ConstraintId × Constraint Float)} {made : List Reference} {a : Assembly Float}
    (h : Draft s .standard nodes constraints made a) (o : Options) : Runs (configure s o) a fun r b =>
      o.Refused ∧ (∃ fault, r = .error fault ∧ fault.category = .value) ∨
        ¬o.Refused ∧ r = .ok () ∧ ∃ cfg : Config Float, 0 < cfg.reach ∧ Draft s cfg nodes constraints made b := by
  have hreach : 0 < Config.standard.reach := Config.standard_valid.2.2
  unfold configure
  split
  case isTrue hgiven =>
    refine runs_read ?_
    have hcount : (o.sweeps.map Numeral.int).getD Config.standard.sweeps = .int (o.sweeps.getD 256) := by
      cases o.sweeps <;> rfl
    rw [h.config]
    dsimp only
    rw [hcount, create_eq hreach]
    refine runs_bind (runs_ofExcept ?_)
    rw [refused_iff]
    by_cases hsweeps : o.sweeps.getD 256 < 1
    · rw [if_pos hsweeps]
      refine Or.inl ⟨Or.inl hsweeps, _, rfl, ?_⟩
      -- a matter of the value, whether this can be shown or not
      unfold Fault.showing
      split
      · rfl
      · rfl
    · rw [if_neg hsweeps]
      by_cases htolerance : 0 < o.tolerance.getD Config.standard.tolerance
      · rw [if_pos htolerance, then_ok]
        refine (h.runs_useConfig _).mono ?_
        rintro r b ⟨hr, hdraft⟩
        refine Or.inr ⟨not_or.mpr ⟨hsweeps, not_not.mpr htolerance⟩, hr, _, ?_, hdraft⟩
        exact hreach
      · rw [if_neg htolerance]
        exact Or.inl ⟨Or.inr htolerance, _, rfl, rfl⟩
  case isFalse hgiven =>
    rw [Bool.or_eq_true, not_or, Bool.not_eq_true, Option.isSome_eq_false_iff, Option.isNone_iff_eq_none,
      Bool.not_eq_true, Option.isSome_eq_false_iff, Option.isNone_iff_eq_none] at hgiven
    exact runs_pure (Or.inr ⟨not_refused hgiven.1 hgiven.2, rfl, .standard, hreach, h⟩)

/-- Both mechanisms are drafted from nothing so that they can be driven. -/
theorem drafts_build (choice : Choice) : Drafts choice.build (.empty .standard) := by
  have hempty : Coherent [] (Assembly.empty Config.standard) := Assembly.coherent_empty .standard
  cases choice with
  | fourBar =>
    have hok : fourBarLengths.joint.isOk = true := by decide +kernel
    cases hv : fourBarLengths.joint with
    | ok v => exact drafts_fourBar hempty (by decide +kernel) hv
    | error fault =>
      rw [hv] at hok
      exact nomatch hok
  | sliderCrank =>
    have hlong : ¬sliderCrankLengths.coupler ≤ sliderCrankLengths.crank := by decide +kernel
    exact drafts_sliderCrank hempty hlong

/-- A run begins with a failure if the configuration is refused, and with a mechanism that is ready otherwise. -/
theorem runs_begin (program : Bool) (o : Options) : Runs (begin program o) (.empty .standard) fun r b =>
    o.Refused ∧ (∃ fault, r = .error fault ∧ fault.category = .value) ∨ ¬o.Refused ∧ ∃ m, r = .ok m ∧ m.Ready b := by
  refine runs_bind ((drafts_build o.mechanism).mono ?_)
  rintro _ a ⟨m, nodes, constraints, made, rfl, hdraft, hdrivable⟩
  rw [then_ok]
  refine runs_bind ((runs_configure hdraft o).mono ?_)
  rintro _ b (⟨hrefused, fault, rfl, hvalue⟩ | ⟨hrefused, rfl, cfg, hreach, hdraft'⟩)
  · exact Or.inl ⟨hrefused, fault, rfl, hvalue⟩
  · rw [then_ok]
    exact runs_after_report (runs_pure (Or.inr ⟨hrefused, m, rfl, hdraft'.ready hdrivable hreach⟩))

/-! ### Lines -/

/-- The step that a line is about, and the sweeps it took. -/
def Line.progress : Line → Option (Int × Nat)
  | .header _ => none
  | .row item | .object item => some (item.step, item.iterations)

/-- The steps that are printed, with the sweeps they took. -/
def Outcome.progress (out : Outcome) : List (Int × Nat) := out.lines.filterMap Line.progress

/-- How a run ends whose sweep went so: the exit code tells whether every step was met. -/
def endingOf (steps : Mechanism.Steps Float) : Ending :=
  match steps.failure with
  | some fault => .failed fault
  | none => .exit (if ∀ item ∈ steps.items, 0 < item.iterations then 0 else 1)

section Drive

variable {program : Bool} {o : Options} {m : Mechanism} {s : Session Float}

theorem lines_drive : (drive program o m s).lines = (if o.json then [] else [.header (m.joints.map Prod.fst)]) ++
    (m.sweep o.steps 1 s).1.items.map (if o.json then .object else .row) := by
  unfold drive
  dsimp only
  split
  · rfl
  · split <;> rfl

theorem ending_drive : (drive program o m s).ending = endingOf (m.sweep o.steps 1 s).1 := by
  have hcount (items : List (Step Float)) :
      items.countP (·.iterations == 0) = 0 ↔ ∀ item ∈ items, 0 < item.iterations := by
    simp [List.countP_eq_zero, Nat.pos_iff_ne_zero]
  unfold drive endingOf
  dsimp only
  cases (m.sweep o.steps 1 s).1.failure with
  | some fault => rfl
  | none =>
    dsimp only
    simp only [hcount]
    split <;> rfl

/-- Every step is printed once. -/
theorem progress_drive : (drive program o m s).progress =
    (m.sweep o.steps 1 s).1.items.map fun item => (item.step, item.iterations) := by
  have hitems (line : Step Float → Line) (hline : Line.progress ∘ line = some ∘ fun item => (item.step, item.iterations))
      (items : List (Step Float)) :
      (items.map line).filterMap Line.progress = items.map fun item => (item.step, item.iterations) := by
    rw [List.filterMap_map, hline, List.filterMap_eq_map]
  unfold Outcome.progress
  rw [lines_drive, List.filterMap_append]
  cases o.json with
  | false => exact hitems .row rfl _
  | true => exact hitems .object rfl _

/-- Objects tell the same steps as rows, and the run ends as it does with rows. -/
theorem drive_withJson : (drive program o.withJson m s).ending = (drive program o m s).ending ∧
    (drive program o.withJson m s).progress = (drive program o m s).progress := by
  have hsweep : m.sweep o.withJson.steps 1 s = m.sweep o.steps 1 s := rfl
  exact ⟨by rw [ending_drive, ending_drive, hsweep], by rw [progress_drive, progress_drive, hsweep]⟩

end Drive

theorem runWith_withJson (program : Bool) (o : Options) :
    (runWith program o.withJson).ending = (runWith program o).ending ∧
      (runWith program o.withJson).progress = (runWith program o).progress := by
  have hlevel : level? o.withJson.level = level? o.level := rfl
  have hbegin : begin program o.withJson = begin program o := rfl
  unfold runWith
  rw [hlevel, hbegin]
  split
  · exact ⟨rfl, rfl⟩
  · split
    · exact ⟨rfl, rfl⟩
    · exact drive_withJson

/-- What begins with a mechanism that is ready goes on to drive it. -/
theorem runWith_cases {o : Options} (program : Bool) (h : o.NamesLevel) :
    o.Refused ∧ (∃ fault, (runWith program o).lines = [] ∧ (runWith program o).ending = .failed fault ∧
        fault.category = .value) ∨
      ¬o.Refused ∧ ∃ m s, m.Ready s.assembly ∧ runWith program o = drive program o m s := by
  obtain ⟨level, hlevel⟩ := exists_level h
  have hbegin := runs_begin program o (.empty level)
  unfold Act.answer Act.after at hbegin
  unfold runWith
  rw [hlevel]
  dsimp only
  -- how the session begins decides: it fails with a value fault, or leaves a mechanism that is ready
  cases hrun : begin program o ⟨.empty .standard, .empty level⟩ with
  | error fault s =>
    rw [hrun] at hbegin
    rcases hbegin with ⟨hrefused, fault', hfault, hvalue⟩ | ⟨-, m, hm, -⟩
    · cases hfault
      exact Or.inl ⟨hrefused, fault, rfl, rfl, hvalue⟩
    · exact nomatch hm
  | ok m s =>
    rw [hrun] at hbegin
    rcases hbegin with ⟨-, fault, hfault, -⟩ | ⟨hrefused, m', hm, hready⟩
    · exact nomatch hfault
    · cases hm
      exact Or.inr ⟨hrefused, m, s, hready, rfl⟩

/-! ### Runs -/

theorem run_eq {words : List String} {o : Options} (program : Bool) (h : parse words = .ok (.run o)) :
    run program words = runWith program o := by
  unfold run
  rw [h]

/-- Options that are refused end the run before anything is printed, and a run that is to make no step prints none.  Every
other run prints its steps in order, each on a line of its own, after a header unless the lines are objects, and its exit
code tells whether all of them were met.  With objects, the same steps are printed and the run ends in the same way. -/
theorem run_prints (program : Bool) {words : List String} {o : Options} (hparse : parse words = .ok (.run o))
    (hlevel : o.NamesLevel) :
    (o.Refused → (run program words).lines = [] ∧
      ∃ fault, (run program words).ending = .failed fault ∧ fault.category = .value) ∧
    (¬o.Refused → o.steps < 1 → (run program words).progress = [] ∧
      ∃ fault, (run program words).ending = .failed fault ∧ fault.category = .value) ∧
    (¬o.Refused → 1 ≤ o.steps → o.TurnsFinitely → ∃ (joints : List String) (items : List (Step Float)),
      (run program words).lines =
        (if o.json then [] else [.header joints]) ++ items.map (if o.json then .object else .row) ∧
      items.map Step.step = (List.range' 1 o.steps.toNat).map (fun i : Nat => (i : Int)) ∧
      (run program words).ending = .exit (if ∀ item ∈ items, 0 < item.iterations then 0 else 1)) ∧
    (∀ words', parse words' = .ok (.run o.withJson) →
      (run program words').ending = (run program words).ending ∧
      (run program words').progress = (run program words).progress) ∧
    parse ("--json" :: words) = .ok (.run o.withJson) := by
  refine ⟨fun hrefused => ?_, fun hrefused hsteps => ?_, fun hrefused hsteps hturns => ?_, fun words' hparse' => ?_,
    parse_json hparse⟩
  all_goals rw [run_eq program hparse]
  · rcases runWith_cases program hlevel with ⟨-, fault, hlines, hending, hvalue⟩ | ⟨hvalid, -⟩
    · exact ⟨hlines, fault, hending, hvalue⟩
    · exact absurd hrefused hvalid
  · rcases runWith_cases program hlevel with ⟨hinvalid, -⟩ | ⟨-, m, s, -, hdrive⟩
    · exact absurd hinvalid hrefused
    · have hsweep : m.sweep o.steps 1 s = (⟨[], some .noSteps⟩, s) := if_pos hsteps
      rw [hdrive, progress_drive, ending_drive, hsweep]
      exact ⟨rfl, _, rfl, rfl⟩
  · rcases runWith_cases program hlevel with ⟨hinvalid, -⟩ | ⟨-, m, s, hready, hdrive⟩
    · exact absurd hinvalid hrefused
    · obtain ⟨hfailure, hitems⟩ := Mechanism.sweep_complete hready hsteps hturns
      refine ⟨m.joints.map Prod.fst, (m.sweep o.steps 1 s).1.items, ?_, hitems, ?_⟩
      · rw [hdrive, lines_drive]
      · rw [hdrive, ending_drive]
        unfold endingOf
        rw [hfailure]
  · rw [run_eq program hparse']
    exact runWith_withJson program o

/-- Two steps are two rows below a header. -/
theorem run_prints_rows : parse ["--steps", "2"] = .ok (.run { steps := 2 }) ∧
    ∃ (joints : List String) (items : List (Step Float)),
      (run false ["--steps", "2"]).lines = .header joints :: items.map .row ∧ items.map Step.step = [1, 2] ∧
      (run false ["--steps", "2"]).ending = .exit (if ∀ item ∈ items, 0 < item.iterations then 0 else 1) := by
  have hparse : parse ["--steps", "2"] = .ok (.run { steps := 2 }) := parse_steps (by decide +kernel) (by decide +kernel)
  have hturns : Options.TurnsFinitely { steps := 2 } := turnsFinitely_of_lt (k := 2) (by decide) (by decide)
  exact ⟨hparse, (run_prints false hparse (by decide +kernel)).2.2.1 (not_refused rfl rfl) (by decide) hturns⟩

/-- The name of a text is a valid word for the level, and `10 ^ 400` a valid number of steps, but the one ends the run before
anything is printed and the other, which is no double, before any step is. -/
theorem not_prints_every_step :
    (∃ o : Options, parse ["--log-level", "BASIC_FORMAT", "--steps", "2"] = .ok (.run o) ∧ ¬o.Refused ∧ 1 ≤ o.steps ∧
      (run false ["--log-level", "BASIC_FORMAT", "--steps", "2"]).lines = [] ∧
      ∃ fault, (run false ["--log-level", "BASIC_FORMAT", "--steps", "2"]).ending = .failed fault) ∧
    ∃ (words : List String) (o : Options), words = ["--steps", String.ofList ('1' :: List.replicate 400 '0')] ∧
      parse words = .ok (.run o) ∧ ¬o.Refused ∧ 1 ≤ o.steps ∧ (run false words).progress = [] ∧
      ∃ fault, (run false words).ending = .failed fault ∧ fault.category = .overflow := by
  refine ⟨?_, ?_⟩
  -- the word is an attribute of the logging module, and its value is no level
  · have hparse : parse ["--log-level", "BASIC_FORMAT", "--steps", "2"] =
        .ok (.run { steps := 2, level := "BASIC_FORMAT" }) := by cbv
    have hrun : runWith false { steps := 2, level := "BASIC_FORMAT" } =
        ⟨[], #[], .failed (.unknownLevel "%(levelname)s:%(name)s:%(message)s")⟩ := by
      have hlevel : level? "BASIC_FORMAT" = .error (.unknownLevel "%(levelname)s:%(name)s:%(message)s") := by cbv
      unfold runWith
      rw [hlevel]
    rw [run_eq false hparse, hrun]
    exact ⟨_, hparse, not_refused rfl rfl, by decide, rfl, _, rfl⟩
  -- the steps are counted in doubles, and so many are none
  · have hparse : parse ["--steps", String.ofList ('1' :: List.replicate 400 '0')] = .ok (.run { steps := 10 ^ 400 }) := by
      refine parse_steps (by decide +kernel) ?_
      unfold Text.integer? Text.numeral?
      rw [String.toList_ofList]
      decide +kernel
    refine ⟨_, _, rfl, hparse, not_refused rfl rfl, by decide +kernel, ?_⟩
    have hangle : Mechanism.stepAngle (10 ^ 400) (1 : Float) 1 = .error .integerTooLarge := by
      have hnone : Scalar.ofInt? (10 ^ 400 : Int) = (none : Option Float) :=
        Option.isNone_iff_eq_none.mp (show (Number.ofInt? (10 ^ 400)).isNone = true by decide +kernel)
      obtain ⟨x, hx⟩ := Option.isSome_iff_exists.mp (show (Number.ofInt? 1).isSome = true by decide +kernel)
      have hone : Scalar.ofInt? (1 : Int) = some x := hx
      unfold Mechanism.stepAngle Scalar.ofInt
      rw [hnone, hone]
      rfl
    rcases runWith_cases false (o := { steps := 10 ^ 400 }) (by decide +kernel) with ⟨hrefused, -⟩ | ⟨-, m, s, -, hdrive⟩
    · exact absurd hrefused (not_refused rfl rfl)
    · rw [run_eq false hparse, hdrive, progress_drive, ending_drive]
      dsimp only
      rw [Mechanism.sweep_of_stepAngle_error (by decide +kernel) hangle]
      exact ⟨rfl, _, rfl, rfl⟩

end Linkage.CommandLine
