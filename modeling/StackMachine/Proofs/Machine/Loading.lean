import StackMachine.Cli.Execute
import StackMachine.Proofs.Machine.Interchange

/-! Every way to load a file accepts the same files. What the decoder gives ends as it should and
comes with its image, so a load can fail only where decoding or verification does, be it a machine
that loads the bytes or a command that runs or verifies them. -/

namespace StackMachine

namespace VirtualMachine

variable {bytes : List UInt8} {m : Module} {a : Arena}

theorem loadBytes_of_error {e : DecodeError} (h : Image.decode bytes = .error e)
    (vm : VirtualMachine) : (vm.loadBytes bytes).1 = .error (.decode e) := by
  have hresult : (Image.decodeWithEvents bytes).result = .error e := h
  simp only [loadBytes, hresult]

/-- The answer of a machine that loads what was decoded is the one of its verification. -/
theorem load_of_decode (h : Image.decode bytes = .ok (m, a)) (vm : VirtualMachine) :
    (vm.load m a).1 = if vm.config.verifyOnLoad then
      (verify m vm.primitives.length).mapError .verify else .ok () :=
  load_of_ended (Image.ended_of_decode h) (Arena.packed_of_decode h) vm

theorem answer_loadBytes (h : Image.decode bytes = .ok (m, a)) (vm : VirtualMachine) :
    (vm.loadBytes bytes).1 = if vm.config.verifyOnLoad then
      (verify m vm.primitives.length).mapError .verify else .ok () := by
  rw [loadBytes_of_decode h, load_of_decode h]
  rfl

theorem exists_of_loadBytes_error {vm : VirtualMachine} {e : VmError}
    (h : Image.decode bytes = .ok (m, a)) (herror : (vm.loadBytes bytes).1 = .error e) :
    ∃ v, e = .verify v := by
  rw [answer_loadBytes h] at herror
  split at herror
  · cases hv : verify m vm.primitives.length with
    | error v =>
      rw [hv] at herror
      cases herror
      exact ⟨v, rfl⟩
    | ok _ =>
      rw [hv] at herror
      cases herror
  · cases herror

end VirtualMachine

namespace Cli

open VirtualMachine

variable {config : Config} {options : RunOptions} {bytes : List UInt8} {log : Log}

/-- The load step ends the run, with this error. -/
def Stops (step : Except Report VirtualMachine) (e : CliError) : Prop :=
  ∃ report, step = .error report ∧ report.error = some e

/-- The load step gives a machine that has the module loaded, with this image. -/
def HasLoaded (step : Except Report VirtualMachine) (m : Module) (a : Arena) : Prop :=
  ∃ vm l, step = .ok vm ∧ vm.loaded = some l ∧ l.module = m ∧ l.arena = a

theorem loadStep_of_error {e : DecodeError} (h : Image.decode bytes = .error e) :
    Stops (loadStep config options bytes log) (.decode e) := by
  have hresult : (Image.decodeWithEvents bytes).result = .error e := h
  simp only [loadStep, hresult]
  exact ⟨_, rfl, rfl⟩

/-- After decoding, the step goes as the machine answers the load. -/
theorem loadStep_of_load {m : Module} {a : Arena} (h : Image.decode bytes = .ok (m, a)) :
    let log' := log.recordAll (Image.decodeWithEvents bytes).events
    let answer := ((runMachine config options m log').load m a).1
    (∀ e, answer = .error e → Stops (loadStep config options bytes log) (.vm e)) ∧
      (answer = .ok () → HasLoaded (loadStep config options bytes log) m a) := by
  have hresult : (Image.decodeWithEvents bytes).result = .ok (m, a) := h
  simp only [loadStep, hresult]
  cases hload : (runMachine config options m
      (log.recordAll (Image.decodeWithEvents bytes).events)).load m a with
  | mk answer vm =>
    constructor
    · rintro e rfl
      exact ⟨_, rfl, rfl⟩
    · rintro rfl
      obtain ⟨log', rfl⟩ := exists_of_load hload
      exact ⟨_, _, rfl, rfl, rfl, rfl⟩

/-- A run with `--verify` verifies what it loads, whatever its configuration says. -/
theorem loadStep_of_decode {m : Module} {a : Arena} (h : Image.decode bytes = .ok (m, a)) :
    (∀ v, StackMachine.verify m PrimitiveTable.standard.length = .error v →
      Stops (loadStep config { options with verify := true } bytes log) (.vm (.verify v))) ∧
    (StackMachine.verify m PrimitiveTable.standard.length = .ok () →
      HasLoaded (loadStep config { options with verify := true } bytes log) m a) := by
  have hanswer : ∀ log', ((runMachine config { options with verify := true } m log').load m a).1 =
      (StackMachine.verify m PrimitiveTable.standard.length).mapError .verify := by
    intro log'
    have hon : (runMachine config { options with verify := true } m
        log').config.verifyOnLoad = true := Bool.or_true _
    rw [load_of_decode h, if_pos hon]
    rfl
  obtain ⟨hstops, hloads⟩ :=
    @loadStep_of_load config { options with verify := true } bytes log m a h
  rw [hanswer] at hstops hloads
  constructor
  · intro v hv
    exact hstops _ (congrArg _ hv)
  · intro hv
    exact hloads (congrArg _ hv)

theorem verifyModule_of_error {e : DecodeError} (h : Image.decode bytes = .error e)
    (path : String) :
    verifyModule path bytes log =
      { log := (verifyModule path bytes log).log, error := some (.decode e) } := by
  have hresult : (Image.decodeWithEvents bytes).result = .error e := h
  simp only [verifyModule, hresult]

theorem verifyModule_of_decode {m : Module} {a : Arena} (h : Image.decode bytes = .ok (m, a))
    (path : String) :
    verifyModule path bytes log =
      match StackMachine.verify m PrimitiveTable.standard.length with
      | .error e => { log := (verifyModule path bytes log).log, error := some (.verify e) }
      | .ok () =>
        { log := (verifyModule path bytes log).log, stdout := (okLine path m).toArray } := by
  have hresult : (Image.decodeWithEvents bytes).result = .ok (m, a) := h
  simp only [verifyModule, hresult]
  cases StackMachine.verify m PrimitiveTable.standard.length <;> rfl

/-- A file is sound, or it has one fault, which the command that verifies files reports and at
which a run with `--verify` stops, whatever the configuration of the run. -/
theorem verify_and_run (path : String) (config : Config) (options : RunOptions)
    (bytes : List UInt8) (log log' : Log) :
    let report := verifyModule path bytes log
    let step := loadStep config { options with verify := true } bytes log'
    (∃ m a, Image.decode bytes = .ok (m, a) ∧ report.error = none ∧
      report.stdout = (okLine path m).toArray ∧ HasLoaded step m a) ∨
    ∃ e, report.error = some e ∧ report.stdout = #[] ∧
      ((∃ d, e = .decode d ∧ Stops step (.decode d)) ∨
        ∃ v, e = .verify v ∧ Stops step (.vm (.verify v))) := by
  dsimp only
  cases hdecode : Image.decode bytes with
  | error d =>
    rw [verifyModule_of_error hdecode]
    exact .inr ⟨_, rfl, rfl, .inl ⟨d, rfl, loadStep_of_error hdecode⟩⟩
  | ok decoded =>
    obtain ⟨m, a⟩ := decoded
    obtain ⟨hstops, hloads⟩ := @loadStep_of_decode config options bytes log' m a hdecode
    rw [verifyModule_of_decode hdecode]
    cases hverify : StackMachine.verify m PrimitiveTable.standard.length with
    | error v => exact .inr ⟨_, rfl, rfl, .inr ⟨v, rfl, hstops v hverify⟩⟩
    | ok _ => exact .inl ⟨m, a, rfl, rfl, rfl, hloads hverify⟩

theorem execute_of_error {report : Report}
    (h : loadStep config options bytes log = .error report) (fuel : Nat) :
    (Command.run options).execute fuel config bytes log = some report := by
  simp only [Command.execute, runModule, h]

theorem execute_of_ok {vm : VirtualMachine} (h : loadStep config options bytes log = .ok vm)
    (fuel : Nat) :
    (Command.run options).execute fuel config bytes log = callStep fuel options vm := by
  simp only [Command.execute, runModule, h]

/-- All ways to load a file accept the same files. A machine fails to load bytes where they cannot
be decoded and, if it is to verify what it loads, where they cannot be verified; it never finds them
without an end or an image. Of a file, the command that verifies it and a run with `--verify` find
one fault, or both find none. The fault is then what the run reports; without one, the run reports
what comes of the call in the machine that has loaded the file. -/
theorem load_exact (bytes : List UInt8) :
    (∀ vm : VirtualMachine,
      (∀ e, (vm.loadBytes bytes).1 = .error (.decode e) ↔ Image.decode bytes = .error e) ∧
      (∀ e, (vm.loadBytes bytes).1 ≠ .error (.load e)) ∧
      ∀ m a, Image.decode bytes = .ok (m, a) →
        (vm.config.verifyOnLoad = false → (vm.loadBytes bytes).1 = .ok ()) ∧
        (vm.config.verifyOnLoad = true → (vm.loadBytes bytes).1 =
          (StackMachine.verify m vm.primitives.length).mapError .verify)) ∧
    ∀ (path : String) (config : Config) (options : RunOptions) (log log' : Log) (fuel : Nat),
      let step := loadStep config { options with verify := true } bytes log'
      let run := (Command.run { options with verify := true }).execute fuel config bytes log'
      (∃ report, (Command.verify path).execute fuel config bytes log = some report ∧
        ((∃ m a, Image.decode bytes = .ok (m, a) ∧ report.error = none ∧
            report.stdout = (okLine path m).toArray ∧ HasLoaded step m a) ∨
          ∃ e, report.error = some e ∧ report.stdout = #[] ∧
            ((∃ d, e = .decode d ∧ Stops step (.decode d)) ∨
              ∃ v, e = .verify v ∧ Stops step (.vm (.verify v))))) ∧
      (∀ report, step = .error report → run = some report) ∧
      ∀ vm, step = .ok vm → run =
        ((vm.record [.running vm.functionCount options.function]).run fuel
          (.name options.function) (options.args.map Value.int)).map fun
        | (.error e, vm) => { stdout := vm.output.bytes, log := vm.log, error := some (.vm e) }
        | (.ok v, vm) =>
          { stdout := vm.output.bytes ++ line s!"=> {v.text}", log := vm.log } := by
  refine ⟨fun vm => ?_, fun path config options log log' fuel =>
    ⟨⟨_, rfl, verify_and_run path config options bytes log log'⟩,
      fun report h => execute_of_error h fuel, fun vm h => execute_of_ok h fuel⟩⟩
  cases hdecode : Image.decode bytes with
  | error d =>
    rw [loadBytes_of_error hdecode]
    refine ⟨fun e => ?_, nofun, nofun⟩
    rw [Except.error.injEq, Except.error.injEq, VmError.decode.injEq]
  | ok decoded =>
    have hanswer := answer_loadBytes hdecode vm
    refine ⟨fun e => iff_of_false (fun h => ?_) nofun, fun e h => ?_, ?_⟩
    · obtain ⟨v, hv⟩ := exists_of_loadBytes_error hdecode h
      cases hv
    · obtain ⟨v, hv⟩ := exists_of_loadBytes_error hdecode h
      cases hv
    · rintro _ _ ⟨⟩
      refine ⟨fun hoff => ?_, fun hon => ?_⟩
      · rw [hanswer, hoff]
        rfl
      · rw [hanswer, if_pos hon]

/-- A call of a primitive that is not in the standard table. -/
def stranger : Module where
  functions := [.ofBody "main" 0 0 [.make .primitiveCall 3, .make .functionReturn 0]]

open Image in
def strangerFile : List UInt8 :=
  wordBytes 44 ++ magic ++ (Section.functions stranger.functions).bytes

def strangerFault : VerifyError := ⟨"main", 0, .badPrimitiveIndex 3⟩

theorem load_exact_stranger :
    ((VirtualMachine.new {}).loadBytes strangerFile).1 = .ok () ∧
    ((VirtualMachine.new { verifyOnLoad := true }).loadBytes strangerFile).1 =
      .error (.verify strangerFault) ∧
    ∃ report report',
      (Command.verify "m").execute 0 {} strangerFile {} = some report ∧
      (Command.run ⟨"m", [], "main", true, false, false⟩).execute 0 {} strangerFile {} =
        some report' ∧
      report.error = some (.verify strangerFault) ∧
      report'.error = some (.vm (.verify strangerFault)) := by
  have hdecode : Image.decode strangerFile = .ok (stranger, .ofModule stranger) := by
    decide +kernel
  have hverify : StackMachine.verify stranger PrimitiveTable.standard.length =
      .error strangerFault := by
    decide +kernel
  obtain ⟨hmachines, hcommands⟩ := load_exact strangerFile
  have hoff := ((hmachines (.new {})).2.2 _ _ hdecode).1 rfl
  have hon := ((hmachines (.new { verifyOnLoad := true })).2.2 _ _ hdecode).2 rfl
  obtain ⟨⟨report, hreport, hfault⟩, hrun, -⟩ :=
    hcommands "m" {} ⟨"m", [], "main", true, false, false⟩ {} {} 0
  obtain ⟨hstops, -⟩ :=
    @loadStep_of_decode {} ⟨"m", [], "main", true, false, false⟩ strangerFile {} _ _ hdecode
  obtain ⟨report', hstep, herror'⟩ := hstops _ hverify
  refine ⟨hoff, hon.trans (congrArg _ hverify), report, report', hreport, hrun _ hstep, ?_, herror'⟩
  rcases hfault with ⟨_, _, -, -, -, vm, -, hok, -⟩ |
    ⟨_, herror, -, ⟨d, rfl, r, hr, hd⟩ | ⟨v, rfl, r, hr, hv⟩⟩
  · cases hstep.symm.trans hok
  · cases hstep.symm.trans hr
    cases herror'.symm.trans hd
  · cases hstep.symm.trans hr
    cases herror'.symm.trans hv
    exact herror

end Cli

end StackMachine
