import PrefixScan.Proofs.Scan.Accept
import PrefixScan.Proofs.Scan.Pass

/-!
# The trail of a scan

A scan that is accepted leaves one launch per pass in its trail, and behind each launch what the profiler
has to report about it.  The launches follow from the passes and the settings alone, so neither the data nor
the profiler nor the clock of the device has a part in them.

## Main definitions

* `Scan.launchOf` — the launch of a pass.
* `Scan.passTrail` — what a pass leaves in the trail.
* `Event.launch?`, `Event.record?` — the launches and the profile lines of a trail.

## Main results

* `Scan.launch_eq` — the whole trail of the passes of a layout, which do not fault.
* `Scan.profiling_transparent` — profiling adds a line per pass, and nothing else.
-/

namespace PrefixScan

open Cascade

/-! ## Entries of a trail -/

/-- The launch that an entry stands for. -/
def Event.launch? : Event → Option Launch
  | .launch started => some started
  | .notice _ | .profile _ => none

/-- The timing that an entry prints. -/
def Event.record? : Event → Option Profile.Record
  | .profile record => some record
  | .notice _ | .launch _ => none

/-- A profiler starts no kernel. -/
theorem Profiler.launches_report (profiler : Profiler) (device : Device) (label : String) :
    (profiler.report device label).filterMap Event.launch? = [] := by
  unfold Profiler.report
  split
  · split <;> rfl
  · rfl

/-- A profiler prints one line if it is enabled and the device can time its work. -/
theorem Profiler.labels_report (profiler : Profiler) (device : Device) (label : String) :
    ((profiler.report device label).filterMap Event.record?).map (·.label) =
      if profiler.enabled && device.timing then [label] else [] := by
  unfold Profiler.report
  cases profiler.enabled <;> cases device.timing <;> rfl

namespace Scan

/-! ## Passes -/

/-- The launch of a pass. Only reductions need shared memory. -/
def launchOf (settings : Settings) (pass : Pass) : Launch where
  kernel := kernel pass.sweep
  cubeCount := pass.cubeCount
  cubeDim := settings.cubeDim
  shared := match pass.sweep with
    | .reduce => settings.scratch.levels
    | .expand => []

/-- What a pass leaves in the trail. -/
def passTrail (device : Device) (profiler : Profiler) (settings : Settings) (pass : Pass) :
    List Event :=
  .notice (.submitting pass) :: .launch (launchOf settings pass) ::
    profiler.report device pass.label

section Passes

variable {α : Type} [Inhabited α] (op : Operator α) (fill : α) (settings : Settings)

theorem runPass_eq (pass : Pass) (store : Store α) :
    ∃ after, runPass op fill settings pass store = ⟨[.launch (launchOf settings pass)], .ok after⟩ := by
  obtain ⟨sweep, level, cubeCount⟩ := pass
  cases sweep with
  | reduce =>
      obtain ⟨program, hprogram⟩ := Cube.Program.reduce_isOk settings
      rw [runPass, grid, launchOf, ← Cube.Program.reduce_shared hprogram, hprogram]
      exact ⟨_, rfl⟩
  | expand => exact ⟨_, rfl⟩

/-- Passes leave their trails one after the other, and what they leave in the buffers does not depend on who
profiles them. -/
theorem submitPasses_eq (passes : List Pass) (store : Store α) :
    ∃ after, ∀ device profiler, submitPasses op fill device profiler settings passes store =
      ⟨passes.flatMap (passTrail device profiler settings), .ok after⟩ := by
  induction passes generalizing store with
  | nil => exact ⟨store, fun _ _ => rfl⟩
  | cons pass passes ih =>
      obtain ⟨between, hpass⟩ := runPass_eq op fill settings pass store
      obtain ⟨after, hpasses⟩ := ih between
      refine ⟨after, ?_⟩
      intro device profiler
      have hresult : (runPass op fill settings pass store).result = .ok between := by rw [hpass]
      have hsubmit := profiler.submit_of_ok device pass.label hresult
      rw [submitPasses, Submission.bind_of_ok (Submission.result_emit _), hsubmit]
      rw [Submission.bind_of_ok rfl, hpasses, hpass]
      rfl

/-- The trail of the passes of a layout: the message that a scan starts, and the trails of the passes. -/
theorem launch_eq {layout : Layout} {passes : List Pass} (h : layout.passes = .ok passes)
    (store : Store α) :
    ∃ after, ∀ device profiler length, launch op fill device profiler settings length layout store =
      ⟨.notice (.scanning length layout.numLevels settings.scratch.levels) ::
        passes.flatMap (passTrail device profiler settings), .ok after⟩ := by
  obtain ⟨after, hpasses⟩ := submitPasses_eq op fill settings passes store
  refine ⟨after, ?_⟩
  intro device profiler length
  rw [launch, h, Submission.bind_of_ok (Submission.result_emit _)]
  show Submission.mk (_ :: (submitPasses op fill device profiler settings passes store).events)
    (submitPasses op fill device profiler settings passes store).result = _
  rw [hpasses]

/-- The passes of a whole layout do not fault, whatever the buffers. -/
theorem launch_isOk {layout : Layout} (h : layout.Whole) (store : Store α) :
    ∃ after, ∀ device profiler length,
      (launch op fill device profiler settings length layout store).result = .ok after := by
  obtain ⟨after, hafter⟩ := launch_eq op fill settings h.passes_eq store
  exact ⟨after, fun device profiler length => by rw [hafter]⟩

end Passes

/-! ## Profiling -/

section Profiling

variable (device : Device) (profiler : Profiler) (settings : Settings) (passes : List Pass)

theorem launches_passTrail : (passes.flatMap (passTrail device profiler settings)).filterMap
    Event.launch? = passes.map (launchOf settings) := by
  have hpass : ∀ pass, (passTrail device profiler settings pass).filterMap Event.launch? =
      [launchOf settings pass] := fun pass =>
    congrArg (launchOf settings pass :: ·) (profiler.launches_report device pass.label)
  simp only [List.filterMap_flatMap, hpass, List.map_eq_flatMap]

theorem labels_passTrail : ((passes.flatMap (passTrail device profiler settings)).filterMap
    Event.record?).map (·.label) =
      if profiler.enabled && device.timing then passes.map Pass.label else [] := by
  have hpass : ∀ pass, ((passTrail device profiler settings pass).filterMap Event.record?).map
      (·.label) = if profiler.enabled && device.timing then [pass.label] else [] := fun pass =>
    profiler.labels_report device pass.label
  simp only [List.filterMap_flatMap, List.map_flatMap, hpass]
  split
  · exact List.map_eq_flatMap.symm
  · exact List.flatMap_eq_nil_iff.2 fun _ _ => rfl

end Profiling

/-- Profiling is transparent.  Whether it is switched on and whether the device can time its work, an
accepted scan starts the same kernels in the same order, one for each pass, and ends with the same contents
in the buffer and in all levels of the cascade.  It prints one line per pass, in order and under the label of
the pass, if it is profiled and timed, and no line otherwise. -/
theorem profiling_transparent {device : Device} {config : Config} {length : Size} {layout : Layout}
    {settings : Settings} (haccept : accept device config length layout = .ok settings)
    (hbuilt : layout.Built) {α : Type} [Inhabited α] (op : Operator α) (fill : α) (store : Store α) :
    ∃ passes after, layout.passes = .ok passes ∧ ∀ profiling timing, ∃ submission,
      hierarchical op fill { device with timing } { config with profiling } length layout store =
        .ok submission ∧
      submission.result = .ok after ∧
      submission.events.filterMap Event.launch? = passes.map (launchOf settings) ∧
      (submission.events.filterMap Event.record?).map (·.label) =
        if profiling && timing then passes.map Pass.label else [] := by
  have hpasses := ((accepted_of_accept haccept).whole hbuilt).passes_eq
  obtain ⟨after, hlaunch⟩ := launch_eq op fill settings hpasses store
  refine ⟨_, after, hpasses, ?_⟩
  intro profiling timing
  -- no check looks at either switch
  have haccept' : accept { device with timing } { config with profiling } length layout =
      .ok settings := haccept
  refine ⟨_, hierarchical_of_accept op fill haccept' store, ?_, ?_, ?_⟩
  · rw [hlaunch]
  · rw [hlaunch]
    exact launches_passTrail _ _ settings _
  · rw [hlaunch]
    exact labels_passTrail { device with timing } ⟨profiling⟩ settings _

/-- Running sums of four numbers, in three passes. -/
theorem profiling_transparent_four :
    ∃ settings passes,
      accept { planeMin := 2, planeMax := 2 } { granularity := 2, cubeDim := 2 } 4
        ⟨4, 2, [⟨2, 2⟩, ⟨1, 2⟩]⟩ = .ok settings ∧
      (Layout.mk 4 2 [⟨2, 2⟩, ⟨1, 2⟩]).Built ∧
      (Layout.mk 4 2 [⟨2, 2⟩, ⟨1, 2⟩]).passes = .ok passes ∧
      passes.map Pass.label = ["hierarchical_inclusive_scan reduce 0",
        "hierarchical_inclusive_scan reduce 1", "hierarchical_inclusive_scan expand 0"] ∧
      ∃ after : Store (BitVec 32), ∀ profiling timing, ∃ submission,
        hierarchical Operator.sum 9 { planeMin := 2, planeMax := 2, timing }
          { granularity := 2, cubeDim := 2, profiling } 4 ⟨4, 2, [⟨2, 2⟩, ⟨1, 2⟩]⟩
          ⟨#[1, 2, 3, 4], #[#[0, 0], #[0, 0]]⟩ = .ok submission ∧
        submission.result = .ok after ∧
        (submission.events.filterMap Event.record?).map (·.label) =
          if profiling && timing then passes.map Pass.label else [] := by
  obtain ⟨settings, haccept⟩ : ∃ settings, accept { planeMin := 2, planeMax := 2 }
      { granularity := 2, cubeDim := 2 } 4 ⟨4, 2, [⟨2, 2⟩, ⟨1, 2⟩]⟩ = .ok settings := ⟨_, rfl⟩
  have hbuilt : (Layout.mk 4 2 [⟨2, 2⟩, ⟨1, 2⟩]).Built := by
    unfold Layout.Built
    cbv
  obtain ⟨passes, after, hpasses, hruns⟩ := profiling_transparent haccept hbuilt
    Operator.sum (9 : BitVec 32) ⟨#[1, 2, 3, 4], #[#[0, 0], #[0, 0]]⟩
  refine ⟨settings, passes, haccept, hbuilt, hpasses, ?_, after, ?_⟩
  · have hthree : passes = [⟨.reduce, 0, 2⟩, ⟨.reduce, 1, 1⟩, ⟨.expand, 0, 1⟩] := by
      cases hpasses
      rfl
    subst hthree
    decide
  · intro profiling timing
    obtain ⟨submission, hscan, hresult, _, hlabels⟩ := hruns profiling timing
    exact ⟨submission, hscan, hresult, hlabels⟩

end Scan

end PrefixScan
