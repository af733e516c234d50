import PrefixScan.Profiler

/-!
# Results and trails of submissions

The result of a submission is that of its parts in order.  Neither the trail nor the profiler has a part
in it.  The trail of parts that succeed is their trails in order, and a profiler adds to each what it has to
report.

## Main definitions

* `Profiler.report` — what a profiler adds to the trail.

## Main results

* `Submission.result_bind_eq_ok` — a submission succeeds if all of its parts do.
* `Submission.bind_of_ok` — the trail of work after work that succeeded.
* `Profiler.submit_result` — profiling has no effect on a result.
* `Profiler.submit_of_ok` — the trail of profiled work.
-/

namespace PrefixScan

variable {ε β γ : Type}

/-- Work succeeds if its first part and what follows succeed. -/
theorem bind_eq_ok {first : Except ε β} {next : β → Except ε γ} {y : γ} :
    (first >>= next) = .ok y ↔ ∃ x, first = .ok x ∧ next x = .ok y := by
  cases first with
  | error e => exact ⟨nofun, nofun⟩
  | ok x => exact ⟨fun h => ⟨x, rfl, h⟩, fun ⟨_, rfl, h⟩ => h⟩

namespace Submission

theorem result_bind (first : Submission β) (next : β → Submission γ) :
    (first >>= next).result = first.result >>= fun x => (next x).result := by
  obtain ⟨events, result⟩ := first
  cases result <;> rfl

theorem result_bind_eq_ok {first : Submission β} {next : β → Submission γ} {y : γ} :
    (first >>= next).result = .ok y ↔ ∃ x, first.result = .ok x ∧ (next x).result = .ok y := by
  rw [result_bind, bind_eq_ok]

/-- Work after work that succeeded. -/
theorem bind_of_ok {first : Submission β} {next : β → Submission γ} {x : β}
    (h : first.result = .ok x) :
    (first >>= next) = ⟨first.events ++ (next x).events, (next x).result⟩ := by
  obtain ⟨events, result⟩ := first
  cases h
  rfl

theorem result_emit (event : Event) : (emit event).result = .ok () := rfl

end Submission

theorem Profiler.submit_result {σ : Type} (profiler : Profiler) (device : Device) (label : String)
    (work : σ → Submission σ) (state : σ) :
    (profiler.submit device label work state).result = (work state).result := by
  unfold Profiler.submit
  split
  · rw [Submission.result_bind]
    cases (work state).result with
    | error fault => rfl
    | ok after =>
        show (Submission.result _) = _
        split <;> rfl
  · rfl

/-- What a profiler adds to the trail of work that succeeded. -/
def Profiler.report (profiler : Profiler) (device : Device) (label : String) : List Event :=
  if profiler.enabled then
    [if device.timing then .profile (.ofSpan label .zero .zero) else .notice (.noTiming label)]
  else []

theorem Profiler.submit_of_ok {σ : Type} (profiler : Profiler) (device : Device) (label : String)
    {work : σ → Submission σ} {state after : σ} (h : (work state).result = .ok after) :
    profiler.submit device label work state =
      ⟨(work state).events ++ profiler.report device label, .ok after⟩ := by
  unfold Profiler.submit Profiler.report
  split
  · rw [Submission.bind_of_ok h]
    split <;> rfl
  · rw [List.append_nil, ← h]

end PrefixScan
