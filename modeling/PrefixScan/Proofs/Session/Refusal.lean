import PrefixScan.Proofs.Scan.Checks
import PrefixScan.Proofs.Scan.Trail
import PrefixScan.Proofs.Session.Storage

/-!
# Scans that are refused

A scan of a session either goes through all of its passes or does nothing at all.  What decides is the
first precondition that does not hold: no kernel starts before all of them are known to hold, and nothing
stops a scan after that.

## Main results

* `Session.scan_of_accept`, `Session.scan_of_refuse` — the effect of a scan after its checks.
* `Session.scan_done_iff_admissible` — which scans are carried out, and how the others are refused.
-/

namespace PrefixScan.Session

open Cascade Scan

variable {α : Type} [Inhabited α] {session : Session α} {buffer cascade : String}
variable {data : Array α} {slot : Slot α} {length : Size} (op : Operator α) {config : Config}

omit [Inhabited α] in
/-- Submitted work that succeeds is answered. -/
theorem outcome_finish {β : Type} {submission : Submission β} {next : β → Session α × Answer α}
    {x : β} (h : submission.result = .ok x) :
    (session.finish submission next).2.outcome = .ok (next x).2 := by
  simp only [finish, h]

section Scan

variable (hbuffer : session.buffers.lookup buffer = some data)
  (hcascade : session.cascades.lookup cascade = some slot)
include hbuffer hcascade

/-- An accepted scan submits the passes of its cascade. -/
theorem scan_of_accept {settings : Settings}
    (h : accept session.device config length slot.layout = .ok settings) :
    session.perform (.scan buffer length cascade op config) =
      session.finish
        (do
          let after ← Scan.launch op session.fill session.device ⟨config.profiling⟩ settings length
            slot.layout ⟨data, session.levelsOf slot⟩
          return (slot, after))
        fun (slot, after) => (session.store buffer cascade slot after, .done) := by
  simp only [perform, findBuffer_eq_ok.2 hbuffer, findCascade_eq_ok.2 hcascade]
  show session.attempt (checked (accept session.device config length slot.layout) >>= _) _ = _
  rw [h]
  rfl

/-- A scan that is not accepted has neither an effect nor a trail. -/
theorem scan_of_refuse {error : ScanError}
    (h : accept session.device config length slot.layout = .error error) :
    session.perform (.scan buffer length cascade op config) =
      (session, ⟨[], .error (.scan error)⟩) := by
  simp only [perform, findBuffer_eq_ok.2 hbuffer, findCascade_eq_ok.2 hcascade]
  show session.attempt (checked (accept session.device config length slot.layout) >>= _) _ = _
  rw [h]
  rfl

theorem outcome_scan_of_accept (hbuilt : slot.layout.Built) {settings : Settings}
    (h : accept session.device config length slot.layout = .ok settings) :
    (session.perform (.scan buffer length cascade op config)).2.outcome = .ok .done := by
  obtain ⟨after, hafter⟩ := launch_isOk op session.fill settings
    ((accepted_of_accept h).whole hbuilt) ⟨data, session.levelsOf slot⟩
  rw [scan_of_accept op hbuffer hcascade h]
  exact outcome_finish (Submission.result_bind_eq_ok.2 ⟨after, hafter _ _ _, rfl⟩)

/-- A scan is carried out if all of its preconditions hold.  Otherwise it is refused with the error of the
first that does not hold, and the session is the one before, with nothing in the trail. -/
theorem scan_done_iff_admissible {length' granularity' : Size}
    (hallocated : Layout.ofLength length' granularity' = .ok slot.layout) :
    ((session.perform (.scan buffer length cascade op config)).2.outcome = .ok .done ↔
      Admissible session.device config length slot.layout) ∧
    (¬Admissible session.device config length slot.layout →
      ∃ check, firstUnmet (checks session.device config length slot.layout) = some check ∧
        session.perform (.scan buffer length cascade op config) =
          (session, ⟨[], .error (.scan check.error)⟩)) := by
  have hbuilt := Layout.built_of_ofLength hallocated
  have hreports := accept_reports session.device config length hbuilt
  unfold Reports at hreports
  rw [admissible_iff]
  cases hunmet : firstUnmet (checks session.device config length slot.layout) with
  | none =>
      rw [hunmet] at hreports
      obtain ⟨settings, haccept⟩ := hreports
      have hdone := outcome_scan_of_accept op hbuffer hcascade hbuilt haccept
      exact ⟨⟨fun _ => rfl, fun _ => hdone⟩, fun hsome => absurd rfl hsome⟩
  | some check =>
      rw [hunmet] at hreports
      have hrefused := scan_of_refuse op hbuffer hcascade hreports
      rw [hrefused]
      exact ⟨⟨nofun, nofun⟩, fun _ => ⟨check, rfl, rfl⟩⟩

end Scan

/-- A cascade for eight elements scans eight, and is refused for four of them. -/
theorem scan_done_iff_admissible_eight :
    let layout : Layout := ⟨8, 2, [⟨4, 4⟩, ⟨2, 2⟩, ⟨1, 2⟩]⟩
    let config : Config := { granularity := 2, cubeDim := 2 }
    let session : Session (BitVec 32) :=
      { device := { planeMin := 2, planeMax := 2 }, elementSize := 4, fill := 9,
        buffers := [("a", #[1, 2, 3, 4, 5, 6, 7, 8])], cascades := [("c", ⟨layout, none⟩)] }
    (session.perform (.scan "a" 8 "c" Operator.sum config)).2.outcome = .ok .done ∧
      session.perform (.scan "a" 4 "c" Operator.sum config) =
        (session, ⟨[], .error (.scan (.cascadeMismatch (4, 2) (8, 2)))⟩) := by
  intro layout config session
  have hbuffer : session.buffers.lookup "a" = some #[1, 2, 3, 4, 5, 6, 7, 8] := rfl
  have hcascade : session.cascades.lookup "c" = some ⟨layout, none⟩ := rfl
  have hallocated : Layout.ofLength 8 2 = .ok layout := by cbv
  have hshort : Layout.ofLength 4 2 ≠ .ok layout := by
    have hfour : Layout.ofLength 4 2 = .ok ⟨4, 2, [⟨2, 2⟩, ⟨1, 2⟩]⟩ := by cbv
    rw [hfour]
    decide
  constructor
  · refine (scan_done_iff_admissible Operator.sum hbuffer hcascade hallocated).1.2 ?_
    exact ⟨rfl, rfl, by decide, by decide, by decide, by decide, hallocated⟩
  · have hinadmissible : ¬Admissible session.device config 4 layout := fun h => hshort h.cascade
    obtain ⟨check, hcheck, hrefused⟩ :=
      (scan_done_iff_admissible Operator.sum hbuffer hcascade hallocated).2 hinadmissible
    have hunmet : firstUnmet (checks session.device config 4 layout) =
        some (layoutCheck config 4 layout) := by
      have hmet : ∀ check ∈ deviceChecks session.device config ++ [lengthCheck config 4],
          check.holds = true := by decide
      have hlayout : (layoutCheck config 4 layout).holds = false := decide_eq_false hshort
      rw [checks, List.append_cons, firstUnmet_append, firstUnmet_eq_none.2 hmet, Option.none_or,
        firstUnmet, List.find?_cons, hlayout]
      rfl
    cases hcheck.symm.trans hunmet
    exact hrefused

end PrefixScan.Session
