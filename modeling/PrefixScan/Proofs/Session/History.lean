import PrefixScan.Proofs.Session.Storage
import PrefixScan.Proofs.Scan.Inclusive

/-!
# Histories of scans

Cascades are scratch memory.  A sequence of scans may use them in any way, the same cascade for many
buffers and the same buffer with many cascades, and still each buffer ends up as if it had been scanned
alone.

## Main definitions

* `Session.Request` — a hierarchical scan that is asked for.
* `Session.verdict` — whether it is accepted.
* `Session.Request.effect` — what it does to its buffer.

## Main results

* `Session.submit_accepted`, `Session.submit_refused` — the session after one request.
* `Session.buffers_foldl_submit` — the buffers after any sequence of requests.
-/

namespace PrefixScan.Session

open Cascade Scan

variable {α : Type} [Inhabited α] {session : Session α}

/-- A hierarchical scan that is asked for. -/
structure Request (α : Type) where
  buffer : String
  length : Size
  cascade : String
  op : Operator α
  config : Config

/-- The session after a request. -/
def submit (session : Session α) (r : Request α) : Session α :=
  (session.perform (.scan r.buffer r.length r.cascade r.op r.config)).1

/-- The settings of a request that is accepted, or the failure of one that is not.  This depends on the
device and on the layouts of cascades, not on any content. -/
def verdict (session : Session α) (r : Request α) : Except Failure Settings := do
  let _ ← session.findBuffer r.buffer
  let slot ← session.findCascade r.cascade
  checked (accept session.device r.config r.length slot.layout)

/-- What a request does to the content of its buffer: the inclusive scan if it is accepted, else
nothing. -/
def effect (session : Session α) (r : Request α) (data : Array α) : Array α :=
  match session.verdict r with
  | .ok settings =>
    inclusive r.op settings.planeDim.toNat settings.granularity.toNat r.length.toNat data
  | .error _ => data

/-- If the request is accepted, its buffer is long enough and 32-bit positions reach it. -/
structure Reaches (session : Session α) (r : Request α) : Prop where
  data : ∀ data, session.buffers.lookup r.buffer = some data → r.length.toNat ≤ data.size
  reach : r.length.toNat ≤ 2 ^ 32
  fits : r.config.granularity.toNat + r.config.cubeDim.toNat ≤ 2 ^ 32

omit [Inhabited α] in
theorem verdict_eq_ok {r : Request α} {settings : Settings} :
    session.verdict r = .ok settings ↔
      ∃ data slot, session.findBuffer r.buffer = .ok data ∧
        session.findCascade r.cascade = .ok slot ∧
        accept session.device r.config r.length slot.layout = .ok settings := by
  have hchecked : ∀ result : Except ScanError Settings,
      checked result = .ok settings ↔ result = .ok settings := by
    intro result
    cases result <;> simp [checked, Except.mapError]
  simp only [verdict, bind_eq_ok, hchecked, exists_and_left]

omit [Inhabited α] in
theorem attempt_of_ne {β : Type} {submission : Except Failure (Submission β)}
    {next : β → Session α × Answer α} (h : ∀ s, submission ≠ .ok s) :
    (session.attempt submission next).1 = session := by
  cases submission with
  | error failure => rfl
  | ok s => exact absurd rfl (h s)

omit [Inhabited α] in
theorem attempt_of_ok {β : Type} {submission : Except Failure (Submission β)}
    {next : β → Session α × Answer α} {s : Submission β} {x : β} (hs : submission = .ok s)
    (hx : s.result = .ok x) : (session.attempt submission next).1 = (next x).1 := by
  subst hs
  simp only [attempt, finish, hx]

/-- A request that is not accepted changes nothing. -/
theorem submit_refused {r : Request α} {failure : Failure}
    (h : session.verdict r = .error failure) : session.submit r = session := by
  apply attempt_of_ne
  intro s hs
  obtain ⟨data, hdata, hs⟩ := bind_eq_ok.1 hs
  obtain ⟨slot, hslot, hs⟩ := bind_eq_ok.1 hs
  obtain ⟨settings, hchecked, _⟩ := bind_eq_ok.1 hs
  have hverdict : session.verdict r = .ok settings :=
    bind_eq_ok.2 ⟨data, hdata, bind_eq_ok.2 ⟨slot, hslot, hchecked⟩⟩
  rw [h] at hverdict
  cases hverdict

/-- A request that is accepted leaves its buffer with the inclusive scan and its cascade with some
content. -/
theorem submit_accepted (hsound : session.Sound) {r : Request α} (hreach : session.Reaches r)
    {settings : Settings} (h : session.verdict r = .ok settings) :
    ∃ data slot levels, session.buffers.lookup r.buffer = some data ∧
      session.cascades.lookup r.cascade = some slot ∧
      session.submit r =
        (session.setBuffer r.buffer (session.effect r data)).setCascade r.cascade
          ⟨slot.layout, some levels⟩ := by
  obtain ⟨data, slot, hdata, hslot, haccept⟩ := verdict_eq_ok.1 h
  have hlookup := findBuffer_eq_ok.1 hdata
  have hslot' := hsound _ _ (findCascade_eq_ok.1 hslot)
  have hready : Ready r.config r.length slot.layout ⟨data, session.levelsOf slot⟩ :=
    ⟨hslot'.built, stores_levelsOf hslot', hreach.data data hlookup, hreach.reach, hreach.fits⟩
  obtain ⟨after, hresult, hafter, _⟩ := launch_inclusive r.op session.fill hready haccept
  have haccepted := accepted_of_accept haccept
  have heffect : session.effect r data = after.data := by
    simp only [effect, h, hafter, haccepted.granularity, haccepted.planeDim]
  refine ⟨data, slot, after.levels, hlookup, findCascade_eq_ok.1 hslot, ?_⟩
  rw [heffect]
  have hchecked : checked (accept session.device r.config r.length slot.layout) = .ok settings := by
    rw [haccept]
    rfl
  refine attempt_of_ok (x := (slot, after)) (bind_eq_ok.2 ⟨data, hdata, bind_eq_ok.2
    ⟨slot, hslot, bind_eq_ok.2 ⟨settings, hchecked, rfl⟩⟩⟩) ?_
  exact Submission.result_bind_eq_ok.2 ⟨after, hresult, rfl⟩

/-! ## Sequences of requests -/

/-- Sessions that tell apart neither which requests are accepted nor what they reach: the device, the
sizes of buffers and the layouts of cascades are the same. -/
structure SameShape (session other : Session α) : Prop where
  device : other.device = session.device
  buffers : ∀ name,
    (other.buffers.lookup name).map Array.size = (session.buffers.lookup name).map Array.size
  layouts : ∀ name,
    (other.cascades.lookup name).map Slot.layout = (session.cascades.lookup name).map Slot.layout

omit [Inhabited α] in
theorem verdict_eq (session : Session α) (r : Request α) : session.verdict r =
    match session.buffers.lookup r.buffer with
    | none => .error (.noBuffer r.buffer)
    | some _ =>
      match (session.cascades.lookup r.cascade).map Slot.layout with
      | none => .error (.noCascade r.cascade)
      | some layout => checked (accept session.device r.config r.length layout) := by
  unfold verdict findBuffer findCascade
  cases session.buffers.lookup r.buffer with
  | none => rfl
  | some data => cases session.cascades.lookup r.cascade <;> rfl

omit [Inhabited α] in
theorem SameShape.verdict_eq {other : Session α} (h : SameShape session other) (r : Request α) :
    other.verdict r = session.verdict r := by
  have hbuffer := h.buffers r.buffer
  rw [Session.verdict_eq, Session.verdict_eq, h.device, h.layouts]
  cases hb : session.buffers.lookup r.buffer with
  | none =>
      rw [hb, Option.map_none, Option.map_eq_none_iff] at hbuffer
      rw [hbuffer]
  | some data =>
      rw [hb, Option.map_some] at hbuffer
      obtain ⟨data', hb', _⟩ := Option.map_eq_some_iff.1 hbuffer
      rw [hb']

theorem SameShape.effect_eq {other : Session α} (h : SameShape session other) (r : Request α) :
    other.effect r = session.effect r := by
  funext data
  rw [effect, effect, h.verdict_eq]

omit [Inhabited α] in
theorem SameShape.reaches {other : Session α} (h : SameShape session other) {r : Request α}
    (hreach : session.Reaches r) : other.Reaches r := by
  refine ⟨?_, hreach.reach, hreach.fits⟩
  intro data hdata
  have hsize := h.buffers r.buffer
  rw [hdata, Option.map_some] at hsize
  obtain ⟨data', hdata', hsame⟩ := Option.map_eq_some_iff.1 hsize.symm
  rw [← hsame]
  exact hreach.data data' hdata'

theorem size_effect (r : Request α) (data : Array α) : (session.effect r data).size = data.size := by
  unfold effect
  split
  · exact size_inclusive _ _ _ data
  · rfl

/-- What a request makes of every buffer, and that it keeps the shape of the session. -/
theorem submit_lookup (hsound : session.Sound) {r : Request α}
    (hreach : ∀ settings, session.verdict r = .ok settings → session.Reaches r) :
    (∀ name, (session.submit r).buffers.lookup name =
      if r.buffer = name then (session.buffers.lookup name).map (session.effect r)
      else session.buffers.lookup name) ∧
    SameShape session (session.submit r) := by
  cases hverdict : session.verdict r with
  | error failure =>
      have heffect : session.effect r = id := by
        funext data
        simp only [effect, hverdict, id]
      rw [submit_refused hverdict, heffect]
      exact ⟨fun name => by simp, rfl, fun _ => rfl, fun _ => rfl⟩
  | ok settings =>
      obtain ⟨data, slot, levels, hdata, hslot, hsubmit⟩ :=
        submit_accepted hsound (hreach settings hverdict) hverdict
      have hbuffers : ∀ name, (session.submit r).buffers.lookup name =
          if r.buffer = name then (session.buffers.lookup name).map (session.effect r)
          else session.buffers.lookup name := by
        intro name
        rw [hsubmit]
        show (Session.bind r.buffer _ session.buffers).lookup name = _
        rw [lookup_bind]
        by_cases hname : name = r.buffer
        · rw [if_pos hname, if_pos hname.symm, hname, hdata, Option.map_some]
        · rw [if_neg hname, if_neg fun h => hname h.symm]
      refine ⟨hbuffers, ?_, ?_, ?_⟩
      · rw [hsubmit]
        rfl
      · intro name
        rw [hbuffers]
        split
        · rw [Option.map_map]
          congr 1
          funext data
          exact size_effect r data
        · rfl
      · intro name
        rw [hsubmit]
        show ((Session.bind r.cascade _ session.cascades).lookup name).map Slot.layout = _
        rw [lookup_bind]
        split
        · rename_i hname
          rw [hname, hslot]
          rfl
        · rfl

/-- Each buffer ends up with the effects of the requests for it, one after the other. -/
theorem buffers_foldl_submit (hsound : session.Sound) {requests : List (Request α)}
    (hreach : ∀ r ∈ requests, ∀ settings, session.verdict r = .ok settings → session.Reaches r)
    (name : String) :
    (requests.foldl submit session).buffers.lookup name =
      (session.buffers.lookup name).map fun data =>
        (requests.filter (·.buffer = name)).foldl (fun data r => session.effect r data) data := by
  induction requests generalizing session with
  | nil => simp
  | cons r requests ih =>
      obtain ⟨hbuffers, hshape⟩ := submit_lookup hsound (hreach r (by simp))
      have hsound' : (session.submit r).Sound := hsound.perform _
      rw [List.foldl_cons, ih hsound', hbuffers]
      · simp only [hshape.effect_eq]
        by_cases hname : r.buffer = name
        · rw [if_pos hname, List.filter_cons_of_pos (by simpa using hname), Option.map_map]
          rfl
        · rw [if_neg hname, List.filter_cons_of_neg (by simpa using hname)]
      · intro r' hr' settings hverdict
        rw [hshape.verdict_eq] at hverdict
        exact hshape.reaches (hreach r' (by simp [hr']) settings hverdict)

/-- The buffers after a sequence of scans, accepted or not, in any order and with any cascades.  Each
buffer has gone through the inclusive scans that were accepted for it, one after the other.  Nothing
else matters: another session with the same device, buffers and layouts, but with other contents in its
cascades and in fresh memory, ends with the same buffers, and so does a sequence that interleaves the
requests for different buffers in another way. -/
theorem scans_independent_of_history (hsound : session.Sound) {requests : List (Request α)}
    (hreach : ∀ r ∈ requests, ∀ settings, session.verdict r = .ok settings → session.Reaches r) :
    (∀ name, (requests.foldl submit session).buffers.lookup name =
      (session.buffers.lookup name).map fun data =>
        (requests.filter (·.buffer = name)).foldl (fun data r => session.effect r data) data) ∧
    (∀ (other : Session α) (requests' : List (Request α)), other.Sound →
      other.device = session.device →
      (∀ name, other.buffers.lookup name = session.buffers.lookup name) →
      (∀ name, (other.cascades.lookup name).map Slot.layout =
        (session.cascades.lookup name).map Slot.layout) →
      (∀ name, requests'.filter (·.buffer = name) = requests.filter (·.buffer = name)) →
      ∀ name, (requests'.foldl submit other).buffers.lookup name =
        (requests.foldl submit session).buffers.lookup name) := by
  refine ⟨buffers_foldl_submit hsound hreach, ?_⟩
  intro other requests' hsound' hdevice hbuffers hlayouts hsame name
  have hshape : SameShape session other :=
    ⟨hdevice, fun name => by rw [hbuffers name], hlayouts⟩
  have hmem : ∀ r ∈ requests', r ∈ requests := by
    intro r hr
    have hr' : r ∈ requests'.filter (·.buffer = r.buffer) := by simp [hr]
    rw [hsame] at hr'
    exact (List.mem_filter.1 hr').1
  have hreach' : ∀ r ∈ requests', ∀ settings, other.verdict r = .ok settings → other.Reaches r := by
    intro r hr settings hverdict
    rw [hshape.verdict_eq] at hverdict
    exact hshape.reaches (hreach r (hmem r hr) settings hverdict)
  rw [buffers_foldl_submit hsound' hreach', buffers_foldl_submit hsound hreach, hbuffers, hsame]
  simp only [hshape.effect_eq]

/-- Two buffers take turns with one cascade; the third request is refused for its length. -/
theorem scans_independent_of_history_turns :
    let session : Session (BitVec 32) :=
      { device := { planeMin := 2, planeMax := 2 }, elementSize := 4, fill := 9,
        buffers := [("a", #[1, 2, 3, 4]), ("b", #[5, 6, 7, 8])],
        cascades := [("c", ⟨⟨4, 2, [⟨2, 2⟩, ⟨1, 2⟩]⟩, none⟩)] }
    let config : Config := { granularity := 2, cubeDim := 2 }
    let requests : List (Request (BitVec 32)) :=
      [⟨"b", 4, "c", Operator.sum, config⟩, ⟨"a", 4, "c", Operator.prod, config⟩,
        ⟨"a", 3, "c", Operator.sum, config⟩, ⟨"a", 4, "c", Operator.sum, config⟩]
    (requests.foldl submit session).buffers.lookup "a" = some #[1, 3, 9, 33] ∧
      (requests.foldl submit session).buffers.lookup "b" = some #[5, 11, 18, 26] := by
  intro session config requests
  have hsound : session.Sound := by
    intro name slot hlookup
    have hslot : slot = ⟨⟨4, 2, [⟨2, 2⟩, ⟨1, 2⟩]⟩, none⟩ := by
      simp only [session, List.lookup_cons, List.lookup_nil] at hlookup
      split at hlookup
      · cases hlookup
        rfl
      · cases hlookup
    subst hslot
    exact ⟨by unfold Layout.Built; cbv, nofun⟩
  have hreach : ∀ r ∈ requests, ∀ settings, session.verdict r = .ok settings → session.Reaches r := by
    intro r hr settings _
    have hsize : ∀ data, session.buffers.lookup r.buffer = some data → data.size = 4 := by
      intro data hlookup
      simp only [session, List.lookup_cons, List.lookup_nil] at hlookup
      split at hlookup
      · cases hlookup
        rfl
      · split at hlookup <;> cases hlookup
        rfl
    have hlength : r.length.toNat ≤ 4 ∧ r.config = config := by
      rcases List.mem_cons.1 hr with rfl | hr
      · exact ⟨by decide, rfl⟩
      · rcases List.mem_cons.1 hr with rfl | hr
        · exact ⟨by decide, rfl⟩
        · rcases List.mem_cons.1 hr with rfl | hr
          · exact ⟨by decide, rfl⟩
          · rw [List.mem_singleton.1 hr]
            exact ⟨by decide, rfl⟩
    refine ⟨fun data hdata => (hsize data hdata).symm ▸ hlength.1, by omega, ?_⟩
    rw [hlength.2]
    decide
  have hruns := (scans_independent_of_history hsound hreach).1
  rw [hruns, hruns]
  constructor
  · decide +kernel
  · decide +kernel

end PrefixScan.Session
