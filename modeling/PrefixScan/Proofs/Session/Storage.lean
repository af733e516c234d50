import PrefixScan.Session
import PrefixScan.Proofs.Scan.Accept
import PrefixScan.Proofs.Scan.Pass

/-!
# Storage of a session

No command gives a cascade other buffers than those that were allocated for its layout.  So in every
state that commands lead to, a cascade is one that the library built and has buffers of the lengths of
its levels, if it has any yet.

## Main results

* `Session.Sound.perform` — every command keeps the storage of cascades sound.
* `Session.Sound.foldl_perform` — so does every sequence of commands.
-/

namespace PrefixScan

open Cascade Scan

variable {α : Type} {session : Session α}

/-! ## Names -/

theorem Session.lookup_filter_ne {β : Type} {name other : String} (h : other ≠ name)
    (entries : List (String × β)) :
    (entries.filter (·.1 ≠ name)).lookup other = entries.lookup other := by
  induction entries with
  | nil => rfl
  | cons entry entries ih =>
      obtain ⟨key, value⟩ := entry
      by_cases hkey : key = name
      · have hne : (other == key) = false := by simp [hkey, h]
        rw [List.filter_cons_of_neg (by simp [hkey]), ih, List.lookup_cons, hne]
      · rw [List.filter_cons_of_pos (by simp [hkey]), List.lookup_cons, List.lookup_cons, ih]

/-- The last binding of a name is the one that is found. -/
theorem Session.lookup_bind {β : Type} (name other : String) (value : β)
    (entries : List (String × β)) :
    (Session.bind name value entries).lookup other =
      if other = name then some value else entries.lookup other := by
  by_cases h : other = name
  · simp [Session.bind, h]
  · have hne : (other == name) = false := by simpa using h
    rw [if_neg h, Session.bind, List.lookup_cons, hne]
    exact lookup_filter_ne h entries

/-! ## Sound cascades -/

/-- A cascade that the library built, with buffers of the lengths of its levels if it has any. -/
structure Slot.Sound (slot : Slot α) : Prop where
  built : slot.layout.Built
  stores : ∀ levels, slot.levels = some levels → slot.layout.Stores levels

/-- All cascades of a session are sound. -/
def Session.Sound (session : Session α) : Prop :=
  ∀ name slot, session.cascades.lookup name = some slot → slot.Sound

namespace Session

theorem stores_levelsOf {slot : Slot α} (h : slot.Sound) :
    slot.layout.Stores (session.levelsOf slot) := by
  unfold levelsOf
  cases hlevels : slot.levels with
  | none => exact slot.layout.stores_fresh session.fill
  | some levels => exact h.stores levels hlevels

theorem Sound.setBuffer (h : session.Sound) (name : String) (data : Array α) :
    (session.setBuffer name data).Sound := h

theorem Sound.setCascade (h : session.Sound) (name : String) {slot : Slot α} (hslot : slot.Sound) :
    (session.setCascade name slot).Sound := by
  intro other slot' hlookup
  rw [Session.setCascade, lookup_bind] at hlookup
  split at hlookup
  · cases hlookup
    exact hslot
  · exact h other slot' hlookup

theorem Sound.finish {β : Type} (h : session.Sound) {submission : Submission β}
    {next : β → Session α × Answer α}
    (hnext : ∀ x, submission.result = .ok x → (next x).1.Sound) :
    (session.finish submission next).1.Sound := by
  unfold Session.finish
  split
  · rename_i x hx
    exact hnext x hx
  · exact h

theorem Sound.attempt {β : Type} (h : session.Sound) {submission : Except Failure (Submission β)}
    {next : β → Session α × Answer α}
    (hnext : ∀ s x, submission = .ok s → s.result = .ok x → (next x).1.Sound) :
    (session.attempt submission next).1.Sound := by
  unfold Session.attempt
  split
  · rename_i s
    exact h.finish fun x => hnext s x rfl
  · exact h

/-- The storage of a cascade after its levels took part in passes. -/
theorem Sound.store (h : session.Sound) {buffer cascade : String} {slot : Slot α}
    (hslot : slot.Sound) {data : Array α} {after : Scan.Store α}
    (hsizes : SameSizes ⟨data, session.levelsOf slot⟩ after) :
    (session.store buffer cascade slot after).Sound := by
  apply (h.setBuffer buffer after.data).setCascade
  refine ⟨hslot.built, ?_⟩
  rintro _ ⟨⟩
  have hstores : slot.layout.Stores (session.levelsOf slot) := stores_levelsOf hslot
  refine ⟨hsizes.levels.trans hstores.1, ?_⟩
  intro k level hlevel
  exact (hsizes.sources (k + 1)).trans (hstores.2 k level hlevel)

/-! ## Commands -/

/-- An allocated cascade is one that the library built. -/
theorem Sound.allocate (h : session.Sound) (name : String) {layout : Submission Layout}
    (hlayout : ∀ l, layout.result = .ok l → l.Built) :
    (session.allocate name layout).1.Sound := by
  apply h.finish
  intro l hl
  apply h.setCascade
  refine ⟨?_, nofun⟩
  obtain ⟨l', hl', hl⟩ := Submission.result_bind_eq_ok.1 hl
  obtain ⟨_, _, hl⟩ := Submission.result_bind_eq_ok.1 hl
  cases hl
  exact hlayout l hl'

theorem built_of_ofConfig {length : Size} {config : Config} {layout : Submission Layout}
    (h : Layout.ofConfig length config = .ok layout) {l : Layout} (hl : layout.result = .ok l) :
    l.Built := by
  obtain ⟨_, _, h⟩ := bind_eq_ok.1 h
  cases h
  obtain ⟨l', hl', hl⟩ := Submission.result_bind_eq_ok.1 hl
  cases hl
  exact Layout.built_of_ofLength hl'

theorem findBuffer_eq_ok {name : String} {data : Array α} :
    session.findBuffer name = .ok data ↔ session.buffers.lookup name = some data := by
  unfold findBuffer
  cases session.buffers.lookup name <;> simp

theorem findCascade_eq_ok {name : String} {slot : Slot α} :
    session.findCascade name = .ok slot ↔ session.cascades.lookup name = some slot := by
  unfold findCascade
  cases session.cascades.lookup name <;> simp

variable [Inhabited α]

/-- The storage of a cascade after passes that succeeded. -/
theorem Sound.of_launch (h : session.Sound) {buffer cascade : String} {slot : Slot α}
    (hslot : session.findCascade cascade = .ok slot) {op : Operator α} {profiler : Profiler}
    {settings : Settings} {length : Size} {data : Array α} {x : Slot α × Scan.Store α}
    (hx : Submission.result (do
      let after ← Scan.launch op session.fill session.device profiler settings length slot.layout
        ⟨data, session.levelsOf slot⟩
      return (slot, after)) = .ok x) :
    (session.store buffer cascade x.1 x.2).Sound := by
  obtain ⟨after, hlaunch, hx⟩ := Submission.result_bind_eq_ok.1 hx
  cases hx
  exact h.store (h cascade slot (findCascade_eq_ok.1 hslot)) (launch_sizes hlaunch)

/-- Every command keeps the storage of cascades sound. -/
theorem Sound.perform (h : session.Sound) (command : Command α) :
    (session.perform command).1.Sound := by
  cases command with
  | buffer | read | settings | handleSizes | carries | validate | combine | survey | probe =>
      exact h
  | cascade name length config =>
      simp only [Session.perform]
      split
      · exact h
      · rename_i layout hlayout
        exact h.allocate name fun l => built_of_ofConfig hlayout
  | rawCascade name length granularity =>
      exact h.allocate name fun l hl => Layout.built_of_ofLength hl
  | scan buffer length cascade op config =>
      apply h.attempt
      intro s x hs hx
      obtain ⟨data, _, hs⟩ := bind_eq_ok.1 hs
      obtain ⟨slot, hslot, hs⟩ := bind_eq_ok.1 hs
      obtain ⟨settings, _, hs⟩ := bind_eq_ok.1 hs
      cases hs
      exact h.of_launch hslot hx
  | launch buffer cascade op config profiling =>
      apply h.attempt
      intro s x hs hx
      obtain ⟨settings, _, hs⟩ := bind_eq_ok.1 hs
      obtain ⟨data, _, hs⟩ := bind_eq_ok.1 hs
      obtain ⟨slot, hslot, hs⟩ := bind_eq_ok.1 hs
      cases hs
      exact h.of_launch hslot hx
  | blockScan buffer length op config =>
      exact h.attempt fun _ data _ _ => h.setBuffer buffer data
  | directScan buffer scope start range op config =>
      exact h.attempt fun _ data _ _ => h.setBuffer buffer data
  | submit label profiling => exact h.finish fun _ _ => h

/-- Whatever commands lead to, the storage of cascades is sound. -/
theorem Sound.foldl_perform (h : session.Sound) (commands : List (Command α)) :
    (commands.foldl (fun session command => (session.perform command).1) session).Sound := by
  induction commands generalizing session with
  | nil => exact h
  | cons command commands ih => exact ih (h.perform command)

end Session

end PrefixScan
