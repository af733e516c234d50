import Mathlib.Data.List.Nodup
import Mathlib.Logic.Function.Basic
import Mathlib.Logic.Relation

/-!
# Schedules

Threads make moves on a memory that they share.  The threads of a team have the same code, each makes its
own moves in it, and none goes on at a barrier before all of its team have come there.  Nothing else is
said about who is next: a schedule is any sequence of steps that keeps the barriers.

If moves that no barrier orders do not see each other, the memory does not depend on the schedule.  Two
threads that are both about to move have the same number of barriers behind them, so their moves are of
the same phase, and it does not matter who goes first.  Schedules that part at any step thus meet again.

## Main definitions

* `Machine`, `Machine.Advances`, `Machine.Reaches` — threads, their steps, and their schedules.
* `Machine.Independent` — no barrier is missing.

## Main results

* `Machine.lockstep`, `Machine.reaches_teams` — threads can run in turns, and teams one after the other.
* `Machine.Independent.reaches` — whatever was done so far, every other outcome is still ahead.
-/

namespace PrefixScan.Schedule

open Function (update)

variable {μ σ ι κ : Type}

/-! ## Code with barriers -/

/-- A round of the code of a team: each thread makes moves of its own, or all come to a barrier. -/
inductive Round (μ ι : Type)
  | moves (of : ι → List μ)
  | barrier

/-- What a thread does next. -/
inductive Step (μ : Type)
  | move (move : μ)
  | sync

namespace Round

/-- The moves of a thread in a round. -/
def movesOf (thread : ι) : Round μ ι → List μ
  | .moves of => of thread
  | .barrier => []

/-- The steps of a thread in a round. -/
def steps (thread : ι) : Round μ ι → List (Step μ)
  | .moves of => (of thread).map .move
  | .barrier => [.sync]

end Round

/-- Number of barriers in the code of a team. -/
def barriers : List (Round μ ι) → Nat
  | [] => 0
  | .moves _ :: rest => barriers rest
  | .barrier :: rest => barriers rest + 1

/-- The barriers that a thread still has to pass. -/
def syncs : List (Step μ) → Nat
  | [] => 0
  | .move _ :: rest => syncs rest
  | .sync :: rest => syncs rest + 1

/-- The barriers that a thread still has to come to: it has come to one that is next. -/
def unreached (rest : List (Step μ)) : Nat := syncs rest.tail

theorem unreached_le (rest : List (Step μ)) : unreached rest ≤ syncs rest := by
  rcases rest with _ | ⟨_ | _, rest⟩
  · exact Nat.le_refl 0
  · exact Nat.le_refl (syncs rest)
  · exact Nat.le_succ (syncs rest)

theorem syncs_append (before after : List (Step μ)) :
    syncs (before ++ after) = syncs before + syncs after := by
  induction before with
  | nil => exact (Nat.zero_add _).symm
  | cons step before ih =>
      cases step with
      | move => exact ih
      | sync => rw [List.cons_append, syncs, syncs, ih, Nat.add_right_comm]

theorem syncs_le_of_suffix {rest steps : List (Step μ)} (h : rest <:+ steps) :
    syncs rest ≤ syncs steps := by
  obtain ⟨done, rfl⟩ := h
  rw [syncs_append]
  exact Nat.le_add_left _ _

theorem syncs_move (moves : List μ) : syncs (moves.map Step.move) = 0 := by
  induction moves with
  | nil => rfl
  | cons _ _ ih => exact ih

theorem syncs_steps (thread : ι) (rounds : List (Round μ ι)) :
    syncs (rounds.flatMap (Round.steps thread)) = barriers rounds := by
  induction rounds with
  | nil => rfl
  | cons round rounds ih =>
      rw [List.flatMap_cons, syncs_append, ih]
      cases round with
      | moves of => rw [Round.steps, syncs_move, barriers, Nat.zero_add]
      | barrier => rw [Round.steps, barriers, syncs, syncs, Nat.add_comm]

theorem barriers_append (before after : List (Round μ ι)) :
    barriers (before ++ after) = barriers before + barriers after := by
  induction before with
  | nil => exact (Nat.zero_add _).symm
  | cons round before ih =>
      cases round with
      | moves => exact ih
      | barrier => rw [List.cons_append, barriers, barriers, ih, Nat.add_right_comm]

theorem barrier_not_mem {rounds : List (Round μ ι)} (h : barriers rounds = 0) :
    Round.barrier ∉ rounds := by
  induction rounds with
  | nil => exact List.not_mem_nil
  | cons round rounds ih =>
      cases round with
      | moves => simpa using ih h
      | barrier => cases h

/-! ## Machines -/

/-- Threads in teams, the code of each team, and what a move of a thread does to the memory. -/
structure Machine (μ σ ι κ : Type) where
  effect : ι → σ → μ → σ
  team : ι → κ
  code : κ → List (Round μ ι)

/-- The memory, and what each thread has left to do. -/
structure State (μ σ ι : Type) where
  memory : σ
  rest : ι → List (Step μ)

/-- Nothing is left to do. -/
def State.Done (state : State μ σ ι) : Prop := ∀ thread, state.rest thread = []

namespace Machine

variable (machine : Machine μ σ ι κ)

/-- The steps of a thread. -/
def thread (i : ι) : List (Step μ) := (machine.code (machine.team i)).flatMap (Round.steps i)

/-- Everything is left to do. -/
def start (memory : σ) : State μ σ ι := ⟨memory, machine.thread⟩

/-- The memory after a step of a thread. -/
def act (i : ι) (memory : σ) : Step μ → σ
  | .move move => machine.effect i memory move
  | .sync => memory

variable [DecidableEq ι]

/-- A thread takes its next step.  It passes a barrier only if all threads of its team have come to it. -/
inductive Advances (i : ι) (state : State μ σ ι) : State μ σ ι → Prop
  | step {step : Step μ} {rest : List (Step μ)} (next : state.rest i = step :: rest)
      (free : step = .sync → ∀ j, machine.team j = machine.team i →
        unreached (state.rest j) ≤ syncs rest) :
      Advances i state ⟨machine.act i state.memory step, update state.rest i rest⟩

/-- Some thread takes its next step. -/
def Steps (state next : State μ σ ι) : Prop := ∃ i, machine.Advances i state next

/-- A schedule leads from a state to another. -/
def Reaches : State μ σ ι → State μ σ ι → Prop := Relation.ReflTransGen machine.Steps

/-- The moves commute. -/
def Commute (i j : ι) (a b : μ) : Prop :=
  ∀ memory, machine.effect j (machine.effect i memory a) b =
    machine.effect i (machine.effect j memory b) a

/-- Moves that can come in either order commute: those of a team between two barriers, and those of
different teams. -/
structure Independent : Prop where
  within : ∀ i j, i ≠ j → machine.team i = machine.team j →
    ∀ phase, phase <:+: machine.code (machine.team i) → Round.barrier ∉ phase →
      ∀ a ∈ phase.flatMap (Round.movesOf i), ∀ b ∈ phase.flatMap (Round.movesOf j),
        machine.Commute i j a b
  across : ∀ i j, machine.team i ≠ machine.team j →
    ∀ a ∈ (machine.code (machine.team i)).flatMap (Round.movesOf i),
      ∀ b ∈ (machine.code (machine.team j)).flatMap (Round.movesOf j), machine.Commute i j a b

end Machine

/-! ## Phases -/

/-- What is left of a chain of lists starts in one of them. -/
theorem cons_suffix_flatMap {β γ : Type} {f : β → List γ} {l : List β} {x : γ} {rest : List γ}
    (h : x :: rest <:+ l.flatMap f) :
    ∃ before y after tail, l = before ++ y :: after ∧ x :: tail <:+ f y ∧
      rest = tail ++ after.flatMap f := by
  induction l with
  | nil => exact absurd (List.suffix_nil.1 h) (List.cons_ne_nil x rest)
  | cons y l ih =>
      have hsplit : x :: rest <:+ l.flatMap f ∨
          ∃ tail, x :: tail <:+ f y ∧ rest = tail ++ l.flatMap f := by
        obtain ⟨done, hdone⟩ := h
        rcases List.append_eq_append_iff.1 hdone with ⟨left, hy, hrest⟩ | ⟨left, _, hrest⟩
        · rcases left with _ | ⟨_, tail⟩
          · exact .inl ⟨[], hrest⟩
          · obtain ⟨rfl, rfl⟩ := List.cons_eq_cons.1 hrest
            exact .inr ⟨tail, ⟨done, hy.symm⟩, rfl⟩
        · exact .inl ⟨left, hrest.symm⟩
      rcases hsplit with hlater | ⟨tail, htail, rfl⟩
      · obtain ⟨before, found, after, tail, rfl, htail⟩ := ih hlater
        exact ⟨y :: before, found, after, tail, rfl, htail⟩
      · exact ⟨[], y, l, tail, rfl, htail, rfl⟩

/-- A move that a thread has still to make is of some round, and the barriers that the thread has to pass
after it are those behind the round. -/
theorem exists_round {i : ι} {rounds : List (Round μ ι)} {a : μ} {rest : List (Step μ)}
    (h : Step.move a :: rest <:+ rounds.flatMap (Round.steps i)) :
    ∃ before of after, rounds = before ++ Round.moves of :: after ∧ a ∈ of i ∧
      syncs rest = barriers after := by
  obtain ⟨before, round, after, tail, hrounds, htail, rfl⟩ := cons_suffix_flatMap h
  cases round with
  | barrier =>
      have hsync : Step.move a ∈ [Step.sync] := htail.subset List.mem_cons_self
      simp at hsync
  | moves of =>
      have hmove : Step.move a ∈ (of i).map Step.move := htail.subset List.mem_cons_self
      have hnone : syncs tail ≤ syncs ((of i).map Step.move) :=
        syncs_le_of_suffix ((List.suffix_cons (Step.move a) tail).trans htail)
      rw [syncs_move] at hnone
      refine ⟨before, of, after, hrounds, by simpa using hmove, ?_⟩
      rw [syncs_append, syncs_steps, Nat.le_zero.1 hnone, Nat.zero_add]

/-- Two rounds of moves with the same number of barriers behind them have no barrier between them. -/
theorem exists_phase_of_prefix {rounds before mid after after' : List (Round μ ι)}
    {of of' : ι → List μ} (hrounds : rounds = before ++ Round.moves of :: after)
    (hmid : Round.moves of :: after = mid ++ Round.moves of' :: after')
    (hcount : barriers after = barriers after') :
    ∃ phase, phase <:+: rounds ∧ Round.barrier ∉ phase ∧ Round.moves of ∈ phase ∧
      Round.moves of' ∈ phase := by
  rcases mid with _ | ⟨_, mid⟩
  · obtain ⟨hsame, _⟩ := List.cons_eq_cons.1 hmid
    refine ⟨[.moves of], ⟨before, after, by simp [hrounds]⟩, by simp, by simp, by simp [hsame]⟩
  · obtain ⟨rfl, rfl⟩ := List.cons_eq_cons.1 hmid
    have hfree : barriers mid = 0 := by
      rw [List.append_eq, barriers_append, barriers] at hcount
      omega
    refine ⟨.moves of :: mid ++ [.moves of'], ⟨before, after', by simp [hrounds]⟩, ?_, by simp,
      by simp⟩
    simpa using barrier_not_mem hfree

theorem exists_phase {rounds before before' after after' : List (Round μ ι)} {of of' : ι → List μ}
    (hrounds : rounds = before ++ Round.moves of :: after)
    (hrounds' : rounds = before' ++ Round.moves of' :: after')
    (hcount : barriers after = barriers after') :
    ∃ phase, phase <:+: rounds ∧ Round.barrier ∉ phase ∧ Round.moves of ∈ phase ∧
      Round.moves of' ∈ phase := by
  rcases List.append_eq_append_iff.1 (hrounds.symm.trans hrounds') with
    ⟨mid, _, hmid⟩ | ⟨mid, _, hmid⟩
  · exact exists_phase_of_prefix hrounds hmid hcount
  · obtain ⟨phase, hinfix, hfree, hmem', hmem⟩ :=
      exists_phase_of_prefix hrounds' hmid hcount.symm
    exact ⟨phase, hinfix, hfree, hmem, hmem'⟩

/-! ## Schedules that part meet again -/

namespace Machine

variable {machine : Machine μ σ ι κ} [DecidableEq ι] {memory : σ} {state next other : State μ σ ι}
  {i j : ι}

/-- What every schedule keeps: threads are somewhere in their code, and none has passed a barrier that
another of its team has still to come to. -/
structure Abreast (machine : Machine μ σ ι κ) (state : State μ σ ι) : Prop where
  rest : ∀ i, state.rest i <:+ machine.thread i
  team : ∀ i j, machine.team i = machine.team j → unreached (state.rest j) ≤ syncs (state.rest i)

omit [DecidableEq ι] in
theorem abreast_start (machine : Machine μ σ ι κ) (memory : σ) :
    Abreast machine (machine.start memory) := by
  refine ⟨fun i => List.suffix_refl _, ?_⟩
  intro i j hteam
  refine Nat.le_trans (unreached_le _) (Nat.le_of_eq ?_)
  show syncs (machine.thread j) = syncs (machine.thread i)
  rw [thread, thread, syncs_steps, syncs_steps, hteam]

theorem Advances.unreached_le (h : machine.Advances i state next) (j : ι) :
    unreached (next.rest j) ≤ unreached (state.rest j) := by
  obtain ⟨hnext, _⟩ := h
  show unreached (update state.rest i _ j) ≤ _
  by_cases hj : j = i
  · subst hj
    rw [Function.update_self, hnext]
    exact Schedule.unreached_le _
  · exact Nat.le_of_eq (congrArg unreached (Function.update_of_ne hj ..))

theorem Abreast.advances (habreast : Abreast machine state) (h : machine.Advances i state next) :
    Abreast machine next := by
  have hfewer := h.unreached_le
  obtain @⟨step, rest, hnext, hfree⟩ := h
  have hself := habreast.rest i
  rw [hnext] at hself
  refine ⟨?_, ?_⟩
  · intro k
    show update state.rest i rest k <:+ _
    by_cases hk : k = i
    · subst hk
      rw [Function.update_self]
      exact (List.suffix_cons step rest).trans hself
    · rw [Function.update_of_ne hk]
      exact habreast.rest k
  · intro k j hteam
    refine Nat.le_trans (hfewer j) ?_
    show _ ≤ syncs (update state.rest i rest k)
    by_cases hk : k = i
    · subst hk
      rw [Function.update_self]
      cases step with
      | move a =>
          have hbound := habreast.team k j hteam
          rwa [hnext] at hbound
      | sync => exact hfree rfl j hteam.symm
    · rw [Function.update_of_ne hk]
      exact habreast.team k j hteam

omit [DecidableEq ι] in
/-- Two threads that are about to move are of different teams or in the same phase. -/
theorem Independent.commute (hind : machine.Independent) (habreast : Abreast machine state)
    (hne : i ≠ j) {a b : μ} {rest rest' : List (Step μ)}
    (hi : state.rest i = .move a :: rest) (hj : state.rest j = .move b :: rest') :
    machine.Commute i j a b := by
  have hsuffix := habreast.rest i
  have hsuffix' := habreast.rest j
  rw [hi] at hsuffix
  rw [hj] at hsuffix'
  obtain ⟨before, of, after, hrounds, ha, hcount⟩ := exists_round hsuffix
  obtain ⟨before', of', after', hrounds', hb, hcount'⟩ := exists_round hsuffix'
  by_cases hteam : machine.team i = machine.team j
  · -- neither has passed a barrier that the other has still to come to
    have hle := habreast.team i j hteam
    have hge := habreast.team j i hteam.symm
    rw [hi, hj] at hle hge
    have hsame : barriers after = barriers after' :=
      hcount.symm.trans ((Nat.le_antisymm hge hle).trans hcount')
    rw [← hteam] at hrounds'
    obtain ⟨phase, hinfix, hfree, hmem, hmem'⟩ := exists_phase hrounds hrounds' hsame
    exact hind.within i j hne hteam phase hinfix hfree a (List.mem_flatMap.2 ⟨_, hmem, ha⟩) b
      (List.mem_flatMap.2 ⟨_, hmem', hb⟩)
  · refine hind.across i j hteam a (List.mem_flatMap.2 ⟨.moves of, ?_, ha⟩) b
      (List.mem_flatMap.2 ⟨.moves of', ?_, hb⟩)
    · rw [hrounds]
      exact List.mem_append_right before List.mem_cons_self
    · rw [hrounds']
      exact List.mem_append_right before' List.mem_cons_self

/-- A thread can still take its step after another has taken one. -/
theorem Advances.after (hne : i ≠ j) (hi : machine.Advances i state next) {step : Step μ}
    {rest : List (Step μ)} (hj : state.rest j = step :: rest)
    (hfree : step = .sync → ∀ k, machine.team k = machine.team j →
      unreached (state.rest k) ≤ syncs rest) :
    machine.Advances j next ⟨machine.act j next.memory step, update next.rest j rest⟩ := by
  have hfewer := hi.unreached_le
  obtain ⟨_, _⟩ := hi
  refine .step ?_ fun hsync k hk => Nat.le_trans (hfewer k) (hfree hsync k hk)
  show update state.rest i _ j = _
  rw [Function.update_of_ne hne.symm, hj]

/-- Two threads that can both take their next step can take it in either order. -/
theorem Independent.diamond (hind : machine.Independent) (habreast : Abreast machine state)
    (hne : i ≠ j) (hi : machine.Advances i state next) (hj : machine.Advances j state other) :
    ∃ meet, machine.Advances j next meet ∧ machine.Advances i other meet := by
  have hi' := hi
  have hj' := hj
  obtain @⟨x, rest, hx, hfree⟩ := hi
  obtain @⟨y, rest', hy, hfree'⟩ := hj
  have hmemory : machine.act j (machine.act i state.memory x) y =
      machine.act i (machine.act j state.memory y) x := by
    cases x with
    | sync => rfl
    | move a =>
        cases y with
        | sync => rfl
        | move b => exact hind.commute habreast hne hx hy state.memory
  refine ⟨_, hi'.after hne hy hfree', ?_⟩
  have hback := hj'.after hne.symm hx hfree
  rw [← hmemory, Function.update_comm hne.symm] at hback
  exact hback

theorem Advances.unique (hi : machine.Advances i state next) (hj : machine.Advances i state other) :
    next = other := by
  obtain ⟨hx, _⟩ := hi
  obtain ⟨hy, _⟩ := hj
  obtain ⟨rfl, rfl⟩ := List.cons_eq_cons.1 (hx.symm.trans hy)
  rfl

theorem Reaches.abreast (h : machine.Reaches state next) (habreast : Abreast machine state) :
    Abreast machine next := by
  induction h with
  | refl => exact habreast
  | tail _ hstep ih => exact ih.advances hstep.choose_spec

/-- Some thread takes its next step, from a state that a schedule can be in. -/
def Follows (machine : Machine μ σ ι κ) (state next : State μ σ ι) : Prop :=
  Abreast machine state ∧ machine.Steps state next

theorem Reaches.follows (h : machine.Reaches state next) (habreast : Abreast machine state) :
    Relation.ReflTransGen machine.Follows state next := by
  induction h with
  | refl => exact .refl
  | tail hreach hstep ih => exact ih.tail ⟨Reaches.abreast hreach habreast, hstep⟩

theorem reaches_of_follows (h : Relation.ReflTransGen machine.Follows state next) :
    machine.Reaches state next :=
  h.lift id fun _ _ hstep => hstep.2

/-- Steps that part meet again after one more step, or were the same. -/
theorem Independent.meet (hind : machine.Independent) (hnext : machine.Follows state next)
    (hother : machine.Follows state other) :
    ∃ meet, Relation.ReflGen machine.Follows next meet ∧
      Relation.ReflTransGen machine.Follows other meet := by
  obtain ⟨habreast, i, hi⟩ := hnext
  obtain ⟨_, j, hj⟩ := hother
  by_cases hij : i = j
  · subst hij
    exact ⟨next, .refl, hi.unique hj ▸ .refl⟩
  · obtain ⟨meet, hleft, hright⟩ := hind.diamond habreast hij hi hj
    exact ⟨meet, .single ⟨habreast.advances hi, j, hleft⟩,
      .single ⟨habreast.advances hj, i, hright⟩⟩

/-- Schedules that part meet again. -/
theorem Independent.join (hind : machine.Independent) (habreast : Abreast machine state)
    (hnext : machine.Reaches state next) (hother : machine.Reaches state other) :
    ∃ meet, machine.Reaches next meet ∧ machine.Reaches other meet := by
  obtain ⟨meet, hleft, hright⟩ := Relation.church_rosser (fun _ _ _ => hind.meet)
    (hnext.follows habreast) (hother.follows habreast)
  exact ⟨meet, reaches_of_follows hleft, reaches_of_follows hright⟩

theorem Reaches.eq_of_done (h : machine.Reaches state next) (hdone : state.Done) : state = next := by
  rcases Relation.ReflTransGen.cases_head h with rfl | ⟨_, ⟨i, hi⟩, _⟩
  · rfl
  · obtain ⟨hnext, _⟩ := hi
    rw [hdone i] at hnext
    cases hnext

/-- Wherever a schedule has got to, it can still come to the outcome of any other.  So no schedule is
stuck before that, and none has another outcome. -/
theorem Independent.reaches (hind : machine.Independent)
    (hstate : machine.Reaches (machine.start memory) state)
    (hnext : machine.Reaches (machine.start memory) next) (hdone : next.Done) :
    machine.Reaches state next := by
  obtain ⟨meet, hleft, hright⟩ := hind.join (abreast_start machine memory) hstate hnext
  rwa [← Reaches.eq_of_done hright hdone] at hleft

/-! ## Threads in turns -/

/-- The memory after threads took rounds in turns. -/
def inTurns (machine : Machine μ σ ι κ) (threads : List ι) (rounds : List (Round μ ι)) (memory : σ) : σ :=
  rounds.foldl (fun m round =>
    threads.foldl (fun m i => (round.movesOf i).foldl (machine.effect i) m) m) memory

/-- A thread makes several moves in a row. -/
theorem reaches_moves {moves : List μ} {rest : List (Step μ)}
    (h : state.rest i = moves.map .move ++ rest) :
    machine.Reaches state
      ⟨moves.foldl (machine.effect i) state.memory, update state.rest i rest⟩ := by
  induction moves generalizing state with
  | nil =>
      have hsame : update state.rest i rest = state.rest := Function.update_eq_self_iff.2 h.symm
      rw [hsame]
      exact .refl
  | cons a moves ih =>
      let after : State μ σ ι :=
        ⟨machine.effect i state.memory a, update state.rest i (moves.map .move ++ rest)⟩
      have hstep : machine.Steps state after := ⟨i, .step h nofun⟩
      have hrest : after.rest i = moves.map .move ++ rest := Function.update_self ..
      have hreach := ih hrest
      rw [show update after.rest i rest = update state.rest i rest from
        Function.update_idem ..] at hreach
      exact Relation.ReflTransGen.head hstep hreach

/-- The threads of a team take a round in turns. -/
theorem reaches_round {k : κ} {round : Round μ ι} {rest : ι → List (Step μ)} {n : Nat}
    (hsyncs : ∀ i, machine.team i = k → syncs (rest i) = n) (todo : List ι) (hnodup : todo.Nodup)
    (hteam : ∀ i ∈ todo, machine.team i = k)
    (hrest : ∀ i, machine.team i = k →
      state.rest i = (if i ∈ todo then round.steps i else []) ++ rest i) :
    ∃ after, machine.Reaches state
        ⟨todo.foldl (fun m i => (round.movesOf i).foldl (machine.effect i) m) state.memory, after⟩ ∧
      (∀ i, machine.team i = k → after i = rest i) ∧
      ∀ i, machine.team i ≠ k → after i = state.rest i := by
  induction todo generalizing state with
  | nil => exact ⟨state.rest, .refl, fun i hi => by simpa using hrest i hi, fun _ _ => rfl⟩
  | cons i todo ih =>
      obtain ⟨hfresh, hnodup⟩ := List.nodup_cons.1 hnodup
      have hi := hteam i List.mem_cons_self
      let next : State μ σ ι :=
        ⟨(round.movesOf i).foldl (machine.effect i) state.memory, update state.rest i (rest i)⟩
      have hself : state.rest i = round.steps i ++ rest i := by
        rw [hrest i hi, if_pos List.mem_cons_self]
      have hnext : machine.Reaches state next := by
        cases round with
        | moves of => exact reaches_moves hself
        | barrier =>
            refine Relation.ReflTransGen.single ⟨i, .step hself fun _ j hj => ?_⟩
            -- the others of the team are at this barrier or just past it
            show _ ≤ syncs (rest i)
            rw [hrest j (hj.trans hi), hsyncs i hi, ← hsyncs j (hj.trans hi)]
            split
            · exact Nat.le_refl _
            · exact unreached_le _
      have hleft : ∀ j, machine.team j = k →
          next.rest j = (if j ∈ todo then round.steps j else []) ++ rest j := by
        intro j hj
        show update state.rest i (rest i) j = _
        by_cases hij : j = i
        · subst hij
          rw [Function.update_self, if_neg hfresh, List.nil_append]
        · rw [Function.update_of_ne hij, hrest j hj]
          simp [hij]
      obtain ⟨after, hreach, hdone, hothers⟩ :=
        ih hnodup (fun j hj => hteam j (List.mem_cons_of_mem i hj)) hleft
      refine ⟨after, hnext.trans hreach, hdone, ?_⟩
      intro j hj
      have hij : j ≠ i := fun h => hj (h ▸ hi)
      rw [hothers j hj]
      exact Function.update_of_ne hij ..

/-- A team can run with its threads in turns at every round, whatever the other teams have done. -/
theorem lockstep {k : κ} {members : List ι} (hnodup : members.Nodup)
    (hmembers : ∀ i, i ∈ members ↔ machine.team i = k) {rounds : List (Round μ ι)}
    (hrest : ∀ i, machine.team i = k → state.rest i = rounds.flatMap (Round.steps i)) :
    ∃ after, machine.Reaches state ⟨machine.inTurns members rounds state.memory, after⟩ ∧
      (∀ i, machine.team i = k → after i = []) ∧
      ∀ i, machine.team i ≠ k → after i = state.rest i := by
  induction rounds generalizing state with
  | nil => exact ⟨state.rest, .refl, hrest, fun _ _ => rfl⟩
  | cons round rounds ih =>
      have hfirst : ∀ i, machine.team i = k → state.rest i =
          (if i ∈ members then round.steps i else []) ++ rounds.flatMap (Round.steps i) := by
        intro i hi
        rw [hrest i hi, if_pos ((hmembers i).2 hi), List.flatMap_cons]
      obtain ⟨between, hreach, hround, hothers⟩ := reaches_round
        (fun i _ => syncs_steps i rounds) members hnodup (fun i hi => (hmembers i).1 hi) hfirst
      obtain ⟨after, hreach', hdone, hothers'⟩ := @ih ⟨_, between⟩ hround
      exact ⟨after, hreach.trans hreach', hdone, fun i hi => (hothers' i hi).trans (hothers i hi)⟩

/-- Teams can run one after the other. -/
theorem reaches_teams {members : κ → List ι} (hnodup : ∀ k, (members k).Nodup)
    (hmembers : ∀ k i, i ∈ members k ↔ machine.team i = k) {order : List κ} (horder : order.Nodup)
    (hrest : ∀ i, machine.team i ∈ order → state.rest i = machine.thread i) :
    ∃ after, machine.Reaches state
        ⟨order.foldl (fun m k => machine.inTurns (members k) (machine.code k) m) state.memory,
          after⟩ ∧
      (∀ i, machine.team i ∈ order → after i = []) ∧
      ∀ i, machine.team i ∉ order → after i = state.rest i := by
  induction order generalizing state with
  | nil => exact ⟨state.rest, .refl, nofun, fun _ _ => rfl⟩
  | cons k order ih =>
      obtain ⟨hfresh, horder⟩ := List.nodup_cons.1 horder
      have hfirst : ∀ i, machine.team i = k →
          state.rest i = (machine.code k).flatMap (Round.steps i) := by
        rintro i rfl
        exact hrest i List.mem_cons_self
      obtain ⟨between, hreach, hdone, hothers⟩ := lockstep (hnodup k) (hmembers k) hfirst
      have hwait : ∀ i, machine.team i ∈ order → machine.team i ≠ k := fun i hi hsame =>
        hfresh (hsame ▸ hi)
      have hlater : ∀ i, machine.team i ∈ order → between i = machine.thread i := fun i hi =>
        (hothers i (hwait i hi)).trans (hrest i (List.mem_cons_of_mem k hi))
      obtain ⟨after, hreach', hdone', hothers'⟩ := @ih ⟨_, between⟩ horder hlater
      refine ⟨after, hreach.trans hreach', ?_, ?_⟩
      · intro i hi
        by_cases hlast : machine.team i ∈ order
        · exact hdone' i hlast
        · have hteam : machine.team i = k := (List.mem_cons.1 hi).resolve_right hlast
          exact (hothers' i hlast).trans (hdone i hteam)
      · intro i hi
        obtain ⟨hteam, hlast⟩ := not_or.1 fun h => hi (List.mem_cons.2 h)
        exact (hothers' i hlast).trans (hothers i hteam)

end Machine

end PrefixScan.Schedule
