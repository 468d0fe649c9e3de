import Mathlib.Data.List.Perm.Basic
import Potter.Lib.SharedCounter
import Potter.Utils.Arith

/-!
# Jobs on several threads

`runJobsMT` of `utils/MTStat.cpp`: one thread runs the jobs in order, several threads take the index
of their next job from a shared `int`. The durations it returns are not modelled.

Every thread that stops has taken an index of its own, so the shared index is counted past the number
of jobs by the number of threads. As long as it is still an `int` there, every order of the threads'
turns passes each job to `handle` once (`handled_perm`); otherwise it wraps around before all threads
have stopped and negative indices are passed to `handle` (`intMin_mem_handled`). The threads stop in
either case (`ThreadsRun.exists_allStopped`).
-/

namespace Potter

open Lib.SharedCounter

/-- The jobs of one thread. -/
def sequentialJobs (numJobs : Int) : List Int := (List.range numJobs.toNat).map fun i : Nat => (i : Int)

/-- The index after `globalJobIdx++`. -/
def nextJobIdx (globalJobIdx : Int) : Int := toInt32 (globalJobIdx + 1)

/-- The index that makes a thread leave its loop. -/
def NoJob (numJobs jobIdx : Int) : Prop := jobIdx ≥ numJobs

instance decidableNoJob (numJobs : Int) : DecidablePred (NoJob numJobs) := fun jobIdx =>
  inferInstanceAs (Decidable (jobIdx ≥ numJobs))

/-- One turn of a thread: it takes an index, or looks at the index it has taken. -/
def threadFunc {numThreads : Nat} (numJobs : Int) (s : State (Fin numThreads) Int)
    (threadIdx : Fin numThreads) : Option (State (Fin numThreads) Int) :=
  turn nextJobIdx (NoJob numJobs) s threadIdx

/-- The turns of the threads, in any order. -/
def ThreadsRun {numThreads : Nat} (numJobs : Int) (s s' : State (Fin numThreads) Int) : Prop :=
  Relation.ReflTransGen (fun s s' => ∃ threadIdx, threadFunc numJobs s threadIdx = some s') s s'

/-- What is passed to `handle`, in the order of the calls, when all threads have joined. -/
def RunJobsMT (numJobs numThreads_ : Int) (handled : List Int) : Prop :=
  let numThreads := min numJobs numThreads_
  if numThreads ≤ 1 then handled = sequentialJobs numJobs
  else ∃ s : State (Fin numThreads.toNat) Int,
    ThreadsRun numJobs (.start 0) s ∧ s.AllStopped ∧ handled = s.handled

/-- Each job once, and nothing else. -/
structure HandledOnce (numJobs : Int) (handled : List Int) : Prop where
  once : ∀ i, 0 ≤ i → i < numJobs → handled.count i = 1
  only : ∀ i ∈ handled, 0 ≤ i ∧ i < numJobs

section Sequential

variable {numJobs : Int}

theorem mem_sequentialJobs {i : Int} : i ∈ sequentialJobs numJobs ↔ 0 ≤ i ∧ i < numJobs := by
  unfold sequentialJobs
  rw [List.mem_map]
  constructor
  · rintro ⟨j, hj, rfl⟩
    have hlt := List.mem_range.1 hj
    omega
  · rintro ⟨h0, hlt⟩
    exact ⟨i.toNat, List.mem_range.2 (by omega), Int.toNat_of_nonneg h0⟩

theorem nodup_sequentialJobs : (sequentialJobs numJobs).Nodup :=
  List.nodup_range.map fun _ _ h => Int.ofNat.inj h

/-- What is handled once is what one thread handles, in another order. -/
theorem handledOnce_iff {handled : List Int} :
    HandledOnce numJobs handled ↔ handled.Perm (sequentialJobs numJobs) := by
  constructor
  · intro h
    rw [List.perm_iff_count]
    intro i
    rw [nodup_sequentialJobs.count]
    split
    · next hi =>
      obtain ⟨h0, hlt⟩ := mem_sequentialJobs.1 hi
      exact h.once i h0 hlt
    · next hi =>
      refine List.count_eq_zero_of_not_mem fun hmem => ?_
      exact hi (mem_sequentialJobs.2 (h.only i hmem))
  · intro h
    refine ⟨fun i h0 hlt => ?_, fun i hi => mem_sequentialJobs.1 (h.mem_iff.1 hi)⟩
    rw [h.count_eq, nodup_sequentialJobs.count, if_pos (mem_sequentialJobs.2 ⟨h0, hlt⟩)]

end Sequential

section Threads

variable {numJobs numThreads_ : Int}

/-- The indices the threads take. -/
theorem iterate_nextJobIdx (k : Nat) : nextJobIdx^[k] 0 = toInt32 k := by
  induction k with
  | zero => rfl
  | succ k ih =>
    rw [Function.iterate_succ_apply', ih]
    unfold nextJobIdx toInt32
    rw [Int.bmod_add_bmod, Nat.cast_succ]

theorem toInt32_natCast {k : Nat} (h : (k : Int) ≤ intMax) : toInt32 k = k := by
  refine toInt32_of_range ?_ h
  unfold intMin
  omega

/-- Up to `INT_MAX`, the indices that stop a thread are those past the jobs. -/
theorem ends_nextJobIdx (hn : 0 ≤ numJobs) {k : Nat} (hk : (k : Int) ≤ intMax + 1) :
    ends nextJobIdx (NoJob numJobs) 0 k = k - numJobs.toNat := by
  induction k with
  | zero => rw [ends, Nat.count_zero, Nat.zero_sub]
  | succ k ih =>
    rw [Nat.cast_succ, Int.add_le_add_iff_right] at hk
    rw [ends_succ, ih (by omega), iterate_nextJobIdx, toInt32_natCast hk]
    by_cases hpast : NoJob numJobs k
    · rw [over_of_past hpast]
      unfold NoJob at hpast
      omega
    · rw [over_of_not_past hpast]
      unfold NoJob at hpast
      omega

/-- The index comes back to the number of jobs again and again. -/
theorem infinite_stops (hn : 0 ≤ numJobs) (hmax : numJobs ≤ intMax) :
    Set.Infinite {k | NoJob numJobs (nextJobIdx^[k] 0)} := by
  refine Set.infinite_of_forall_exists_gt fun k => ?_
  refine ⟨numJobs.toNat + (k + 1) * 4294967296, ?_, by omega⟩
  show numJobs ≤ nextJobIdx^[numJobs.toNat + (k + 1) * 4294967296] 0
  have hidx : toInt32 (numJobs + (k + 1 : Nat) * (4294967296 : Nat)) = toInt32 numJobs :=
    Int.add_mul_bmod_self_right _ _ _
  have hrange : toInt32 numJobs = numJobs := toInt32_of_range (by unfold intMin; omega) hmax
  rw [iterate_nextJobIdx, Nat.cast_add, Nat.cast_mul, Int.toNat_of_nonneg hn, hidx, hrange]

/-- The indices up to the last that a thread takes, if they are all within an `int`. -/
theorem jobs_nextJobIdx (hn : 0 ≤ numJobs) {numThreads : Nat}
    (hfit : numJobs + numThreads ≤ intMax + 1) :
    jobs nextJobIdx (NoJob numJobs) 0 (numJobs.toNat + numThreads) =
      sequentialJobs numJobs := by
  have hidx : (List.range (numJobs.toNat + numThreads)).map (fun i => nextJobIdx^[i] 0) =
      (List.range (numJobs.toNat + numThreads)).map fun i : Nat => (i : Int) := by
    refine List.map_congr_left fun i hi => ?_
    have hlt := List.mem_range.1 hi
    rw [iterate_nextJobIdx, toInt32_natCast (by omega)]
  unfold jobs
  rw [hidx, List.range_add, List.map_append, List.filter_append]
  have hjobs : ∀ i ∈ sequentialJobs numJobs, decide (¬ NoJob numJobs i) = true := fun i hi =>
    decide_eq_true (not_le.2 (mem_sequentialJobs.1 hi).2)
  have hpast : ∀ i ∈ ((List.range numThreads).map (numJobs.toNat + ·)).map (fun i : Nat => (i : Int)),
      ¬ decide (¬ NoJob numJobs i) = true := by
    intro i hi
    rw [List.map_map] at hi
    obtain ⟨j, -, rfl⟩ := List.mem_map.1 hi
    rw [decide_eq_true_iff, not_not]
    show numJobs ≤ ((numJobs.toNat + j : Nat) : Int)
    omega
  rw [List.filter_eq_nil_iff.2 hpast, List.append_nil]
  exact List.filter_eq_self.2 hjobs

variable {numThreads : Nat} {s : State (Fin numThreads) Int}

/-- **Every order of the threads' turns handles the jobs of one thread**, if the shared index does
not leave the `int` range before it has been read for the last time. -/
theorem handled_perm (hn : 0 ≤ numJobs) (hthreads : 0 < numThreads)
    (hfit : numJobs + numThreads ≤ intMax + 1) (hrun : ThreadsRun numJobs (.start 0) s)
    (hstop : s.AllStopped) : s.handled.Perm (sequentialJobs numJobs) := by
  obtain ⟨k, hends, hneeded, hperm⟩ := Run.spec hrun hstop
  rw [Fintype.card_fin] at hends hneeded
  have hend : ends nextJobIdx (NoJob numJobs) 0 (numJobs.toNat + numThreads) =
      numThreads := by
    rw [ends_nextJobIdx hn (by omega), Nat.add_sub_cancel_left]
  -- every thread has taken one index past the jobs
  have hk : k = numJobs.toNat + numThreads := by
    rcases lt_trichotomy k (numJobs.toNat + numThreads) with hlt | heq | hgt
    · rw [ends_nextJobIdx hn (by omega)] at hends
      omega
    · exact heq
    · exact absurd hend (hneeded _ hgt).ne
  rwa [hk, jobs_nextJobIdx hn hfit] at hperm

/-- Otherwise some thread takes the index that follows `INT_MAX`. -/
theorem intMin_mem_handled (hn : 0 ≤ numJobs) (hmax : numJobs ≤ intMax)
    (hlt : intMax + 1 < numJobs + numThreads) (hrun : ThreadsRun numJobs (.start 0) s)
    (hstop : s.AllStopped) : intMin ∈ s.handled := by
  obtain ⟨k, hends, -, hperm⟩ := Run.spec hrun hstop
  rw [Fintype.card_fin] at hends
  have hk : 2147483648 < k := by
    by_contra hle
    rw [ends_nextJobIdx hn (by unfold intMax; omega)] at hends
    unfold intMax at hlt hmax
    omega
  rw [hperm.mem_iff]
  unfold jobs
  refine List.mem_filter.2 ⟨List.mem_map.2 ⟨2147483648, List.mem_range.2 hk, ?_⟩, ?_⟩
  · rw [iterate_nextJobIdx]
    rfl
  · refine decide_eq_true (not_le.2 (lt_of_lt_of_le ?_ hn))
    decide

/-- Every run of the threads ends. -/
theorem ThreadsRun.exists_allStopped (hn : 0 ≤ numJobs) (hmax : numJobs ≤ intMax)
    (hrun : ThreadsRun numJobs (.start 0) s) :
    ∃ s', ThreadsRun numJobs s s' ∧ s'.AllStopped :=
  Run.exists_stopped (infinite_stops hn hmax) hrun

theorem runJobsMT_sequential (h : min numJobs numThreads_ ≤ 1) {handled : List Int} :
    RunJobsMT numJobs numThreads_ handled ↔ handled = sequentialJobs numJobs := by
  unfold RunJobsMT
  rw [if_pos h]

theorem runJobsMT_threads (h : ¬ min numJobs numThreads_ ≤ 1) {handled : List Int} :
    RunJobsMT numJobs numThreads_ handled ↔
      ∃ s : State (Fin (min numJobs numThreads_).toNat) Int,
        ThreadsRun numJobs (.start 0) s ∧ s.AllStopped ∧ handled = s.handled := by
  unfold RunJobsMT
  rw [if_neg h]

/-- The threads all join in the end. -/
theorem exists_runJobsMT (hn : 0 ≤ numJobs) (hmax : numJobs ≤ intMax) :
    ∃ handled, RunJobsMT numJobs numThreads_ handled := by
  by_cases hone : min numJobs numThreads_ ≤ 1
  · exact ⟨_, (runJobsMT_sequential hone).2 rfl⟩
  · have hstart : ThreadsRun numJobs (.start 0)
        (.start 0 : State (Fin (min numJobs numThreads_).toNat) Int) := .refl
    obtain ⟨s, hrun, hstop⟩ := hstart.exists_allStopped hn hmax
    exact ⟨s.handled, (runJobsMT_threads hone).2 ⟨s, hrun, hstop, rfl⟩⟩

/-- The jobs of every call whose shared index stays in range. -/
theorem RunJobsMT.perm (hn : 0 ≤ numJobs)
    (hfit : min numJobs numThreads_ ≤ 1 ∨ numJobs + min numJobs numThreads_ ≤ intMax + 1)
    {handled : List Int} (h : RunJobsMT numJobs numThreads_ handled) :
    handled.Perm (sequentialJobs numJobs) := by
  by_cases hone : min numJobs numThreads_ ≤ 1
  · rw [(runJobsMT_sequential hone).1 h]
  · obtain ⟨s, hrun, hstop, rfl⟩ := (runJobsMT_threads hone).1 h
    have hfit := hfit.resolve_left hone
    exact handled_perm hn (by omega) (by omega) hrun hstop

/-- Several threads that count the shared index out of range. -/
theorem RunJobsMT.intMin_mem (hn : 0 ≤ numJobs) (hmax : numJobs ≤ intMax)
    (hone : ¬ min numJobs numThreads_ ≤ 1)
    (hfit : ¬ numJobs + min numJobs numThreads_ ≤ intMax + 1) {handled : List Int}
    (h : RunJobsMT numJobs numThreads_ handled) : intMin ∈ handled := by
  obtain ⟨s, hrun, hstop, rfl⟩ := (runJobsMT_threads hone).1 h
  exact intMin_mem_handled hn hmax (by omega) hrun hstop

/-- **Each job is passed to `handle` exactly once, as by one thread, in every order of the threads'
turns**, if and only if there are not several threads or the shared index is an `int` at its last
reading. -/
theorem runJobsMT_once_iff (hn : 0 ≤ numJobs) (hmax : numJobs ≤ intMax) :
    (∃ handled, RunJobsMT numJobs numThreads_ handled) ∧
    ((∀ handled, RunJobsMT numJobs numThreads_ handled → HandledOnce numJobs handled ∧
        ∀ handled', RunJobsMT numJobs 1 handled' → handled.Perm handled') ↔
      (min numJobs numThreads_ ≤ 1 ∨ numJobs + min numJobs numThreads_ ≤ intMax + 1)) := by
  have hexists : ∃ handled, RunJobsMT numJobs numThreads_ handled := exists_runJobsMT hn hmax
  refine ⟨hexists, ?_, ?_⟩
  · intro h
    by_contra hfit
    obtain ⟨hone, hlt⟩ := not_or.1 hfit
    obtain ⟨handled, hrun⟩ := hexists
    have hmem := (h handled hrun).1.only intMin (RunJobsMT.intMin_mem hn hmax hone hlt hrun)
    exact absurd hmem.1 (by decide)
  · intro hfit handled hrun
    have hperm := hrun.perm hn hfit
    refine ⟨handledOnce_iff.2 hperm, fun handled' hrun' => ?_⟩
    rw [(runJobsMT_sequential (min_le_right numJobs 1)).1 hrun']
    exact hperm

theorem runJobsMT_once_iff_ten_jobs : (∃ handled, RunJobsMT 10 4 handled) ∧
    ∀ handled, RunJobsMT 10 4 handled → HandledOnce 10 handled ∧
      ∀ handled', RunJobsMT 10 1 handled' → handled.Perm handled' := by
  refine (runJobsMT_once_iff (by decide) (by decide)).imp_right fun hiff => hiff.2 ?_
  exact .inr (by decide)

/-- Two threads for `INT_MAX` jobs: the second thread goes on from `INT_MIN`. -/
theorem runJobsMT_wraps_intMax : (∃ handled, RunJobsMT intMax 2 handled) ∧
    ∀ handled, RunJobsMT intMax 2 handled → intMin ∈ handled ∧ ¬ HandledOnce intMax handled := by
  refine ⟨exists_runJobsMT (by decide) le_rfl, fun handled h => ?_⟩
  have hmem : intMin ∈ handled := h.intMin_mem (by decide) le_rfl (by decide) (by decide)
  exact ⟨hmem, fun honce => absurd (honce.only intMin hmem).1 (by decide)⟩

end Threads

end Potter
