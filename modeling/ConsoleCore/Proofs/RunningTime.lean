import Mathlib.Data.Nat.Count
import Mathlib.Data.List.Induction
import ConsoleCore.Statistics

/-!
# The time of the runs

What the stopwatch shows can be told from the calls alone: it is the time during which the latest
start or stop was a start, in nanoseconds. The clock may stand still between calls, but never goes
back.
-/

namespace ConsoleCore

/-! ## Calls -/

inductive ClockCall
  | start
  | stop
  | retire (total : UInt64)
  | elapsed
  deriving DecidableEq, Repr

def ClockCall.sets? : ClockCall → Option Bool
  | start => some true
  | stop => some false
  | retire _ | elapsed => none

structure TimedCall where
  time : Nat
  call : ClockCall
  deriving DecidableEq, Repr

def running (calls : List TimedCall) : Bool :=
  (calls.filterMap (·.call.sets?)).getLast?.getD false

def runningAt (calls : List TimedCall) (u : Nat) : Bool :=
  running (calls.filter (·.time ≤ u))

/-- The nanoseconds up to `t` during which the latest start or stop was a start. -/
def runningTime (calls : List TimedCall) (t : Nat) : Nat :=
  Nat.count (fun u => runningAt calls u) t

namespace Statistics

def perform (s : Statistics) (c : TimedCall) : Statistics :=
  match c.call with
  | .start => s.start c.time
  | .stop => s.stop c.time
  | .retire total => s.retire total
  | .elapsed => s

def performAll (s : Statistics) (calls : List TimedCall) : Statistics :=
  calls.foldl perform s

theorem performAll_snoc (s : Statistics) (calls : List TimedCall) (c : TimedCall) :
    s.performAll (calls ++ [c]) = (s.performAll calls).perform c :=
  List.foldl_append

end Statistics

/-! ## Running time -/

variable {calls past future : List TimedCall} {t u : Nat}

theorem running_snoc (calls : List TimedCall) (c : TimedCall) :
    running (calls ++ [c]) = c.call.sets?.getD (running calls) := by
  unfold running
  rw [List.filterMap_append]
  cases h : c.call.sets? <;> simp [h]

theorem running_append_of_no_start (hstopped : running past = false)
    (hstart : ∀ c ∈ future, c.call ≠ .start) : running (past ++ future) = false := by
  induction future using List.reverseRecOn with
  | nil => rwa [List.append_nil]
  | append_singleton future c ih =>
    have hc : c.call ≠ .start := hstart c (by simp)
    have hfuture := ih fun d hd => hstart d (List.mem_append_left _ hd)
    rw [← List.append_assoc, running_snoc, hfuture]
    cases hcall : c.call with
    | start => exact absurd hcall hc
    | stop | retire | elapsed => rfl

theorem runningAt_of_past (h : ∀ c ∈ calls, c.time ≤ u) : runningAt calls u = running calls := by
  have hall : calls.filter (·.time ≤ u) = calls :=
    List.filter_eq_self.mpr fun c hc => decide_eq_true (h c hc)
  rw [runningAt, hall]

theorem runningAt_append (h : ∀ c ∈ future, u < c.time) :
    runningAt (past ++ future) u = runningAt past u := by
  have hnone : future.filter (·.time ≤ u) = [] :=
    List.filter_eq_nil_iff.mpr fun c hc => by simpa using h c hc
  rw [runningAt, List.filter_append, hnone, List.append_nil, runningAt]

theorem runningTime_append (h : ∀ c ∈ future, t ≤ c.time) :
    runningTime (past ++ future) t = runningTime past t := by
  induction t with
  | zero => rfl
  | succ t ih =>
    have hlate : ∀ c ∈ future, t < c.time := h
    have hbefore := ih fun c hc => Nat.le_of_lt (hlate c hc)
    unfold runningTime at hbefore ⊢
    rw [Nat.count_succ, Nat.count_succ, hbefore, runningAt_append hlate]

theorem runningTime_add (h : ∀ c ∈ calls, c.time ≤ t) (n : Nat) :
    runningTime calls (t + n) = runningTime calls t + if running calls then n else 0 := by
  have hlater (u : Nat) : runningAt calls (t + u) = running calls :=
    runningAt_of_past fun c hc => Nat.le_add_right_of_le (h c hc)
  unfold runningTime
  rw [Nat.count_add]
  simp only [hlater]
  cases running calls with
  | true => simp
  | false => simp

theorem runningTime_of_no_start (hpast : ∀ c ∈ past, c.time ≤ t) (hstopped : running past = false)
    (hstart : ∀ c ∈ future, c.call ≠ .start) (n : Nat) :
    runningTime (past ++ future) (t + n) = runningTime (past ++ future) t := by
  have hlater (u : Nat) : runningAt (past ++ future) (t + u) = false := by
    have hall : past.filter (·.time ≤ t + u) = past :=
      List.filter_eq_self.mpr fun c hc => decide_eq_true (Nat.le_add_right_of_le (hpast c hc))
    rw [runningAt, List.filter_append, hall]
    exact running_append_of_no_start hstopped fun c hc => hstart c (List.mem_of_mem_filter hc)
  unfold runningTime
  rw [Nat.count_add]
  simp [hlater]

/-! ## The stopwatch -/

namespace Statistics

variable {s : Statistics} {now : Nat}

/-- The stopwatch shows the running time of the calls, and it goes if their latest says so. -/
structure Follows (calls : List TimedCall) (now : Nat) (s : Statistics) : Prop where
  elapsed : s.elapsed now = runningTime calls now
  going : s.stopwatch.startedAt.isSome = running calls
  past : ∀ t, s.stopwatch.startedAt = some t → t ≤ now

theorem Follows.pass (h : Follows calls now s) (hcalls : ∀ c ∈ calls, c.time ≤ now) (n : Nat) :
    Follows calls (now + n) s where
  elapsed := by
    have hadd : s.elapsed (now + n) = _ := Stopwatch.elapsed_add h.past n
    rw [hadd, runningTime_add hcalls, ← h.going, ← h.elapsed]
    rfl
  going := h.going
  past t ht := Nat.le_add_right_of_le (h.past t ht)

theorem Follows.perform {c : TimedCall} (h : Follows calls c.time s) :
    Follows (calls ++ [c]) c.time (s.perform c) := by
  have htime : runningTime (calls ++ [c]) c.time = runningTime calls c.time :=
    runningTime_append fun d hd => by rw [List.mem_singleton.mp hd]
  have hshown : s.elapsed c.time = runningTime (calls ++ [c]) c.time := h.elapsed.trans htime.symm
  unfold Statistics.perform
  cases hcall : c.call with
  | start =>
    constructor
    case elapsed => exact (Stopwatch.elapsed_start _ _).trans hshown
    case going => rw [running_snoc, hcall]; rfl
    case past =>
      intro t ht
      cases hstarted : s.stopwatch.startedAt with
      | none =>
        simp only [start, Stopwatch.start, hstarted] at ht
        exact Nat.le_of_eq (Option.some.inj ht).symm
      | some t' =>
        simp only [start, Stopwatch.start, hstarted] at ht
        exact h.past t (hstarted.trans ht)
  | stop =>
    have hstopped : (s.stop c.time).stopwatch.startedAt = none := Stopwatch.startedAt_stop _ _
    constructor
    case elapsed => exact (Stopwatch.elapsed_stop _ _ _).trans hshown
    case going => rw [running_snoc, hcall, hstopped]; rfl
    case past => intro t ht; cases hstopped.symm.trans ht
  | retire total =>
    exact ⟨hshown, by rw [running_snoc, hcall]; exact h.going, h.past⟩
  | elapsed =>
    exact ⟨hshown, by rw [running_snoc, hcall]; exact h.going, h.past⟩

/-- From call to call time passes, and then the next one is made. -/
theorem follows_performAll (hsorted : calls.Pairwise (·.time ≤ ·.time))
    (hcalls : ∀ c ∈ calls, c.time ≤ now) : Follows calls now (({} : Statistics).performAll calls) := by
  induction calls using List.reverseRecOn generalizing now with
  | nil =>
    have hnew : Follows [] 0 {} := ⟨rfl, rfl, fun t ht => by cases ht⟩
    have hlater := hnew.pass (by simp) now
    rwa [Nat.zero_add] at hlater
  | append_singleton calls c ih =>
    obtain ⟨hbefore, -, hc⟩ := List.pairwise_append.mp hsorted
    have hle : ∀ d ∈ calls, d.time ≤ c.time := fun d hd => hc d hd c (List.mem_singleton_self c)
    have hnow : c.time ≤ now := hcalls c (by simp)
    obtain ⟨n, rfl⟩ := Nat.exists_eq_add_of_le hnow
    rw [performAll_snoc]
    refine (ih hbefore hle).perform.pass (fun d hd => ?_) n
    rcases List.mem_append.mp hd with hd | hd
    · exact hle d hd
    · rw [List.mem_singleton.mp hd]

theorem start_of_going (h : s.stopwatch.startedAt.isSome = true) (now : Nat) :
    s.start now = s := by
  obtain ⟨t, ht⟩ := Option.isSome_iff_exists.mp h
  unfold start Stopwatch.start
  rw [ht, Option.getD_some, ← ht]

theorem stop_of_stopped (h : s.stopwatch.startedAt.isSome = false) (now : Nat) :
    s.stop now = s := by
  have hnone : s.stopwatch.startedAt = none := by
    simpa only [Option.isSome_eq_false_iff, Option.isNone_iff_eq_none] using h
  unfold stop Stopwatch.stop
  rw [hnone]

/-- At any reading of the clock, what is shown is the time up to then during which the latest start
or stop was a start. -/
theorem elapsed_is_time_of_runs
    (hsorted : (past ++ future).Pairwise (·.time ≤ ·.time)) (hpast : ∀ c ∈ past, c.time ≤ t)
    (hfuture : ∀ c ∈ future, t ≤ c.time ∧ c.time ≤ u) (hle : t ≤ u) :
    let calls := past ++ future
    let s := ({} : Statistics).performAll past
    let s' := ({} : Statistics).performAll calls
    s.elapsed t = runningTime calls t ∧ s'.elapsed u = runningTime calls u ∧
    (running past = true → s.start t = s) ∧ (running past = false → s.stop t = s) ∧
    s.elapsed t ≤ s'.elapsed u ∧
    (running past = false → (∀ c ∈ future, c.call ≠ .start) → s'.elapsed u = s.elapsed t) := by
  intro calls s s'
  have hcalls : ∀ c ∈ calls, c.time ≤ u := by
    intro c hc
    rcases List.mem_append.mp hc with hc | hc
    · exact Nat.le_trans (hpast c hc) hle
    · exact (hfuture c hc).2
  have hs : Follows past t s := follows_performAll (List.pairwise_append.mp hsorted).1 hpast
  have hs' : Follows calls u s' := follows_performAll hsorted hcalls
  have hshown : s.elapsed t = runningTime calls t :=
    hs.elapsed.trans (runningTime_append fun c hc => (hfuture c hc).1).symm
  have hshown' : s'.elapsed u = runningTime calls u := hs'.elapsed
  refine ⟨hshown, hshown', fun hrun => start_of_going (hs.going.trans hrun) t,
    fun hstop => stop_of_stopped (hs.going.trans hstop) t, ?_, fun hstop hstart => ?_⟩
  · rw [hshown, hshown']
    exact Nat.count_monotone _ hle
  · obtain ⟨n, rfl⟩ := Nat.exists_eq_add_of_le hle
    rw [hshown, hshown']
    exact runningTime_of_no_start hpast hstop hstart n

theorem elapsed_of_two_runs :
    let past : List TimedCall :=
      [⟨2, .start⟩, ⟨4, .start⟩, ⟨6, .stop⟩, ⟨8, .stop⟩, ⟨10, .start⟩, ⟨13, .stop⟩]
    let future : List TimedCall := [⟨15, .retire 9⟩, ⟨16, .stop⟩, ⟨16, .elapsed⟩]
    let s := ({} : Statistics).performAll past
    (past ++ future).Pairwise (·.time ≤ ·.time) ∧
    s.elapsed 14 = 7 ∧ s.stop 14 = s ∧ (s.performAll future).elapsed 20 = 7 := by
  intro past future s
  have hsorted : (past ++ future).Pairwise (·.time ≤ ·.time) := by decide
  have h := elapsed_is_time_of_runs (t := 14) (u := 20) hsorted (by decide) (by decide) (by decide)
  obtain ⟨hshown, -, -, hstop, -, hsame⟩ := h
  have hlater := hsame rfl (by decide)
  exact ⟨hsorted, hshown, hstop rfl, hlater.trans hshown⟩

end Statistics

end ConsoleCore
