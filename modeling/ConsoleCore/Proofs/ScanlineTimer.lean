import ConsoleCore.Proofs.Console.Turns
import ConsoleCore.Proofs.Hardware

/-!
# The order of the lines

Which line a tick reports depends on nothing but the number of ticks that were completed before. A
tick that faults reports a line, but is not one of them.
-/

namespace ConsoleCore

variable {σ ι α β : Type}

/-! ## The calls in a record -/

namespace Hook

variable (note : Registers → List (HookCall ι)) (b : Bus (Recorded σ ι))

theorem calls_recorded (h : Hook σ α) :
    (endState (h.recorded note b)).hardware.calls = b.hardware.calls ++ note b.registers := by
  unfold recorded
  rw [endState_viewed]
  rfl

theorem calls_recorded_waiting (h : Hook σ (Option (Hold σ))) :
    (endState ((do return (← h.recorded note).map holdRecorded :
        Hook (Recorded σ ι) (Option (Hold (Recorded σ ι)))) b)).hardware.calls =
      b.hardware.calls ++ note b.registers := by
  have hcalls := calls_recorded note b h
  cases hcall : h.recorded note b with
  | ok pending b' =>
    rw [hcall] at hcalls
    rw [bind_of_ok hcall]
    exact hcalls
  | error e b' =>
    rw [hcall] at hcalls
    rw [bind_of_error hcall]
    exact hcalls

end Hook

namespace Hardware

variable (hw : Hardware σ ι) (line : UInt32)

theorem writeScanline_recorded :
    hw.recorded.writeScanline line =
      (hw.writeScanline line).recorded fun _ => [.writeScanline line] := rfl

theorem withoutWaiting_pollScanline_recorded :
    Hook.withoutWaiting (hw.recorded.pollScanline line) =
      (Hook.withoutWaiting (hw.pollScanline line)).recorded fun _ => [.pollScanline line] :=
  Hook.withoutWaiting_recorded _ _

end Hardware

namespace ScanlineTimer

/-! ## The line counter -/

def lineAfter (k : Nat) : Fin scanlines := ⟨k % scanlines, Nat.mod_lt _ (by decide)⟩

theorem val_nextLine (line : Fin scanlines) : (nextLine line : Nat) = (line + 1) % scanlines := by
  unfold nextLine
  split
  · rename_i hlast
    rw [hlast, Nat.mod_self]
    rfl
  · rename_i hless
    exact (Nat.mod_eq_of_lt (Nat.lt_of_le_of_ne line.isLt hless)).symm

theorem nextLine_lineAfter (k : Nat) : nextLine (lineAfter k) = lineAfter (k + 1) := by
  apply Fin.ext
  rw [val_nextLine]
  exact Nat.mod_add_mod k scanlines 1

/-- Counts on in 32 bits, and starts over where the count is equal to the length of a frame. -/
def countOn (n : UInt32) : UInt32 :=
  if n + 1 = UInt32.ofNat scanlines then 0 else n + 1

theorem ofNat_nextLine (line : Fin scanlines) :
    UInt32.ofNat (nextLine line) = countOn (UInt32.ofNat line) := by
  have hcount : UInt32.ofNat line + 1 = UInt32.ofNat (line + 1) := (UInt32.ofNat_add _ 1).symm
  unfold nextLine countOn
  rw [hcount]
  split
  · rename_i hlast
    rw [hlast, if_pos rfl]
    rfl
  · rename_i hless
    have hlt : (line : Nat) < scanlines := line.isLt
    rw [if_neg]
    intro heq
    have hnat := congrArg UInt32.toNat heq
    simp only [scanlines, UInt32.toNat_ofNat'] at hnat hless hlt
    omega

/-- The comparison is never stepped over. -/
theorem countOn_repeat (k : Nat) : Nat.repeat countOn k 0 = UInt32.ofNat (lineAfter k) := by
  induction k with
  | zero => rfl
  | succ k ih => rw [Nat.repeat, ih, ← ofNat_nextLine, nextLine_lineAfter]

/-! ## Where a tick leaves the timer -/

section

variable {hw : Hardware σ ι} {t u : ScanlineTimer σ} {line : Fin scanlines} {period : Duration}

theorem endState_call (h : Hook σ α) (t : ScanlineTimer σ) :
    endState (call h t) = { t with toRig := endState (t.toRig.call h) } := by
  obtain ⟨rig, line, period⟩ := t
  simp only [call]
  cases rig.call h <;> rfl

def IsAt (line : Fin scanlines) (period : Duration) (t : ScanlineTimer σ) : Prop :=
  t.line = line ∧ t.period = period

theorem keeps_isAt_call (h : Hook σ α) : Keeps (IsAt line period) (call h) := by
  intro t ht
  rw [endState_call]
  exact ht

theorem IsAt.moveOn (h : t.IsAt line period) : t.moveOn.IsAt (nextLine line) period :=
  ⟨congrArg nextLine h.1, h.2⟩

theorem isAt_of_tick (h : tick hw t = .ok () u) : u.IsAt (nextLine t.line) t.period := by
  unfold tick at h
  rw [bind_of_ok (get_apply t)] at h
  obtain ⟨_, t₁, hwrite, h⟩ := bind_ok_iff.mp h
  obtain ⟨_, t₂, hpoll, h⟩ := bind_ok_iff.mp h
  cases h
  have h₁ : t₁.IsAt t.line t.period := (keeps_isAt_call _).of_ok ⟨rfl, rfl⟩ hwrite
  exact ((keeps_isAt_call _).of_ok h₁ hpoll).moveOn

theorem isAt_of_fault {e : Fault} (h : tick hw t = .error e u) : u.IsAt t.line t.period := by
  unfold tick at h
  rw [bind_of_ok (get_apply t)] at h
  rcases bind_error_iff.mp h with hwrite | ⟨_, t₁, hwrite, h⟩
  · exact (keeps_isAt_call _).of_error ⟨rfl, rfl⟩ hwrite
  have h₁ : t₁.IsAt t.line t.period := (keeps_isAt_call _).of_ok ⟨rfl, rfl⟩ hwrite
  rcases bind_error_iff.mp h with hpoll | ⟨_, t₂, hpoll, h⟩
  · exact (keeps_isAt_call _).of_error h₁ hpoll
  · cases h

theorem endState_tickCopy (hw : Hardware σ ι) (t : ScanlineTimer σ) :
    endState (tickCopy hw t) = { endState (tick hw t) with line := t.line } := by
  unfold tickCopy
  cases tick hw t <;> rfl

end

/-! ## What a tick asks of the hardware -/

variable (hw : Hardware σ ι)

/-- The calls of a tick, if none of them faults. -/
def report (line : Fin scanlines) : List (HookCall ι) :=
  [.writeScanline (UInt32.ofNat line), .pollScanline (UInt32.ofNat line)]

def callsMade (t : ScanlineTimer (Recorded σ ι)) : Nat :=
  if completes (call (hw.recorded.writeScanline (UInt32.ofNat t.line)) t) then 2 else 1

theorem calls_call {h : Hook (Recorded σ ι) α} {made : List (HookCall ι)}
    (hmade : ∀ b, (endState (h b)).hardware.calls = b.hardware.calls ++ made)
    (t : ScanlineTimer (Recorded σ ι)) :
    (endState (call h t)).hardware.calls = t.hardware.calls ++ made := by
  rw [endState_call, Rig.endState_call]
  exact hmade _

def HasCalls (calls : List (HookCall ι)) (t : ScanlineTimer (Recorded σ ι)) : Prop :=
  t.hardware.calls = calls

theorem keeps_hasCalls_moveOn (calls : List (HookCall ι)) :
    Keeps (HasCalls calls) (modify moveOn : Action (Recorded σ ι) Unit) :=
  fun _ ht => ht

theorem calls_of_report {poll : Hook (Recorded σ ι) α} {rest : α → Action (Recorded σ ι) β}
    (t : ScanlineTimer (Recorded σ ι))
    (hpoll : ∀ b, (endState (poll b)).hardware.calls =
      b.hardware.calls ++ [.pollScanline (UInt32.ofNat t.line)])
    (hrest : ∀ a calls, Keeps (HasCalls calls) (rest a)) :
    (endState ((call (hw.recorded.writeScanline (UInt32.ofNat t.line)) >>= fun _ =>
        call poll >>= rest) t)).hardware.calls =
      t.hardware.calls ++ (report t.line).take (callsMade hw t) := by
  have hwrite := calls_call (fun b => Hook.calls_recorded
    (fun _ => [.writeScanline (UInt32.ofNat t.line)]) b (hw.writeScanline (UInt32.ofNat t.line))) t
  rw [← Hardware.writeScanline_recorded] at hwrite
  unfold callsMade
  cases hcall : call (hw.recorded.writeScanline (UInt32.ofNat t.line)) t with
  | error e u =>
    rw [hcall] at hwrite
    rw [bind_of_error hcall]
    exact hwrite
  | ok _ u =>
    rw [hcall] at hwrite
    rw [bind_of_ok hcall]
    have hboth : HasCalls (t.hardware.calls ++ report t.line) (endState (call poll u)) := by
      have hu : u.hardware.calls = _ := hwrite
      unfold HasCalls
      rw [calls_call hpoll u, hu, List.append_assoc]
      rfl
    exact Keeps.after (fun a => hrest a _) hboth

theorem calls_tick (t : ScanlineTimer (Recorded σ ι)) :
    (endState (tick hw.recorded t)).hardware.calls =
      t.hardware.calls ++ (report t.line).take (callsMade hw t) := by
  refine calls_of_report hw t (fun b => ?_) fun _ _ => keeps_hasCalls_moveOn _
  rw [Hardware.withoutWaiting_pollScanline_recorded]
  exact Hook.calls_recorded _ b _

theorem calls_advance (t : ScanlineTimer (Recorded σ ι)) :
    (endState (advance hw.recorded t)).hardware.calls =
      t.hardware.calls ++ (report t.line).take (callsMade hw t) := by
  refine calls_of_report hw t (fun b => Hook.calls_recorded_waiting _ b _) fun pending _ => ?_
  cases pending with
  | none => exact (keeps_hasCalls_moveOn _).bind fun _ => Keeps.pure _
  | some hold => exact Keeps.pure _

theorem callsMade_of_write {t u : ScanlineTimer (Recorded σ ι)}
    (h : call (hw.recorded.writeScanline (UInt32.ofNat t.line)) t = .ok () u) :
    callsMade hw t = 2 := by
  unfold callsMade
  rw [h]
  rfl

theorem callsMade_of_tick {t u : ScanlineTimer (Recorded σ ι)}
    (h : tick hw.recorded t = .ok () u) : callsMade hw t = 2 := by
  unfold tick at h
  rw [bind_of_ok (get_apply t)] at h
  obtain ⟨_, t₁, hwrite, -⟩ := bind_ok_iff.mp h
  exact callsMade_of_write hw hwrite

/-! ## The record has no effect -/

def erased (t : ScanlineTimer (Recorded σ ι)) : ScanlineTimer σ :=
  ⟨⟨t.hardware.hardware, t.machine⟩, t.line, t.period⟩

theorem seenThrough_erased_call {h : Hook (Recorded σ ι) α} {h' : Hook σ α}
    (hh : SeenThrough (Bus.map Recorded.hardware) h h') :
    SeenThrough erased (call h) (call h') := by
  rintro ⟨⟨hardware, ⟨registers, powered, cycles, statistics⟩⟩, line, period⟩
  have hbus := hh ⟨hardware, registers, powered⟩
  simp only [Bus.map] at hbus
  simp only [erased, call, Rig.call, hbus]
  cases h ⟨hardware, registers, powered⟩ <;> rfl

theorem seenThrough_erased_tick : SeenThrough erased (tick hw.recorded) (tick hw) := by
  refine SeenThrough.get_bind fun t => ?_
  have hwrite : SeenThrough (Bus.map Recorded.hardware)
      (hw.recorded.writeScanline (UInt32.ofNat t.line)) (hw.writeScanline (UInt32.ofNat t.line)) := by
    rw [Hardware.writeScanline_recorded]
    exact Hook.seenThrough_hardware_recorded _ _
  have hpoll : SeenThrough (Bus.map Recorded.hardware)
      (Hook.withoutWaiting (hw.recorded.pollScanline (UInt32.ofNat t.line)))
      (Hook.withoutWaiting (hw.pollScanline (UInt32.ofNat t.line))) := by
    rw [Hardware.withoutWaiting_pollScanline_recorded]
    exact Hook.seenThrough_hardware_recorded _ _
  exact (seenThrough_erased_call hwrite).bind fun _ =>
    (seenThrough_erased_call hpoll).bind fun _ => SeenThrough.modify fun _ => rfl

/-! ## Ticks of a timer and of its copies -/

/-- A timer between its ticks, and how many of them it has completed. -/
structure Tallied where
  line : Fin scanlines
  period : Duration
  completed : Nat

namespace Tallied

def new (period : Duration) : Tallied := ⟨firstLine, period, 0⟩

def on (x : Tallied) (rig : Rig σ) : ScanlineTimer σ := ⟨rig, x.line, x.period⟩

def tick (rig : Rig σ) (x : Tallied) : Tallied :=
  let r := ScanlineTimer.tick hw (x.on rig)
  ⟨(endState r).line, (endState r).period, x.completed + (completes r).toNat⟩

end Tallied

/-- What can be done with a number of timers. Anything can happen to the rig between two ticks. -/
inductive Use (σ : Type) where
  | tick (timer : Nat) (rig : Rig σ)
  | copy (timer : Nat)

/-- A copy takes over the number of completed ticks. -/
def use (timers : List Tallied) : Use σ → List Tallied
  | .tick i rig => timers.modify i (Tallied.tick hw rig)
  | .copy i => timers ++ timers[i]?.toList

def useAll (timers : List Tallied) (uses : List (Use σ)) : List Tallied :=
  uses.foldl (use hw) timers

def Tallied.InOrder (period : Duration) (x : Tallied) : Prop :=
  x.line = lineAfter x.completed ∧ x.period = period

variable {hw} {period : Duration}

theorem Tallied.InOrder.tick {x : Tallied} (h : x.InOrder period) (rig : Rig σ) :
    (x.tick hw rig).InOrder period := by
  obtain ⟨hline, hperiod⟩ := h
  unfold Tallied.tick
  cases hr : ScanlineTimer.tick hw (x.on rig) with
  | ok _ u =>
    have hu : u.IsAt (nextLine x.line) x.period := isAt_of_tick hr
    rw [hline, nextLine_lineAfter, hperiod] at hu
    exact hu
  | error e u =>
    have hu : u.IsAt x.line x.period := isAt_of_fault hr
    rw [hline, hperiod] at hu
    exact hu

theorem inOrder_use {timers : List Tallied} (h : ∀ x ∈ timers, x.InOrder period) (a : Use σ) :
    ∀ x ∈ use hw timers a, x.InOrder period := by
  intro x hx
  cases a with
  | tick i rig =>
    obtain ⟨j, hj⟩ := List.mem_iff_getElem?.mp hx
    unfold use at hj
    rw [List.getElem?_modify] at hj
    obtain ⟨y, hy, rfl⟩ := Option.map_eq_some_iff.mp hj
    have hmem := h y (List.mem_of_getElem? hy)
    split
    · exact hmem.tick rig
    · exact hmem
  | copy i =>
    rcases List.mem_append.mp hx with hx | hx
    · exact h x hx
    · exact h x (List.mem_of_getElem? (Option.mem_toList.mp hx))

theorem inOrder_useAll {timers : List Tallied} (h : ∀ x ∈ timers, x.InOrder period)
    (uses : List (Use σ)) : ∀ x ∈ useAll hw timers uses, x.InOrder period := by
  induction uses generalizing timers with
  | nil => exact h
  | cons a uses ih => exact ih (inOrder_use h a)

/-! ## A run is a number of ticks -/

/-- All of `n` ticks are completed, and there is power before each of them. -/
structure PoweredTicks (hw : Hardware σ ι) (n : Nat) (t u : ScanlineTimer σ) : Prop where
  completed : ticks hw n t = .ok () u
  powered : ∀ k < n, (endState (ticks hw k t)).machine.powered = true

/-- How a run ends that stands at `u`, with `left` ticks to go at most. -/
inductive RunEnds (hw : Hardware σ ι) (u : ScanlineTimer σ) :
    Nat → EStateM.Result Fault (ScanlineTimer σ) (Option Message) → Prop where
  | powerOff {left : Nat} (off : u.machine.powered = false) :
      RunEnds hw u left (.ok (some (.scanlinesStopped u.line)) u)
  | outOfBudget (on : u.machine.powered = true) : RunEnds hw u 0 (.ok none u)
  | fault {left : Nat} {e : Fault} {v : ScanlineTimer σ} (on : u.machine.powered = true)
      (fault : tick hw u = .error e v) : RunEnds hw u (left + 1) (.error e v)

variable {t u v : ScanlineTimer σ} {n : Nat}

theorem PoweredTicks.none (hw : Hardware σ ι) (t : ScanlineTimer σ) : PoweredTicks hw 0 t t :=
  ⟨rfl, fun _ hk => absurd hk (Nat.not_lt_zero _)⟩

theorem PoweredTicks.cons (hon : t.machine.powered = true) (htick : tick hw t = .ok () u)
    (h : PoweredTicks hw n u v) : PoweredTicks hw (n + 1) t v where
  completed := (bind_of_ok htick).trans h.completed
  powered k hk := by
    cases k with
    | zero => exact hon
    | succ k =>
      have hnext : ticks hw (k + 1) t = ticks hw k u := bind_of_ok htick
      rw [hnext]
      exact h.powered k (Nat.lt_of_succ_lt_succ hk)

theorem run_of_off (hoff : t.machine.powered = false) (budget : Nat) :
    run hw budget t = .ok (some (.scanlinesStopped t.line)) t := by
  have hloop : tickWhilePowered hw budget t = .ok true t := by
    cases budget with
    | zero =>
      rw [tickWhilePowered, bind_of_ok (get_apply t), hoff]
      rfl
    | succ budget =>
      rw [tickWhilePowered, bind_of_ok (get_apply t), hoff]
      rfl
  unfold run
  rw [bind_of_ok hloop]
  rfl

theorem run_zero_of_on (hon : t.machine.powered = true) : run hw 0 t = .ok none t := by
  have hloop : tickWhilePowered hw 0 t = .ok false t := by
    rw [tickWhilePowered, bind_of_ok (get_apply t), hon]
    rfl
  unfold run
  rw [bind_of_ok hloop]
  rfl

theorem run_succ_of_on (hon : t.machine.powered = true) (budget : Nat) :
    run hw (budget + 1) t = (tick hw >>= fun _ => run hw budget) t := by
  have hloop : tickWhilePowered hw (budget + 1) t =
      (tick hw >>= fun _ => tickWhilePowered hw budget) t := by
    rw [tickWhilePowered, bind_of_ok (get_apply t), if_pos hon]
  unfold run
  cases htick : tick hw t with
  | ok _ u =>
    rw [bind_of_ok htick] at hloop ⊢
    simp only [bind, EStateM.bind, hloop]
  | error e u =>
    rw [bind_of_error htick] at hloop ⊢
    exact bind_of_error hloop

theorem run_spec (hw : Hardware σ ι) (budget : Nat) (t : ScanlineTimer σ) :
    ∃ n left u, budget = n + left ∧ PoweredTicks hw n t u ∧ RunEnds hw u left (run hw budget t) := by
  induction budget generalizing t with
  | zero =>
    refine ⟨0, 0, t, rfl, .none hw t, ?_⟩
    cases hpowered : t.machine.powered with
    | false => exact run_of_off hpowered 0 ▸ .powerOff hpowered
    | true => exact run_zero_of_on hpowered ▸ .outOfBudget hpowered
  | succ budget ih =>
    cases hpowered : t.machine.powered with
    | false =>
      refine ⟨0, budget + 1, t, (Nat.zero_add _).symm, .none hw t, ?_⟩
      exact run_of_off hpowered _ ▸ .powerOff hpowered
    | true =>
      rw [run_succ_of_on hpowered]
      cases htick : tick hw t with
      | error e u =>
        refine ⟨0, budget + 1, t, (Nat.zero_add _).symm, .none hw t, ?_⟩
        rw [bind_of_error htick]
        exact .fault hpowered htick
      | ok _ u =>
        obtain ⟨n, left, v, rfl, hticks, hends⟩ := ih u
        refine ⟨n + 1, left, v, by omega, hticks.cons hpowered htick, ?_⟩
        rw [bind_of_ok htick]
        exact hends

theorem ticks_recorded {t u : ScanlineTimer (Recorded σ ι)} {k : Nat}
    (h : ticks hw.recorded n t = .ok () u) (hline : t.line = lineAfter k) :
    u.line = lineAfter (k + n) ∧
      u.hardware.calls =
        t.hardware.calls ++ (List.range' k n).flatMap fun i => report (lineAfter i) := by
  induction n generalizing t k with
  | zero =>
    cases h
    exact ⟨hline, (List.append_nil _).symm⟩
  | succ n ih =>
    obtain ⟨_, t₁, htick, h⟩ := bind_ok_iff.mp h
    have hnext : t₁.line = lineAfter (k + 1) := by
      rw [(isAt_of_tick htick).1, hline, nextLine_lineAfter]
    have hcalls : t₁.hardware.calls = t.hardware.calls ++ report (lineAfter k) := by
      have hmade := calls_tick hw t
      rw [htick, callsMade_of_tick hw htick, hline] at hmade
      exact hmade
    obtain ⟨hline', hcalls'⟩ := ih h hnext
    refine ⟨by rw [hline', Nat.add_right_comm, Nat.add_assoc], ?_⟩
    rw [hcalls', hcalls, List.append_assoc]
    rfl

/-! ## After a number of completed ticks -/

structure TickFollows (hw : Hardware σ ι) (k : Nat) (t : ScanlineTimer (Recorded σ ι)) : Prop where
  /-- If the first call faults, the second is not made. -/
  calls : (endState (tick hw.recorded t)).hardware.calls =
    t.hardware.calls ++ (report (lineAfter k)).take (callsMade hw t)
  effect : tick hw t.erased = viewed erased (tick hw.recorded t)
  line : (endState (tick hw.recorded t)).line =
    lineAfter (if completes (tick hw.recorded t) then k + 1 else k)
  /-- A tick of a copy leaves the timer where it is. -/
  copy : endState (tickCopy hw.recorded t) =
    { endState (tick hw.recorded t) with line := lineAfter k }

theorem tickFollows (hw : Hardware σ ι) {k : Nat} {t : ScanlineTimer (Recorded σ ι)}
    (hline : t.line = lineAfter k) : TickFollows hw k t where
  calls := hline ▸ calls_tick hw t
  effect := seenThrough_erased_tick hw t
  line := by
    cases hr : tick hw.recorded t with
    | ok _ u =>
      have hu := (isAt_of_tick hr).1
      rw [hline, nextLine_lineAfter] at hu
      exact hu
    | error e u => exact (isAt_of_fault hr).1.trans hline
  copy := hline ▸ endState_tickCopy hw.recorded t

/-- A run after `k` completed ticks makes more of them, in order, and then ends. -/
def RunFollows (hw : Hardware σ ι) (k budget : Nat) (t : ScanlineTimer (Recorded σ ι)) : Prop :=
  ∃ n left u, budget = n + left ∧ PoweredTicks hw.recorded n t u ∧ u.line = lineAfter (k + n) ∧
    u.hardware.calls =
      t.hardware.calls ++ (List.range' k n).flatMap (fun i => report (lineAfter i)) ∧
    TickFollows hw (k + n) u ∧ RunEnds hw.recorded u left (run hw.recorded budget t)

theorem runFollows (hw : Hardware σ ι) {k : Nat} (budget : Nat)
    {t : ScanlineTimer (Recorded σ ι)} (hline : t.line = lineAfter k) : RunFollows hw k budget t := by
  obtain ⟨n, left, u, hbudget, hticks, hends⟩ := run_spec hw.recorded budget t
  obtain ⟨hline', hcalls⟩ := ticks_recorded hticks.completed hline
  exact ⟨n, left, u, hbudget, hticks, hline', hcalls, tickFollows hw hline', hends⟩

end ScanlineTimer

end ConsoleCore
