import ConsoleCore.Proofs.Processor.Stages
import ConsoleCore.Proofs.Processor.View

/-!
# The calls of an instruction

What a processor asks of its hardware, in order and with all that it hands over. An instruction
that is completed makes five calls. One that faults in a call makes none after that.
-/

namespace ConsoleCore.Processor

variable {σ ι α β : Type}

def recorded (calls : List (HookCall ι)) (p : Processor σ) : Processor (Recorded σ ι) :=
  p.seen (Recorded.withCalls calls) id

/-- The calls that an action makes from `p` on, also if it faults. -/
def callsOf (x : Action (Recorded σ ι) α) (p : Processor σ) : List (HookCall ι) :=
  (endState (x (p.recorded []))).hardware.calls

/-- The first action does what the second one does. It also keeps a record, and does not look at
what is in it. -/
structure Records (x : Action (Recorded σ ι) α) (y : Action σ α) : Prop where
  erased : SeenThrough (seen Recorded.hardware id) x y
  after : ∀ before, SeenThrough (seen (Recorded.after before) id) x x

variable {x : Action (Recorded σ ι) α} {y : Action σ α}

theorem Records.apply (h : Records x y) (before : List (HookCall ι)) (p : Processor σ) :
    x (p.recorded before) = viewed (recorded (before ++ callsOf x p)) (y p) := by
  have hbefore : (p.recorded []).seen (Recorded.after before) id = p.recorded before := by
    have hcalls : Recorded.after before ⟨p.hardware, []⟩ = ⟨p.hardware, before⟩ := by
      simp only [Recorded.after, List.append_nil]
    simp only [recorded, seen, Recorded.withCalls, hcalls, id]
  have herased : y p = viewed (seen Recorded.hardware id) (x (p.recorded [])) :=
    h.erased (p.recorded [])
  rw [← hbefore, h.after before, herased]
  unfold callsOf
  cases x (p.recorded []) <;> rfl

/-! ## One action after the other -/

theorem Records.bind {f : α → Action (Recorded σ ι) β} {g : α → Action σ β} (hx : Records x y)
    (hf : ∀ a, Records (f a) (g a)) : Records (x >>= f) (y >>= g) where
  erased := hx.erased.bind fun a => (hf a).erased
  after before := (hx.after before).bind fun a => (hf a).after before

theorem callsOf_bind {f : α → Action (Recorded σ ι) β} {g : α → Action σ β} (hx : Records x y)
    (hf : ∀ a, Records (f a) (g a)) (p : Processor σ) :
    callsOf (x >>= f) p = callsOf x p ++ match y p with
      | .ok a q => callsOf (f a) q
      | .error _ _ => [] := by
  have hrecorded := hx.apply [] p
  cases hy : y p with
  | ok a q =>
    rw [hy] at hrecorded
    have hrest := congrArg endState ((hf a).apply ([] ++ callsOf x p) q)
    rw [endState_viewed] at hrest
    unfold callsOf at hrest ⊢
    rw [bind_of_ok hrecorded]
    exact congrArg (·.hardware.calls) hrest
  | error e q =>
    rw [hy] at hrecorded
    rw [List.append_nil]
    unfold callsOf
    rw [bind_of_error hrecorded]
    exact congrArg (·.hardware.calls) (congrArg endState hrecorded).symm

theorem Records.read (view : Registers → β) {γ : Type} {f : β → Action (Recorded σ ι) γ}
    {g : β → Action σ γ} (hf : ∀ b, Records (f b) (g b)) :
    Records (do f (view (← get).registers)) (do g (view (← get).registers)) where
  erased := SeenThrough.get_bind fun _ => (hf _).erased
  after before := SeenThrough.get_bind fun _ => (hf _).after before

theorem callsOf_read (view : Registers → β) {γ : Type} (f : β → Action (Recorded σ ι) γ)
    (p : Processor σ) :
    callsOf (do f (view (← get).registers)) p = callsOf (f (view p.registers)) p := rfl

/-! ## The parts of an instruction -/

variable (hw : Hardware σ ι)

theorem records_call (note : Registers → List (HookCall ι)) (h : Hook σ α) :
    Records (call (h.recorded note)) (call h) where
  erased := seenThrough_call (Hook.seenThrough_hardware_recorded note h)
  after before := seenThrough_call (Hook.seenThrough_after_recorded note before h)

theorem callsOf_call (note : Registers → List (HookCall ι)) (h : Hook σ α) (p : Processor σ) :
    callsOf (call (h.recorded note)) p = note p.registers := by
  change (endState (call (h.recorded note) (p.recorded []))).toRig.hardware.calls = _
  rw [toRig_call, Rig.endState_call]
  unfold Hook.recorded
  rw [endState_viewed]
  rfl

theorem seen_readied {τ υ : Type} (view : τ → υ) (p : Processor τ) :
    readied (p.seen view id) = (readied p).seen view id :=
  seen_startOver (p.onRegisters Registers.clearZero)

theorem records_readied :
    Records (modify readied : Action (Recorded σ ι) PUnit) (modify readied) where
  erased := SeenThrough.modify (seen_readied _)
  after _ := SeenThrough.modify (seen_readied _)

theorem callsOf_readied (p : Processor σ) :
    callsOf (modify readied : Action (Recorded σ ι) PUnit) p = [] := by
  have hreadied : readied (p.recorded ([] : List (HookCall ι))) = (readied p).recorded [] :=
    seen_readied _ p
  unfold callsOf
  rw [modify_apply, hreadied]
  rfl

theorem records_retire (f : InFlight ι) : Records (retire hw.recorded f) (retire hw f) where
  erased := seenThrough_retire hw.seenThrough_hardware_recorded (fun _ _ => rfl) f
  after before := seenThrough_retire (hw.seenThrough_after_recorded before) (fun _ _ => rfl) f

theorem callsOf_retire (f : InFlight ι) (p : Processor σ) :
    callsOf (retire hw.recorded f) p = [.cycles f.instruction] := by
  unfold callsOf
  rw [retire_eq]
  split <;> rfl

/-! ## A whole instruction -/

theorem records_complete (f : InFlight ι) : Records (complete hw.recorded f) (complete hw f) := by
  unfold complete
  rw [Hardware.withoutWaiting_execute_recorded]
  exact (records_call _ _).bind fun _ => records_retire hw _

theorem callsOf_complete (f : InFlight ι) (p : Processor σ) :
    callsOf (complete hw.recorded f) p = .execute f.instruction p.registers ::
      match call (Hook.withoutWaiting (hw.execute f.instruction)) p with
      | .ok _ _ => [.cycles f.instruction]
      | .error _ _ => [] := by
  unfold complete
  rw [Hardware.withoutWaiting_execute_recorded,
    callsOf_bind (records_call _ _) fun _ => records_retire hw _, callsOf_call]
  simp only [callsOf_retire]
  cases call (Hook.withoutWaiting (hw.execute f.instruction)) p <;> rfl

theorem records_decodeAndComplete (opcode : UInt32) (delaySlot : Bool) :
    Records (decodeAndComplete hw.recorded opcode delaySlot)
      (decodeAndComplete hw opcode delaySlot) := by
  unfold decodeAndComplete
  rw [Hardware.decode_recorded]
  exact (records_call _ _).bind fun i =>
    Records.read (·.cop0 Cop0.wired) fun wired => records_complete hw ⟨i, wired⟩

theorem callsOf_decodeAndComplete (opcode : UInt32) (delaySlot : Bool) (p : Processor σ) :
    callsOf (decodeAndComplete hw.recorded opcode delaySlot) p = .decode opcode ⟨true, delaySlot⟩ ::
      match call (hw.decode opcode ⟨true, delaySlot⟩) p with
      | .ok i decoded =>
        callsOf (complete hw.recorded ⟨i, decoded.registers.cop0 Cop0.wired⟩) decoded
      | .error _ _ => [] := by
  have hwired (i : ι) (q : Processor σ) :
      callsOf (do complete hw.recorded ⟨i, (← get).registers.cop0 Cop0.wired⟩) q =
        callsOf (complete hw.recorded ⟨i, q.registers.cop0 Cop0.wired⟩) q :=
    callsOf_read (·.cop0 Cop0.wired) (fun wired => complete hw.recorded ⟨i, wired⟩) q
  unfold decodeAndComplete
  rw [Hardware.decode_recorded, callsOf_bind (records_call _ _) fun i =>
    Records.read (·.cop0 Cop0.wired) fun wired => records_complete hw ⟨i, wired⟩, callsOf_call]
  simp only [hwired]
  cases call (hw.decode opcode ⟨true, delaySlot⟩) p <;> rfl

theorem records_interpret (opcode : UInt32) (delaySlot : Bool) :
    Records (interpret hw.recorded opcode delaySlot) (interpret hw opcode delaySlot) := by
  rw [interpret_stages, interpret_stages, Hardware.poll_recorded]
  exact (records_call _ _).bind fun _ => records_readied.bind fun _ =>
    records_decodeAndComplete hw opcode delaySlot

theorem callsOf_interpret (opcode : UInt32) (delaySlot : Bool) (p : Processor σ) :
    callsOf (interpret hw.recorded opcode delaySlot) p = .poll delaySlot p.registers ::
      match call (hw.poll delaySlot) p with
      | .ok _ polled => callsOf (decodeAndComplete hw.recorded opcode delaySlot) (readied polled)
      | .error _ _ => [] := by
  have hrest := records_readied.bind fun _ => records_decodeAndComplete hw opcode delaySlot
  rw [interpret_stages, Hardware.poll_recorded,
    callsOf_bind (records_call _ _) fun _ => hrest, callsOf_call]
  simp only [callsOf_bind records_readied fun _ => records_decodeAndComplete hw opcode delaySlot,
    callsOf_readied, modify_apply]
  cases call (hw.poll delaySlot) p <;> rfl

theorem records_fetch : Records (fetch hw.recorded) (fetch hw) :=
  Records.read (·.pc.toUInt32) fun address =>
    records_call (fun _ => [.fetch address]) (hw.fetch address)

theorem callsOf_fetch (p : Processor σ) :
    callsOf (fetch hw.recorded) p = [.fetch p.registers.pc.toUInt32] :=
  callsOf_call (fun _ => [.fetch p.registers.pc.toUInt32]) _ p

theorem callsOf_step (p : Processor σ) :
    callsOf (step hw.recorded) p = .fetch p.registers.pc.toUInt32 ::
      match call (hw.fetch p.registers.pc.toUInt32) p with
      | .ok opcode fetched => callsOf (interpret hw.recorded opcode false) fetched
      | .error _ _ => [] := by
  have hfetch : fetch hw p = call (hw.fetch p.registers.pc.toUInt32) p := rfl
  unfold step
  rw [callsOf_bind (records_fetch hw) fun opcode => records_interpret hw opcode false,
    callsOf_fetch, hfetch]
  cases call (hw.fetch p.registers.pc.toUInt32) p <;> rfl

/-- What each call of a step takes over from the ones before it. -/
inductive StepCall (hw : Hardware σ ι) (p : Processor σ) : HookCall ι → Prop where
  | fetch : StepCall hw p (.fetch p.registers.pc.toUInt32)
  | poll {opcode : UInt32} {fetched : Processor σ}
      (hfetch : call (hw.fetch p.registers.pc.toUInt32) p = .ok opcode fetched) :
      StepCall hw p (.poll false fetched.registers)
  | decode {opcode : UInt32} {fetched polled : Processor σ}
      (hfetch : call (hw.fetch p.registers.pc.toUInt32) p = .ok opcode fetched)
      (hpoll : call (hw.poll false) fetched = .ok () polled) :
      StepCall hw p (.decode opcode ⟨true, false⟩)
  | execute {opcode : UInt32} {fetched polled decoded : Processor σ} {i : ι}
      (hfetch : call (hw.fetch p.registers.pc.toUInt32) p = .ok opcode fetched)
      (hpoll : call (hw.poll false) fetched = .ok () polled)
      (hdecode : call (hw.decode opcode ⟨true, false⟩) (readied polled) = .ok i decoded) :
      StepCall hw p (.execute i decoded.registers)
  | cycles (s : Stages hw p) : StepCall hw p (.cycles s.instruction)

theorem stepCall_of_mem {p : Processor σ} {c : HookCall ι} (h : c ∈ callsOf (step hw.recorded) p) :
    StepCall hw p c := by
  rw [callsOf_step] at h
  cases hfetch : call (hw.fetch p.registers.pc.toUInt32) p with
  | error e fetched =>
    rw [hfetch, List.mem_singleton] at h
    rw [h]
    exact .fetch
  | ok opcode fetched =>
    simp only [hfetch, callsOf_interpret, List.mem_cons] at h
    rcases h with rfl | rfl | h
    · exact .fetch
    · exact .poll hfetch
    cases hpoll : call (hw.poll false) fetched with
    | error e polled => simp only [hpoll, List.not_mem_nil] at h
    | ok _ polled =>
      simp only [hpoll, callsOf_decodeAndComplete, List.mem_cons] at h
      rcases h with rfl | h
      · exact .decode hfetch hpoll
      cases hdecode : call (hw.decode opcode ⟨true, false⟩) (readied polled) with
      | error e decoded => simp only [hdecode, List.not_mem_nil] at h
      | ok i decoded =>
        simp only [hdecode, callsOf_complete, List.mem_cons] at h
        rcases h with rfl | h
        · exact .execute hfetch hpoll hdecode
        cases hexecute : call (Hook.withoutWaiting (hw.execute i)) decoded with
        | error e executed => simp only [hexecute, List.not_mem_nil] at h
        | ok _ executed =>
          simp only [hexecute, List.mem_singleton] at h
          rw [h]
          exact .cycles
            ⟨opcode, i, fetched, polled, decoded, executed, hfetch, hpoll, hdecode, hexecute⟩

/-! ## A step that is completed -/

variable {hw} {p q : Processor σ}

def Stages.calls (s : Stages hw p) : List (HookCall ι) := [
  .fetch p.registers.pc.toUInt32,
  .poll false s.fetched.registers,
  .decode s.opcode ⟨true, false⟩,
  .execute s.instruction s.decoded.registers,
  .cycles s.instruction]

theorem Stages.callsOf_step (s : Stages hw p) : callsOf (step hw.recorded) p = s.calls := by
  simp only [Processor.callsOf_step, callsOf_interpret, callsOf_decodeAndComplete,
    callsOf_complete, s.fetch, s.poll, s.decode, s.execute, calls]

/-! ## Many steps -/

variable (hw)

theorem records_step : Records (step hw.recorded) (step hw) :=
  (records_fetch hw).bind fun opcode => records_interpret hw opcode false

theorem records_steps (n : Nat) : Records (steps hw.recorded n) (steps hw n) where
  erased := seenThrough_steps hw.seenThrough_hardware_recorded (fun _ _ => rfl) n
  after before := seenThrough_steps (hw.seenThrough_after_recorded before) (fun _ _ => rfl) n

theorem callsOf_steps_succ {n : Nat} (h : steps hw n p = .ok () q) :
    callsOf (steps hw.recorded (n + 1)) p =
      callsOf (steps hw.recorded n) p ++ callsOf (step hw.recorded) q := by
  rw [steps_succ, callsOf_bind (records_steps hw n) fun _ => records_step hw, h]

end ConsoleCore.Processor
