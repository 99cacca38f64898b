import ConsoleCore.Proofs.Processor.Launch

/-!
# Processors that agree

An instruction only looks at the registers and at a part of the hardware, its core, and not at
whether the power is on. So two processors that agree on these, and on what they have counted,
execute the same instruction to the same end. It does not matter if one of them waits in the
middle, as long as nobody touches what they agree on.
-/

namespace ConsoleCore

variable {ε σ ι κ α β γ δ : Type}

/-! ## Actions side by side -/

/-- From related states, if the first action comes to its end then so does the second one, and
answers and states are related again. -/
def Follows (S : σ → σ → Prop) (R : α → β → Prop) (x : EStateM ε σ α) (y : EStateM ε σ β) : Prop :=
  ∀ s t, S s t → ∀ a s', x s = .ok a s' → ∃ b t', y t = .ok b t' ∧ R a b ∧ S s' t'

variable {S : σ → σ → Prop}

theorem Follows.pure {R : α → β → Prop} {a : α} {b : β} (h : R a b) :
    Follows S R (Pure.pure a : EStateM ε σ α) (Pure.pure b) := by
  rintro s t hs _ _ ⟨⟩
  exact ⟨b, t, rfl, h, hs⟩

theorem Follows.get : Follows S S (MonadState.get : EStateM ε σ σ) MonadState.get := by
  rintro s t hs _ _ ⟨⟩
  exact ⟨t, t, rfl, hs, hs⟩

theorem Follows.modify {f : σ → σ} (h : ∀ s t, S s t → S (f s) (f t)) :
    Follows S Eq (modify f : EStateM ε σ PUnit) (modify f) := by
  rintro s t hs _ _ ⟨⟩
  exact ⟨⟨⟩, f t, rfl, rfl, h s t hs⟩

theorem Follows.bind {R : α → β → Prop} {Q : γ → δ → Prop} {x : EStateM ε σ α} {y : EStateM ε σ β}
    {f : α → EStateM ε σ γ} {g : β → EStateM ε σ δ} (hx : Follows S R x y)
    (hf : ∀ a b, R a b → Follows S Q (f a) (g b)) : Follows S Q (x >>= f) (y >>= g) := by
  intro s t hs c u h
  obtain ⟨a, s', hxs, hfs⟩ := bind_ok_iff.mp h
  obtain ⟨b, t', hyt, hab, hs'⟩ := hx s t hs a s' hxs
  obtain ⟨d, v, hgt, hcd, hv⟩ := hf a b hab s' t' hs' c u hfs
  exact ⟨d, v, bind_ok_iff.mpr ⟨b, t', hyt, hgt⟩, hcd, hv⟩

/-! ## Hooks that look at the core only -/

variable {core : σ → κ} {hw : Hardware σ ι}

structure Bus.Agree (core : σ → κ) (b b' : Bus σ) : Prop where
  hardware : core b.hardware = core b'.hardware
  registers : b.registers = b'.registers

abbrev Hook.Alike (core : σ → κ) (R : α → β → Prop) (h : Hook σ α) (h' : Hook σ β) : Prop :=
  Follows (Bus.Agree core) R h h'

inductive PendingAlike (core : σ → κ) : Option (Hold σ) → Option (Hold σ) → Prop where
  | ended : PendingAlike core none none
  | waits {hold hold' : Hold σ} (h : Hook.Alike core Eq hold.resume hold'.resume) :
      PendingAlike core (some hold) (some hold')

/-- What the processor asks of the hardware depends on the core and on the registers alone. -/
structure Hardware.LooksAt (hw : Hardware σ ι) (core : σ → κ) : Prop where
  readByte : ∀ s s', core s = core s' → ∀ a, hw.readByte s a = hw.readByte s' a
  fetch : ∀ address, Hook.Alike core Eq (hw.fetch address) (hw.fetch address)
  poll : ∀ delaySlot, Hook.Alike core Eq (hw.poll delaySlot) (hw.poll delaySlot)
  decode : ∀ opcode flags, Hook.Alike core Eq (hw.decode opcode flags) (hw.decode opcode flags)
  execute : ∀ i, Hook.Alike core (PendingAlike core) (hw.execute i) (hw.execute i)
  cycles : ∀ i s s', core s = core s' → (hw.cycles i s).1 = (hw.cycles i s').1 ∧
    core (hw.cycles i s).2 = core (hw.cycles i s').2

/-! ## Rigs and processors -/

structure Rig.Agree (core : σ → κ) (r r' : Rig σ) : Prop where
  hardware : core r.hardware = core r'.hardware
  registers : r.machine.registers = r'.machine.registers
  cycles : r.machine.cycles = r'.machine.cycles
  instructions : r.machine.statistics.instructions = r'.machine.statistics.instructions
  atLast : r.machine.statistics.cycles = r'.machine.statistics.cycles

theorem Rig.Agree.refl (r : Rig σ) : r.Agree core r := ⟨rfl, rfl, rfl, rfl, rfl⟩

theorem Rig.Agree.trans {r r' r'' : Rig σ} (h : r.Agree core r') (h' : r'.Agree core r'') :
    r.Agree core r'' where
  hardware := h.hardware.trans h'.hardware
  registers := h.registers.trans h'.registers
  cycles := h.cycles.trans h'.cycles
  instructions := h.instructions.trans h'.instructions
  atLast := h.atLast.trans h'.atLast

theorem Rig.Agree.bus {r r' : Rig σ} (h : r.Agree core r') : r.bus.Agree core r'.bus :=
  ⟨h.hardware, h.registers⟩

theorem Rig.Agree.afterCall {r r' : Rig σ} (h : r.Agree core r') {b b' : Bus σ}
    (hb : b.Agree core b') : (r.afterCall b).Agree core (r'.afterCall b') :=
  ⟨hb.hardware, hb.registers, h.cycles, h.instructions, h.atLast⟩

namespace Processor

structure Agree (core : σ → κ) (p q : Processor σ) : Prop where
  rig : p.toRig.Agree core q.toRig
  accumulator : p.accumulator = q.accumulator

theorem Agree.onRegisters {p q : Processor σ} (h : p.Agree core q) (f : Registers → Registers) :
    (p.onRegisters f).Agree core (q.onRegisters f) where
  rig := ⟨h.rig.hardware, congrArg f h.rig.registers, h.rig.cycles, h.rig.instructions,
    h.rig.atLast⟩
  accumulator := h.accumulator

theorem Agree.startOver {p q : Processor σ} (h : p.Agree core q) :
    p.startOver.Agree core q.startOver := by
  unfold Processor.startOver
  rw [h.accumulator]
  split
  · exact ⟨(h.onRegisters (·.setCop0 Cop0.count 0)).rig, rfl⟩
  · exact h

theorem follows_call {R : α → β → Prop} {h : Hook σ α} {h' : Hook σ β}
    (hh : Hook.Alike core R h h') : Follows (Agree core) R (call h) (call h') := by
  intro p q hpq a p' hcall
  obtain ⟨b, hb, rfl⟩ := call_ok_iff.mp hcall
  obtain ⟨a', b', hb', ha, hagree⟩ := hh _ _ hpq.rig.bus a b hb
  exact ⟨a', _, call_ok_iff.mpr ⟨b', hb', rfl⟩, ha, hpq.rig.afterCall hagree, hpq.accumulator⟩

/-! ## One instruction -/

def prepare (hw : Hardware σ ι) : Action σ (InFlight ι) := do dispatch hw (← fetch hw) false

theorem launch_eq (hw : Hardware σ ι) :
    launch hw = (do
      let f ← prepare hw
      let hold ← call (hw.execute f.instruction)
      return (f, hold)) := by
  simp only [launch, prepare, bind_assoc]

theorem execution_step_eq (hw : Hardware σ ι) :
    Call.step.execution hw = (do
      let f ← prepare hw
      call (Hook.withoutWaiting (hw.execute f.instruction))
      return f) := by
  simp only [Call.execution, execute, prepare, bind_assoc]

theorem follows_prepare (hhw : hw.LooksAt core) :
    Follows (Agree core) Eq (prepare hw) (prepare hw) := by
  have hfetch : Follows (Agree core) Eq (fetch hw) (fetch hw) :=
    Follows.get.bind fun p q hpq => by
      unfold Processor.registers
      rw [hpq.rig.registers]
      exact follows_call (hhw.fetch _)
  refine hfetch.bind ?_
  rintro opcode _ rfl
  refine (follows_call (hhw.poll false)).bind ?_
  rintro _ _ -
  refine (Follows.modify fun _ _ h => h.onRegisters _).bind ?_
  rintro _ _ -
  refine (Follows.modify fun _ _ h => h.startOver).bind ?_
  rintro _ _ -
  refine (follows_call (hhw.decode opcode _)).bind ?_
  rintro i _ rfl
  refine Follows.get.bind fun p q hpq => ?_
  unfold Processor.registers
  rw [hpq.rig.registers]
  exact Follows.pure rfl

theorem Agree.costOf_eq (hhw : hw.LooksAt core) {p q : Processor σ} (h : p.Agree core q)
    (f : InFlight ι) : costOf hw f p = costOf hw f q :=
  (hhw.cycles f.instruction _ _ h.rig.hardware).1

theorem Agree.hasRoom (hhw : hw.LooksAt core) {p q : Processor σ} (h : p.Agree core q)
    {f : InFlight ι} (room : HasRoom hw f p) : HasRoom hw f q := by
  unfold HasRoom at room ⊢
  rwa [← h.costOf_eq hhw, ← h.accumulator]

theorem Agree.retired (hhw : hw.LooksAt core) {p q : Processor σ} (h : p.Agree core q)
    (f : InFlight ι) : (retired hw f p).Agree core (retired hw f q) := by
  have hcost := h.costOf_eq hhw f
  have htotal : p.machine.cycles + costOf hw f p = q.machine.cycles + costOf hw f q := by
    rw [hcost, h.rig.cycles]
  have haccumulator : p.accumulator + costOf hw f p = q.accumulator + costOf hw f q := by
    rw [hcost, h.accumulator]
  refine ⟨⟨(hhw.cycles f.instruction _ _ h.rig.hardware).2, ?_, htotal, ?_, htotal⟩, haccumulator⟩
  · change updateTimers (p.accumulator + costOf hw f p) f.wired p.machine.registers =
      updateTimers (q.accumulator + costOf hw f q) f.wired q.machine.registers
    rw [haccumulator, h.rig.registers]
  · exact congrArg (· + 1) h.rig.instructions

/-! ## An instruction that waits -/

/-- `p` waits in the middle of an instruction, and `q` has not begun the same one. -/
def Waits (hw : Hardware σ ι) (core : σ → κ) (p : Processor σ) (f : InFlight ι) (hold : Hold σ)
    (q : Processor σ) : Prop :=
  ∃ q₁ b hold', prepare hw q = .ok f q₁ ∧
    hw.execute f.instruction q₁.toRig.bus = .ok (some hold') b ∧
    Hook.Alike core Eq hold.resume hold'.resume ∧
    p.Agree core ⟨q₁.toRig.afterCall b, q₁.accumulator⟩

variable {p p' q : Processor σ} {f : InFlight ι} {hold : Hold σ}

theorem Waits.congr (h : Waits hw core p f hold q) (hrig : p'.toRig.Agree core p.toRig)
    (haccumulator : p'.accumulator = p.accumulator) : Waits hw core p' f hold q := by
  obtain ⟨q₁, b, hold', hprepare, hexecute, hresume, hagree⟩ := h
  exact ⟨q₁, b, hold', hprepare, hexecute, hresume, hrig.trans hagree.rig,
    haccumulator.trans hagree.accumulator⟩

theorem Agree.launch (hhw : hw.LooksAt core) (h : p.Agree core q) {pending : Option (Hold σ)}
    (hlaunch : launch hw p = .ok (f, pending) p') :
    ∃ q₁ b pending', prepare hw q = .ok f q₁ ∧
      hw.execute f.instruction q₁.toRig.bus = .ok pending' b ∧
      PendingAlike core pending pending' ∧
      p'.Agree core ⟨q₁.toRig.afterCall b, q₁.accumulator⟩ := by
  rw [launch_eq] at hlaunch
  obtain ⟨g, p₁, hprepare, hrest⟩ := bind_ok_iff.mp hlaunch
  obtain ⟨hold, p₂, hcall, hpure⟩ := bind_ok_iff.mp hrest
  cases hpure
  obtain ⟨_, q₁, hprepare', rfl, hagree⟩ := follows_prepare hhw p q h f p₁ hprepare
  obtain ⟨b, hexecute, rfl⟩ := call_ok_iff.mp hcall
  obtain ⟨pending', b', hexecute', hpending, hbus⟩ := hhw.execute _ _ _ hagree.rig.bus _ _ hexecute
  exact ⟨q₁, b', pending', hprepare', hexecute', hpending, hagree.rig.afterCall hbus,
    hagree.accumulator⟩

theorem execution_of_prepare {q₁ : Processor σ} {b : Bus σ} (hprepare : prepare hw q = .ok f q₁)
    (hwhole : Hook.withoutWaiting (hw.execute f.instruction) q₁.toRig.bus = .ok () b) :
    Call.step.execution hw q = .ok f ⟨q₁.toRig.afterCall b, q₁.accumulator⟩ := by
  rw [execution_step_eq, bind_of_ok hprepare, bind_of_ok (call_ok_iff.mpr ⟨b, hwhole, rfl⟩)]
  rfl

theorem Agree.waits (hhw : hw.LooksAt core) (h : p.Agree core q)
    (hlaunch : Processor.launch hw p = .ok (f, some hold) p') : Waits hw core p' f hold q := by
  obtain ⟨q₁, b, pending', hprepare, hexecute, hpending, hagree⟩ := h.launch hhw hlaunch
  cases hpending with
  | waits hresume => exact ⟨q₁, b, _, hprepare, hexecute, hresume, hagree⟩

theorem Agree.execution (hhw : hw.LooksAt core) (h : p.Agree core q)
    (hlaunch : Processor.launch hw p = .ok (f, none) p') :
    ∃ q', Call.step.execution hw q = .ok f q' ∧ p'.Agree core q' := by
  obtain ⟨q₁, b, pending', hprepare, hexecute, hpending, hagree⟩ := h.launch hhw hlaunch
  cases hpending with
  | ended =>
    have hwhole : Hook.withoutWaiting (hw.execute f.instruction) q₁.toRig.bus = .ok () b :=
      bind_ok_iff.mpr ⟨none, b, hexecute, rfl⟩
    exact ⟨_, execution_of_prepare hprepare hwhole, hagree⟩

/-- The rest of the instruction, which `q` has executed in one go. -/
theorem Waits.execution (h : Waits hw core p f hold q)
    (hresume : call hold.resume p = .ok () p') :
    ∃ q', Call.step.execution hw q = .ok f q' ∧ p'.Agree core q' := by
  obtain ⟨q₁, b, hold', hprepare, hexecute, halike, hagree⟩ := h
  obtain ⟨c, hrest, rfl⟩ := call_ok_iff.mp hresume
  obtain ⟨_, c', hrest', -, hbus⟩ :=
    halike _ b ⟨hagree.rig.hardware, hagree.rig.registers⟩ _ c hrest
  have hwhole : Hook.withoutWaiting (hw.execute f.instruction) q₁.toRig.bus = .ok () c' :=
    bind_ok_iff.mpr ⟨some hold', b, hexecute, hrest'⟩
  exact ⟨_, execution_of_prepare hprepare hwhole,
    ⟨hbus.hardware, hbus.registers, hagree.rig.cycles, hagree.rig.instructions, hagree.rig.atLast⟩,
    hagree.accumulator⟩

/-! ## The bookkeeping after it -/

theorem step_of_execution {q' : Processor σ} (h : Call.step.execution hw q = .ok f q')
    (room : HasRoom hw f q') : step hw q = .ok () (retired hw f q') :=
  Call.perform_ok_iff (c := .step) |>.mpr ⟨f, q', h, room, rfl⟩

end Processor

end ConsoleCore
