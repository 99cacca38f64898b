import ConsoleCore.Proofs.Processor.Calls

/-!
# Instructions in a task of their own

There an instruction is launched, and may have to wait before its bookkeeping. What holds of a
processor when it is charged does not depend on that.
-/

namespace ConsoleCore

variable {σ ι : Type} {hw : Hardware σ ι}

namespace Processor

variable {I : Processor σ → Prop}

/-- An instruction up to where its execution returns or waits. -/
def launch (hw : Hardware σ ι) : Action σ (InFlight ι × Option (Hold σ)) := do
  let f ← dispatch hw (← fetch hw) false
  let hold ← call (hw.execute f.instruction)
  return (f, hold)

def settle (hw : Hardware σ ι) :
    InFlight ι × Option (Hold σ) → Action σ (Option (InFlight ι × Hold σ))
  | (f, some hold) => return some (f, hold)
  | (f, none) => do
    retire hw f
    return none

theorem advance_eq (hw : Hardware σ ι) : advance hw = launch hw >>= settle hw := by
  simp only [advance, launch, bind_assoc, pure_bind]
  refine bind_congr fun opcode => bind_congr fun f => bind_congr fun hold => ?_
  cases hold <;> rfl

theorem resume_eq (f : InFlight ι) (hold : Hold σ) :
    resume hw f hold = call hold.resume >>= fun _ => settle hw (f, none) := rfl

theorem StagesKeep.launch (h : StagesKeep hw I) (hexecute : ∀ i, Keeps I (call (hw.execute i))) :
    Keeps I (launch hw) :=
  (Keeps.get.bind fun _ => h.fetch _).bind fun _ => (h.dispatch _ _).bind fun _ =>
    (hexecute _).bind fun _ => Keeps.pure _

theorem keeps_settle (hretire : ∀ f, Keeps I (retire hw f)) (x : InFlight ι × Option (Hold σ)) :
    Keeps I (settle hw x) := by
  obtain ⟨f, _ | hold⟩ := x
  · exact (hretire f).bind fun _ => Keeps.pure _
  · exact Keeps.pure _

theorem StagesKeep.advance (h : StagesKeep hw I) (hexecute : ∀ i, Keeps I (call (hw.execute i)))
    (hretire : ∀ f, Keeps I (retire hw f)) : Keeps I (Processor.advance hw) := by
  rw [advance_eq]
  exact (h.launch hexecute).bind (keeps_settle hretire)

theorem keeps_resume {hold : Hold σ} (hrest : Keeps I (call hold.resume))
    (hretire : ∀ f, Keeps I (retire hw f)) (f : InFlight ι) : Keeps I (resume hw f hold) := by
  rw [resume_eq]
  exact hrest.bind fun _ => keeps_settle hretire _

theorem exists_execute_of_launch {p q : Processor σ} {f : InFlight ι} {hold : Hold σ}
    (h : Processor.launch hw p = .ok (f, some hold) q) :
    ∃ i b b', hw.execute i b = .ok (some hold) b' := by
  obtain ⟨_, _, -, h⟩ := bind_ok_iff.mp h
  obtain ⟨g, _, -, h⟩ := bind_ok_iff.mp h
  obtain ⟨pending, _, hexecute, h⟩ := bind_ok_iff.mp h
  cases h
  obtain ⟨b', hb', -⟩ := call_ok_iff.mp hexecute
  exact ⟨_, _, b', hb'⟩

theorem launch_of_advance {p q : Processor σ} {f : InFlight ι} {hold : Hold σ}
    (h : advance hw p = .ok (some (f, hold)) q) : Processor.launch hw p = .ok (f, some hold) q := by
  rw [advance_eq] at h
  obtain ⟨⟨g, _ | hold'⟩, r, hlaunch, hsettle⟩ := bind_ok_iff.mp h
  · obtain ⟨_, _, -, hsettle⟩ := bind_ok_iff.mp hsettle
    cases hsettle
  · cases hsettle
    exact hlaunch

end Processor

end ConsoleCore
