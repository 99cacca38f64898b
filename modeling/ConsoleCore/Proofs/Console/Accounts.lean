import ConsoleCore.Proofs.Console.Books
import ConsoleCore.Proofs.Processor.Count

/-!
# Accounts

Whatever happens to a console and to the processors on it, the counts are those of the ledger. No
cycle and no instruction is lost or counted twice, and nothing sets a count back.
-/

namespace ConsoleCore

variable {σ ι : Type}

/-! ## Processors -/

theorem Rig.books_call {α : Type} (h : Hook σ α) (r : Rig σ) :
    (endState (r.call h)).machine.books = r.machine.books := by
  unfold Machine.books
  rw [cycles_call, statistics_call]

namespace Processor

variable {hw : Hardware σ ι} {a : Account} {o : Owner}

/-- The machine's counts are right, and the accumulator holds no more than its owner's processor has
seen. -/
def Within (a : Account) (o : Owner) (p : Processor σ) : Prop :=
  p.machine.books = a.books ∧ ∀ n, a.age o = some n → p.accumulator.toNat ≤ n

theorem keeps_within_call {α : Type} (h : Hook σ α) : Keeps (Within a o) (call h) := by
  intro p hp
  unfold Within
  rw [toRig_call, accumulator_call, Rig.books_call]
  exact hp

theorem within_startOver {p : Processor σ} (hp : Within a o p) : Within a o p.startOver := by
  unfold startOver
  split
  · exact ⟨hp.1, fun n _ => Nat.zero_le n⟩
  · exact hp

theorem stagesKeep_within (hw : Hardware σ ι) : StagesKeep hw (Within a o) where
  fetch _ := keeps_within_call _
  poll _ := keeps_within_call _
  clearZero _ hp := hp
  startOver _ hp := within_startOver hp
  decode _ _ := keeps_within_call _
  execute _ := keeps_within_call _

theorem receipt_of_room {f : InFlight ι} {p : Processor σ} (room : HasRoom hw f p) :
    receipt hw f p = ⟨costOf hw f p, true, (retired hw f p).machine⟩ := by
  unfold receipt
  rw [retire_eq, if_pos room]
  rfl

theorem receipt_of_no_room {f : InFlight ι} {p : Processor σ} (room : ¬ HasRoom hw f p) :
    receipt hw f p = ⟨costOf hw f p, false, (charged hw f p).machine⟩ := by
  unfold receipt
  rw [retire_eq, if_neg room]
  rfl

theorem within_retired {f : InFlight ι} {p : Processor σ} (hp : Within a o p)
    (room : HasRoom hw f p) :
    a.Admits (.executed o (receipt hw f p)) ∧
      Within (a.enter (.executed o (receipt hw f p))) o (retired hw f p) := by
  obtain ⟨hbooks, hage⟩ := hp
  have hcharge : (retired hw f p).machine.books = a.books.charge (receipt hw f p) := by
    rw [receipt_of_room room, ← hbooks]
    rfl
  have hage' : ∀ n, a.age o = some n →
      (retired hw f p).accumulator.toNat ≤ n + (costOf hw f p).toNat := by
    intro n hn
    have hn := hage n hn
    rw [accumulator_retired_toNat room]
    omega
  refine ⟨⟨?_, fun _ n hn => ?_⟩, hcharge, fun n hn => ?_⟩
  · rw [← hcharge, receipt_of_room room]
  · have hone : (1 : UInt64).toNat % 64 = 1 := rfl
    have hcount : (receipt hw f p).machine.count = (retired hw f p).accumulator.toNat / 2 := by
      rw [receipt_of_room room]
      change ((retired hw f p).registers.cop0 Cop0.count).toNat = _
      rw [count_retired, UInt64.toNat_shiftRight, hone, Nat.shiftRight_eq_div_pow]
    rw [hcount, receipt_of_room room]
    exact Nat.div_le_div_right (hage' n hn)
  · obtain ⟨m, hm, rfl⟩ := Option.map_eq_some_iff.mp hn
    rw [receipt_of_room room]
    exact hage' m hm

theorem within_charged {f : InFlight ι} {p : Processor σ} (hp : Within a o p)
    (room : ¬ HasRoom hw f p) :
    a.Admits (.executed o (receipt hw f p)) ∧
      Within (a.enter (.executed o (receipt hw f p))) o (charged hw f p) := by
  obtain ⟨hbooks, hage⟩ := hp
  have hcharge : (charged hw f p).machine.books = a.books.charge (receipt hw f p) := by
    rw [receipt_of_no_room room, ← hbooks]
    rfl
  refine ⟨⟨?_, fun hcompleted => ?_⟩, hcharge, fun n hn => ?_⟩
  · rw [← hcharge, receipt_of_no_room room]
  · rw [receipt_of_no_room room] at hcompleted
    cases hcompleted
  · obtain ⟨m, hm, rfl⟩ := Option.map_eq_some_iff.mp hn
    exact Nat.le_add_right_of_le (hage m hm)

theorem within_retire {f : InFlight ι} {p : Processor σ} (hp : Within a o p) :
    a.Admits (.executed o (receipt hw f p)) ∧
      Within (a.enter (.executed o (receipt hw f p))) o (endState (retire hw f p)) := by
  rw [retire_eq]
  split
  · exact within_retired hp ‹_›
  · exact within_charged hp ‹_›

end Processor

/-! ## A console and two processors -/

def Bench.accumulatorOf (b : Bench σ ι) : Owner → Option UInt64
  | .caller => some b.accumulator
  | .task =>
    match b.console.processorTask with
    | some (.ready accumulator) | some (.held accumulator _ _) => some accumulator
    | _ => none

namespace Account

variable {a a' : Account} {b b' : Bench σ ι}

structure Fits (a : Account) (b : Bench σ ι) : Prop where
  books : b.console.machine.books = a.books
  accumulators : ∀ o accumulator n, b.accumulatorOf o = some accumulator → a.age o = some n →
    accumulator.toNat ≤ n

theorem Fits.within (h : a.Fits b) {o : Owner} {accumulator : UInt64}
    (ho : b.accumulatorOf o = some accumulator) :
    Processor.Within a o (⟨b.console.rig, accumulator⟩ : Processor σ) :=
  ⟨h.books, fun n hn => h.accumulators o accumulator n ho hn⟩

theorem Fits.step (h : a.Fits b) {o : Owner} {p : Processor σ} (hp : p.Within a' o)
    (hrig : b'.console.rig = p.toRig)
    (hself : ∀ accumulator, b'.accumulatorOf o = some accumulator → accumulator = p.accumulator)
    (hother : ∀ o', o' ≠ o → b'.accumulatorOf o' = b.accumulatorOf o')
    (hage : ∀ o' n', a'.age o' = some n' → ∃ n ≤ n', a.age o' = some n) : a'.Fits b' where
  books := by
    unfold Console.machine
    rw [hrig]
    exact hp.1
  accumulators o' accumulator n' ho' hn' := by
    by_cases hsame : o' = o
    · subst hsame
      rw [hself accumulator ho']
      exact hp.2 n' hn'
    · obtain ⟨n, hle, hn⟩ := hage o' n' hn'
      rw [hother o' hsame] at ho'
      exact Nat.le_trans (h.accumulators o' accumulator n ho' hn) hle

theorem Fits.congr (h : a.Fits b) (hbooks : b'.console.machine.books = b.console.machine.books)
    (haccumulators : ∀ o accumulator, b'.accumulatorOf o = some accumulator →
      b.accumulatorOf o = some accumulator) : a.Fits b' where
  books := hbooks.trans h.books
  accumulators o accumulator n ho hn := h.accumulators o accumulator n (haccumulators o _ ho) hn

/-- The entries are true, and take the account to that of the bench. -/
structure Posted (a : Account) (es : List Entry) (b : Bench σ ι) : Prop where
  admits : a.AdmitsAll es
  fits : (a.enterAll es).Fits b

theorem Fits.posted (h : a.Fits b) : a.Posted [] b := ⟨trivial, h⟩

theorem Posted.append {es es' : List Entry} (h : a.Posted es b)
    (h' : (a.enterAll es).Posted es' b') : a.Posted (es ++ es') b' where
  admits := h.admits.append h'.admits
  fits := by
    rw [enterAll_append]
    exact h'.fits

end Account

/-! ## Tasks -/

namespace Console

open Processor (Within)

variable {hw : Hardware σ ι} {a a' : Account} {c d : Console σ ι} {x accumulator : UInt64}
  {act : Processor.Action σ (Processor.InFlight ι × Option (Hold σ))}

theorem Work.accumulatorOf (h : Work hw c accumulator act) :
    (Bench.mk c x).accumulatorOf .task = some accumulator := by
  cases h with
  | launches ready => simp only [Bench.accumulatorOf, ready]
  | resumes held => simp only [Bench.accumulatorOf, held]

theorem Work.keeps_within (h : Work hw c accumulator act) {o : Owner} : Keeps (Within a o) act := by
  cases h with
  | launches => exact (Processor.stagesKeep_within hw).launch fun _ => Processor.keeps_within_call _
  | resumes => exact (Processor.keeps_within_call _).bind fun _ => Keeps.pure _

theorem Work.within (h : Work hw c accumulator act) (hfits : a.Fits ⟨c, x⟩) :
    Within a .task (endState (act ⟨c.rig, accumulator⟩)) :=
  h.keeps_within _ (hfits.within h.accumulatorOf)

theorem fits_leave (h : a.Fits ⟨c, x⟩) {p : Processor σ} {task : ProcessorTask σ ι}
    (hp : Within a' .task p)
    (htask : ∀ accumulator, (Bench.mk (c.leave p task) x).accumulatorOf .task = some accumulator →
      accumulator = p.accumulator)
    (hage : ∀ o n', a'.age o = some n' → ∃ n ≤ n', a.age o = some n) :
    a'.Fits ⟨c.leave p task, x⟩ := by
  refine h.step hp rfl htask (fun o ho => ?_) hage
  cases o with
  | caller => rfl
  | task => exact absurd rfl ho

theorem posted_processorTurn (h : a.Fits ⟨c, x⟩) :
    a.Posted (c.turnEntries hw .processor) ⟨c.processorTurn hw, x⟩ := by
  have hround := round_spec hw c
  unfold turnEntries
  generalize c.processorTurn hw = d at hround
  generalize c.receipts hw = rs at hround
  -- Where nothing was charged, no processor has got older.
  have hsame (o : Owner) (n' : Nat) (hn' : a.age o = some n') : ∃ n ≤ n', a.age o = some n :=
    ⟨n', Nat.le_refl n', hn'⟩
  cases hround with
  | nothing => exact h.posted
  | finish ready =>
    have hfinished : a.Fits ⟨c.endProcessor, x⟩ := by
      refine h.congr rfl fun o accumulator ho => ?_
      cases o with
      | caller => exact ho
      | task => cases ho
    exact hfinished.posted
  | faults work hact =>
    have hp := work.within h
    rw [hact] at hp
    exact (fits_leave h hp (fun _ ho => by cases ho) hsame).posted
  | waits work hact =>
    have hp := work.within h
    rw [hact] at hp
    exact (fits_leave h hp (fun _ ho => by cases ho; rfl) hsame).posted
  | completes work hact room =>
    have hp := work.within h
    rw [hact] at hp
    obtain ⟨hadmits, hretired⟩ := Processor.within_retired hp room
    exact ⟨⟨hadmits, trivial⟩, fits_leave h hretired (fun _ ho => by cases ho; rfl)
      fun _ _ => Account.exists_age_of_executed (o := .task)⟩
  | overflows work hact room =>
    have hp := work.within h
    rw [hact] at hp
    obtain ⟨hadmits, hcharged⟩ := Processor.within_charged hp room
    exact ⟨⟨hadmits, trivial⟩, fits_leave h hcharged (fun _ ho => by cases ho)
      fun _ _ => Account.exists_age_of_executed (o := .task)⟩

variable (hw)

theorem fits_of_task_eq (h : a.Fits ⟨c, x⟩) (hbooks : d.machine.books = c.machine.books)
    (htask : d.processorTask = c.processorTask ∨ d.processorTask = none) : a.Fits ⟨d, x⟩ := by
  refine h.congr hbooks fun o accumulator ho => ?_
  cases o with
  | caller => exact ho
  | task =>
    unfold Bench.accumulatorOf at ho ⊢
    rcases htask with htask | htask
    · rwa [htask] at ho
    · rw [htask] at ho
      cases ho

theorem fits_scanlineTurn (h : a.Fits ⟨c, x⟩) : a.Fits ⟨c.scanlineTurn hw, x⟩ := by
  have hspec := scanlineTurn_spec hw c
  have hcall {α : Type} (hook : Hook σ α) :
      Keeps (fun r : Rig σ => r.machine.books = c.machine.books) (Rig.call hook) :=
    fun r hr => (Rig.books_call hook r).trans hr
  exact fits_of_task_eq h
    (hspec.rig_keeps (fun _ => hcall _) (fun _ => hcall _) (fun _ _ _ _ => hcall _) rfl)
    (.inl hspec.processorTask_eq)

theorem posted_turn (h : a.Fits ⟨c, x⟩) (t : Turn) :
    a.Posted (c.turnEntries hw t) ⟨c.turn hw t, x⟩ := by
  cases t with
  | processor => exact posted_processorTurn h
  | scanlines => exact ⟨trivial, fits_scanlineTurn hw h⟩

theorem posted_turns (h : a.Fits ⟨c, x⟩) (schedule : List Turn) :
    a.Posted (turnsEntries hw schedule c) ⟨c.turns hw schedule, x⟩ := by
  induction schedule generalizing a c with
  | nil => exact h.posted
  | cons t schedule ih =>
    have hturn := posted_turn hw h t
    exact hturn.append (ih hturn.fits)

/-! ## Commands -/

theorem posted_shutdown (h : a.Fits ⟨c, x⟩) :
    a.Posted (c.shutdownEntries hw) ⟨c.shutdown hw, x⟩ := by
  have hoff : a.Fits ⟨c.setPowered false, x⟩ := fits_of_task_eq h rfl (.inl rfl)
  obtain ⟨hadmits, hturns⟩ := posted_turns hw hoff c.joiningTurns
  refine ⟨hadmits, fits_of_task_eq hturns ?_ (.inr (idle_shutdown hw c).1)⟩
  unfold machine
  rw [rig_shutdown]
  rfl

theorem keeps_fits_call {α : Type} (hook : Hook σ α) :
    Keeps (fun d : Console σ ι => a.Fits ⟨d, x⟩) (call hook) := by
  intro d hd
  refine fits_of_task_eq hd ?_ (.inl (processorTask_call hook d))
  unfold machine
  rw [rig_call, Rig.books_call]

theorem posted_reset (h : a.Fits ⟨c, x⟩) (tv : TvStandard) :
    a.Posted (c.shutdownEntries hw) ⟨endState (reset hw tv c), x⟩ := by
  obtain ⟨hadmits, hoff⟩ := posted_shutdown hw h
  exact ⟨hadmits, endState_reset hw tv c
    (I := fun d => (a.enterAll (c.shutdownEntries hw)).Fits ⟨d, x⟩)
    (fits_of_task_eq hoff rfl (.inl rfl)) (keeps_fits_call _) (keeps_fits_call _)
    fun _ _ _ hd => fits_of_task_eq hd rfl (.inl rfl)⟩

theorem posted_bootUp (h : a.Fits ⟨c, x⟩) (tv : TvStandard) :
    a.Posted (c.shutdownEntries hw) ⟨endState (bootUp hw tv c), x⟩ := by
  obtain ⟨hadmits, hreset⟩ := posted_reset hw h tv
  exact ⟨hadmits, endState_bootUp
    (I := fun d => (a.enterAll (c.shutdownEntries hw)).Fits ⟨d, x⟩) hreset
    (fun _ hd => fits_of_task_eq hd rfl (.inl rfl)) (keeps_fits_call _)⟩

theorem fits_startProcessor (h : a.Fits ⟨c, x⟩) :
    (a.enter (.created .task c.machine)).Fits ⟨c.startProcessor, x⟩ where
  books := h.books
  accumulators o accumulator n ho hn := by
    cases o with
    | caller => exact h.accumulators .caller accumulator n ho hn
    | task =>
      cases ho
      exact Nat.zero_le n

theorem posted_spawned (h : a.Fits ⟨c, x⟩) (host : Host) :
    a.Posted (c.spawnEntries hw host) ⟨c.spawned hw host, x⟩ := by
  have hcreated : a.Posted [.created .task c.machine] ⟨c.startProcessor, x⟩ :=
    ⟨⟨h.books, trivial⟩, fits_startProcessor h⟩
  have hhead : a.Posted
      (.created .task c.machine :: turnsEntries hw host.firstTurns c.startProcessor)
      ⟨c.withHeadStart hw host, x⟩ :=
    hcreated.append (posted_turns hw hcreated.fits host.firstTurns)
  unfold spawnEntries spawned
  cases host.processorRefusal with
  | some cause =>
    have hoff : a.Fits ⟨c.setPowered false, x⟩ := fits_of_task_eq h rfl (.inl rfl)
    exact hoff.posted
  | none =>
    cases host.scanlineRefusal with
    | some cause => exact hhead.append (posted_shutdown hw hhead.fits)
    | none => exact ⟨hhead.admits, fits_of_task_eq hhead.fits rfl (.inl rfl)⟩

theorem posted_powerOn (h : a.Fits ⟨c, x⟩) (tv : TvStandard) (host : Host) :
    a.Posted (c.powerOnEntries hw tv host) ⟨endState (powerOn hw tv host c), x⟩ := by
  have hnoted : a.Fits ⟨c.noted, x⟩ := by
    rw [noted_eq]
    exact fits_of_task_eq h rfl (.inl rfl)
  have hboot := posted_bootUp hw hnoted tv
  unfold powerOnEntries
  rw [powerOn_eq_bootUp]
  cases h : bootUp hw tv c.noted with
  | error e d =>
    rw [h] at hboot
    rw [bind_of_error h, List.append_nil]
    exact hboot
  | ok _ d =>
    rw [h] at hboot
    rw [bind_of_ok h, spawnTasks_eq]
    exact hboot.append (posted_spawned hw hboot.fits host)

theorem posted_perform (h : a.Fits ⟨c, x⟩) (command : Command) :
    a.Posted (command.entries hw c) ⟨(command.perform hw c).2, x⟩ := by
  cases command with
  | reset tv =>
    rw [Command.perform_reset]
    exact posted_reset hw h tv
  | powerOn tv host =>
    rw [Command.perform_powerOn]
    exact posted_powerOn hw h tv host
  | shutdown | drop => exact posted_shutdown hw h
  | setPowered | pass | plan => exact ⟨trivial, fits_of_task_eq h rfl (.inl rfl)⟩
  | turn t => exact posted_turn hw h t

end Console

/-! ## Deeds -/

namespace Bench

variable {a a' : Account} {b : Bench σ ι}

def leave (b : Bench σ ι) (p : Processor σ) : Bench σ ι :=
  ⟨{ b.console with rig := p.toRig }, p.accumulator⟩

theorem perform_call (hw : Hardware σ ι) (b : Bench σ ι) (c : Processor.Call) :
    (Deed.call c).perform hw b =
      b.leave (endState (c.perform hw ⟨b.console.rig, b.accumulator⟩)) := by
  obtain ⟨⟨rig, settings, processorTask, scanlineTask, journal, now, lastTurns⟩,
    accumulator⟩ := b
  simp only [Deed.perform, Console.withProcessor]
  cases c.perform hw ⟨rig, accumulator⟩ <;> rfl

theorem fits_leave (h : a.Fits b) {p : Processor σ} (hp : p.Within a' .caller)
    (hage : ∀ o n', a'.age o = some n' → ∃ n ≤ n', a.age o = some n) : a'.Fits (b.leave p) := by
  refine h.step hp rfl (fun _ ho => (Option.some.inj ho).symm) (fun o ho => ?_) hage
  cases o with
  | caller => exact absurd rfl ho
  | task => rfl

theorem posted_call (hw : Hardware σ ι) (h : a.Fits b) (c : Processor.Call) :
    a.Posted ((Deed.call c).entries hw b) ((Deed.call c).perform hw b) := by
  have hp := (Processor.stagesKeep_within hw).execution c _ (h.within (o := .caller) rfl)
  rw [perform_call, Processor.Call.perform_eq]
  simp only [Deed.entries, Processor.Call.receipts]
  cases hexec : c.execution hw ⟨b.console.rig, b.accumulator⟩ with
  | error e p =>
    rw [hexec] at hp
    rw [bind_of_error hexec]
    exact ⟨trivial, fits_leave h hp fun _ n hn => ⟨n, Nat.le_refl n, hn⟩⟩
  | ok f p =>
    rw [hexec] at hp
    rw [bind_of_ok hexec]
    obtain ⟨hadmits, hretire⟩ := Processor.within_retire hp
    exact ⟨⟨hadmits, trivial⟩, fits_leave h hretire fun _ _ =>
      Account.exists_age_of_executed (o := .caller)⟩

theorem posted_deed (hw : Hardware σ ι) (h : a.Fits b) (deed : Deed σ) :
    a.Posted (deed.entries hw b) (deed.perform hw b) := by
  cases deed with
  | command x => exact Console.posted_perform hw h x
  | newProcessor =>
    refine ⟨⟨h.books, trivial⟩, h.books, fun o accumulator n ho hn => ?_⟩
    cases o with
    | caller =>
      cases ho
      exact Nat.zero_le n
    | task => exact h.accumulators .task accumulator n ho hn
  | call c => exact posted_call hw h c
  | registers | hardware => exact ⟨trivial, h.congr rfl fun _ _ ho => ho⟩

theorem posted_after (hw : Hardware σ ι) (h : a.Fits b) (deeds : List (Deed σ)) :
    a.Posted (b.ledger hw deeds) (b.after hw deeds) := by
  induction deeds generalizing a b with
  | nil => exact h.posted
  | cons deed deeds ih =>
    have hdeed := posted_deed hw h deed
    exact hdeed.append (ih hdeed.fits)

/-! ## The counts -/

/-- The machine's counts grow by what the instructions on the ledger cost, and by nothing else. -/
theorem counts_follow_ledger (hw : Hardware σ ι) (b : Bench σ ι) (deeds : List (Deed σ)) :
    let es := b.ledger hw deeds
    let m := b.console.machine
    let m' := (b.after hw deeds).console.machine
    m'.cycles = m.cycles + UInt64.ofNat (totalCost es) ∧
    m'.statistics.instructions = m.statistics.instructions + UInt64.ofNat (completed es).length ∧
    m'.statistics.cycles =
      ((completed es).getLast?.map (·.machine.cycles)).getD m.statistics.cycles ∧
    (∀ r, (receipts es).getLast? = some r → r.completed = true →
      m'.statistics.cycles = m'.cycles) ∧
    (receipts es = [] → m'.books = m.books) ∧
    (∀ past o r future, es = past ++ .executed o r :: future →
      r.machine.cycles = m.cycles + UInt64.ofNat (totalCost past + r.cost.toNat)) ∧
    ∀ past o new life r future, es = past ++ .created o new :: (life ++ .executed o r :: future) →
      (∀ newer, .created o newer ∉ life) → r.completed = true →
      (r.machine.registers.cop0 Cop0.count).toNat ≤ (totalCost life + r.cost.toNat) / 2 ∧
      (m.cycles.toNat + totalCost past + totalCost life + r.cost.toNat < UInt64.size →
        totalCost life + r.cost.toNat = r.machine.cycles.toNat - new.cycles.toNat) := by
  intro es m m'
  let a : Account := ⟨m.books, fun _ => none⟩
  have hstart : a.Fits b := ⟨rfl, fun _ _ _ _ hn => by cases hn⟩
  obtain ⟨hadmits, hfits⟩ : a.Posted es (b.after hw deeds) := posted_after hw hstart deeds
  have hbooks : m'.books = m.books.chargeAll (receipts es) :=
    hfits.books.trans (a.books_enterAll es)
  have hcycles (past : List Entry) (o : Owner) (r : Receipt) (future : List Entry)
      (hes : es = past ++ .executed o r :: future) :
      r.machine.cycles = m.cycles + UInt64.ofNat (totalCost past + r.cost.toNat) := by
    rw [hes] at hadmits
    exact hadmits.cycles_executed
  refine ⟨?_, ?_, ?_, fun r hlast hr => ?_, fun hnone => ?_, hcycles, ?_⟩
  · exact (congrArg Books.cycles hfits.books).trans (a.cycles_enterAll es)
  · exact (congrArg Books.instructions hbooks).trans (Books.instructions_chargeAll _ _)
  · exact (congrArg Books.atLast hbooks).trans hadmits.vouched.atLast_chargeAll
  · have hatLast := Books.atLast_eq_cycles (k := m.books) hlast hr
    rwa [← hbooks] at hatLast
  · rw [hbooks, hnone]
    rfl
  · intro past o new life r future hes hlife hr
    have hall := hadmits
    rw [hes] at hall
    refine ⟨hall.count_le hlife hr, fun hsum => ?_⟩
    -- The difference is that of the sums only if the machine's count has not wrapped around.
    have htoNat (n : Nat) (hn : m.cycles.toNat + n < UInt64.size) :
        (m.cycles + UInt64.ofNat n).toNat = m.cycles.toNat + n := by
      unfold UInt64.size at hn
      rw [UInt64.toNat_add, UInt64.toNat_ofNat']
      omega
    have hnew : new.cycles = m.cycles + UInt64.ofNat (totalCost past) := hall.cycles_created
    have hnow := hcycles (past ++ .created o new :: life) o r future (by
      rw [hes, List.append_assoc, List.cons_append])
    rw [totalCost_append, totalCost] at hnow
    rw [hnew, hnow, htoNat _ (by omega), htoNat _ (by omega)]
    omega

def waitingBench : Bench Scripted.Board Scripted.Instruction where
  console := {
    rig := {
      hardware := { costs := [(1, 0xfffffffd), (2, 0xffffffff00000002)] }
      machine := { powered := true } }
    processorTask := some (.held 10 ⟨⟨0, 7, .ofOpcode 0⟩, 0⟩ ⟨.powerOff, pure ()⟩) }

/-- The shutdown lets the instruction that waited complete, between two of the caller's first
processor. That one overflows in the end, and the cycle count with it. -/
def busyDeeds : List (Deed Scripted.Board) := [
  .newProcessor, .call (.interpret 0x01000000 false), .command (.turn .processor),
  .command .shutdown, .call (.interpret 0 false), .registers .reset,
  .call (.interpret 0x02000000 false), .newProcessor, .call (.interpret 0x03090007 true),
  .command .drop]

theorem counts_of_waitingBench :
    let es := waitingBench.ledger Scripted.Board.hardware busyDeeds
    (receipts es).map (fun r => (r.cost, r.completed)) =
      [(0xfffffffd, true), (7, true), (1, true), (0xffffffff00000002, false), (1, true)] ∧
    (waitingBench.after Scripted.Board.hardware busyDeeds).console.machine.books = ⟨8, 4, 8⟩ ∧
    ∃ new r₁ r₂ r₃ future,
      es = .created .caller new :: .executed .caller r₁ :: .executed .task r₂ ::
        .executed .caller r₃ :: future ∧
      (r₃.machine.registers.cop0 Cop0.count).toNat ≤ 0x100000005 / 2 ∧
      0x100000005 = r₃.machine.cycles.toNat - new.cycles.toNat := by
  intro es
  obtain ⟨hcycles, hinstructions, hatLast, -, -, -, hcount⟩ :=
    counts_follow_ledger Scripted.Board.hardware waitingBench busyDeeds
  have hcosts : (receipts es).map (fun r => (r.cost, r.completed)) =
      [(0xfffffffd, true), (7, true), (1, true), (0xffffffff00000002, false), (1, true)] := by
    decide +kernel
  refine ⟨hcosts, ?_, ?_⟩
  · unfold Machine.books
    rw [hcycles, hinstructions, hatLast]
    decide +kernel
  · obtain ⟨new, r₁, r₂, r₃, future, hes⟩ : ∃ new r₁ r₂ r₃ future,
        es = .created .caller new :: .executed .caller r₁ :: .executed .task r₂ ::
          .executed .caller r₃ :: future := ⟨_, _, _, _, _, rfl⟩
    refine ⟨new, r₁, r₂, r₃, future, hes, ?_⟩
    rw [hes] at hcosts
    simp only [receipts, List.filterMap_cons, Entry.receipt?, List.map_cons, List.cons.injEq,
      Prod.mk.injEq] at hcosts
    obtain ⟨⟨h₁, -⟩, ⟨h₂, -⟩, ⟨h₃, hr₃⟩, -⟩ := hcosts
    obtain ⟨hle, hsince⟩ := hcount [] .caller new [.executed .caller r₁, .executed .task r₂] r₃
      future hes (by simp) hr₃
    simp only [totalCost, h₁, h₂, h₃] at hle hsince
    exact ⟨hle, hsince (by decide)⟩

end Bench

end ConsoleCore
