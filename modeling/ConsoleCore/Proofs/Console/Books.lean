import ConsoleCore.Proofs.Console.Ledger

/-!
# Books

What a ledger says that the counts should be: the machine's cycles, the completed instructions, and
the cycles as of the last one. The age of a processor bounds its accumulator, which no count shows.
-/

namespace ConsoleCore

/-! ## The counts -/

structure Books where
  cycles : UInt64
  instructions : UInt64
  atLast : UInt64
  deriving DecidableEq

def Machine.books (m : Machine) : Books :=
  ⟨m.cycles, m.statistics.instructions, m.statistics.cycles⟩

def Machine.count (m : Machine) : Nat := (m.registers.cop0 Cop0.count).toNat

def receipts (es : List Entry) : List Receipt := es.filterMap Entry.receipt?

def completed (es : List Entry) : List Receipt := (receipts es).filter (·.completed)

def totalCost : List Entry → Nat
  | [] => 0
  | .created .. :: es => totalCost es
  | .executed _ r :: es => r.cost.toNat + totalCost es

theorem totalCost_append (es es' : List Entry) :
    totalCost (es ++ es') = totalCost es + totalCost es' := by
  induction es with
  | nil => exact (Nat.zero_add _).symm
  | cons e es ih =>
    cases e with
    | created => exact ih
    | executed _ r =>
      simp only [List.cons_append, totalCost, ih]
      omega

namespace Books

def charge (k : Books) (r : Receipt) : Books :=
  if r.completed then ⟨k.cycles + r.cost, k.instructions + 1, k.cycles + r.cost⟩
  else { k with cycles := k.cycles + r.cost }

def chargeAll (k : Books) (rs : List Receipt) : Books := rs.foldl charge k

/-- The machines on the receipts show the books as they were when each was charged. -/
def Vouched : Books → List Receipt → Prop
  | _, [] => True
  | k, r :: rs => r.machine.books = k.charge r ∧ (k.charge r).Vouched rs

variable {k : Books} {rs : List Receipt}

theorem cycles_charge (k : Books) (r : Receipt) : (k.charge r).cycles = k.cycles + r.cost := by
  unfold charge
  split <;> rfl

theorem instructions_chargeAll (k : Books) (rs : List Receipt) :
    (k.chargeAll rs).instructions =
      k.instructions + UInt64.ofNat (rs.filter (·.completed)).length := by
  induction rs generalizing k with
  | nil => exact (UInt64.add_zero k.instructions).symm
  | cons r rs ih =>
    refine (ih (k.charge r)).trans ?_
    unfold charge
    split
    · rename_i hr
      rw [List.filter_cons_of_pos hr, List.length_cons, UInt64.ofNat_add,
        UInt64.add_comm (UInt64.ofNat _), ← UInt64.add_assoc]
      rfl
    · rename_i hr
      rw [List.filter_cons_of_neg hr]

theorem Vouched.atLast_chargeAll (h : k.Vouched rs) :
    (k.chargeAll rs).atLast =
      ((rs.filter (·.completed)).getLast?.map (·.machine.cycles)).getD k.atLast := by
  induction rs generalizing k with
  | nil => rfl
  | cons r rs ih =>
    obtain ⟨hr, hrs⟩ := h
    refine (ih hrs).trans ?_
    by_cases hcompleted : r.completed = true
    · have hcycles : (k.charge r).atLast = r.machine.cycles := by
        have hatLast := congrArg Books.cycles hr
        rw [cycles_charge] at hatLast
        unfold charge
        rw [if_pos hcompleted]
        exact hatLast.symm
      rw [List.filter_cons_of_pos hcompleted, List.getLast?_cons, hcycles]
      cases (rs.filter (·.completed)).getLast? <;> rfl
    · have hatLast : (k.charge r).atLast = k.atLast := by
        unfold charge
        rw [if_neg hcompleted]
      rw [List.filter_cons_of_neg hcompleted, hatLast]

theorem atLast_eq_cycles {r : Receipt} (hlast : rs.getLast? = some r) (hr : r.completed = true) :
    (k.chargeAll rs).atLast = (k.chargeAll rs).cycles := by
  obtain ⟨before, rfl⟩ := List.getLast?_eq_some_iff.mp hlast
  have hsnoc : k.chargeAll (before ++ [r]) = (k.chargeAll before).charge r := List.foldl_append
  rw [hsnoc]
  unfold charge
  rw [if_pos hr]

end Books

/-! ## Accounts -/

/-- The books, and how many cycles the machine has been charged since each owner's processor was
created, if the ledger knows when. -/
structure Account where
  books : Books
  age : Owner → Option Nat

namespace Account

def enter (a : Account) : Entry → Account
  | .created o _ => { a with age := fun o' => if o' = o then some 0 else a.age o' }
  | .executed _ r => ⟨a.books.charge r, fun o => (a.age o).map (· + r.cost.toNat)⟩

def enterAll (a : Account) (es : List Entry) : Account := es.foldl enter a

/-- The entry is true of a machine that has the account. -/
def Admits (a : Account) : Entry → Prop
  | .created _ m => m.books = a.books
  | .executed o r => r.machine.books = a.books.charge r ∧
      (r.completed = true → ∀ n, a.age o = some n → r.machine.count ≤ (n + r.cost.toNat) / 2)

def AdmitsAll : Account → List Entry → Prop
  | _, [] => True
  | a, e :: es => a.Admits e ∧ (a.enter e).AdmitsAll es

variable {a : Account}

theorem enterAll_append (a : Account) (es es' : List Entry) :
    a.enterAll (es ++ es') = (a.enterAll es).enterAll es' := List.foldl_append

theorem AdmitsAll.append {es es' : List Entry} (h : a.AdmitsAll es)
    (h' : (a.enterAll es).AdmitsAll es') : a.AdmitsAll (es ++ es') := by
  induction es generalizing a with
  | nil => exact h'
  | cons e es ih => exact ⟨h.1, ih h.2 h'⟩

theorem AdmitsAll.admits {before after : List Entry} {e : Entry}
    (h : a.AdmitsAll (before ++ e :: after)) : (a.enterAll before).Admits e := by
  induction before generalizing a with
  | nil => exact h.1
  | cons e' before ih => exact ih h.2

theorem books_enterAll (a : Account) (es : List Entry) :
    (a.enterAll es).books = a.books.chargeAll (receipts es) := by
  induction es generalizing a with
  | nil => rfl
  | cons e es ih =>
    refine (ih (a.enter e)).trans ?_
    cases e <;> rfl

theorem cycles_enterAll (a : Account) (es : List Entry) :
    (a.enterAll es).books.cycles = a.books.cycles + UInt64.ofNat (totalCost es) := by
  induction es generalizing a with
  | nil => exact (UInt64.add_zero a.books.cycles).symm
  | cons e es ih =>
    cases e with
    | created => exact ih _
    | executed o r =>
      have hrest := ih (a.enter (.executed o r))
      have hcharge : (a.enter (.executed o r)).books.cycles = a.books.cycles + r.cost :=
        Books.cycles_charge a.books r
      rw [hcharge] at hrest
      rw [totalCost, UInt64.ofNat_add, UInt64.ofNat_toNat, ← UInt64.add_assoc]
      exact hrest

theorem AdmitsAll.vouched {es : List Entry} (h : a.AdmitsAll es) :
    a.books.Vouched (receipts es) := by
  induction es generalizing a with
  | nil => trivial
  | cons e es ih =>
    obtain ⟨he, hes⟩ := h
    have hrest := ih hes
    cases e with
    | created => exact hrest
    | executed => exact ⟨he.1, hrest⟩

theorem exists_age_of_executed {o o' : Owner} {r : Receipt} {n' : Nat}
    (h : (a.enter (.executed o r)).age o' = some n') : ∃ n ≤ n', a.age o' = some n := by
  obtain ⟨n, hn, rfl⟩ := Option.map_eq_some_iff.mp h
  exact ⟨n, Nat.le_add_right n _, hn⟩

theorem age_enterAll {o : Owner} {es : List Entry} (hes : ∀ m, .created o m ∉ es) {n : Nat}
    (ha : a.age o = some n) : (a.enterAll es).age o = some (n + totalCost es) := by
  induction es generalizing a n with
  | nil => exact ha
  | cons e es ih =>
    have hrest : ∀ m, .created o m ∉ es := fun m hm => hes m (List.mem_cons_of_mem _ hm)
    cases e with
    | created o' m =>
      have hne : o ≠ o' := by
        rintro rfl
        exact hes m List.mem_cons_self
      have hage : (a.enter (.created o' m)).age o = some n := (if_neg hne).trans ha
      exact ih hrest hage
    | executed o' r =>
      have hage : (a.enter (.executed o' r)).age o = some (n + r.cost.toNat) := by
        simp only [enter, ha, Option.map_some]
      rw [totalCost, ← Nat.add_assoc]
      exact ih hrest hage

/-! ### Reading off an entry -/

variable {o : Owner} {r : Receipt} {past life future : List Entry}

theorem AdmitsAll.cycles_executed (h : a.AdmitsAll (past ++ .executed o r :: future)) :
    r.machine.cycles = a.books.cycles + UInt64.ofNat (totalCost past + r.cost.toNat) := by
  obtain ⟨hbooks, -⟩ := h.admits
  calc r.machine.cycles = ((a.enterAll past).books.charge r).cycles := congrArg Books.cycles hbooks
    _ = (a.enterAll past).books.cycles + r.cost := Books.cycles_charge _ r
    _ = a.books.cycles + UInt64.ofNat (totalCost past) + r.cost := by rw [cycles_enterAll]
    _ = a.books.cycles + UInt64.ofNat (totalCost past + r.cost.toNat) := by
      rw [UInt64.ofNat_add, UInt64.ofNat_toNat, UInt64.add_assoc]

theorem AdmitsAll.cycles_created {m : Machine} (h : a.AdmitsAll (past ++ .created o m :: future)) :
    m.cycles = a.books.cycles + UInt64.ofNat (totalCost past) := by
  have hbooks : m.books = (a.enterAll past).books := h.admits
  rw [← cycles_enterAll, ← hbooks]
  rfl

theorem AdmitsAll.count_le {m : Machine}
    (h : a.AdmitsAll (past ++ .created o m :: (life ++ .executed o r :: future)))
    (hlife : ∀ newer, .created o newer ∉ life) (hr : r.completed = true) :
    r.machine.count ≤ (totalCost life + r.cost.toNat) / 2 := by
  have hsplit : past ++ .created o m :: (life ++ .executed o r :: future) =
      (past ++ .created o m :: life) ++ .executed o r :: future := by
    simp only [List.append_assoc, List.cons_append]
  rw [hsplit] at h
  obtain ⟨-, hcount⟩ := h.admits
  have hnew : ((a.enterAll past).enter (.created o m)).age o = some 0 := if_pos rfl
  have hage : (a.enterAll (past ++ .created o m :: life)).age o = some (0 + totalCost life) := by
    rw [enterAll_append]
    exact age_enterAll hlife hnew
  rw [Nat.zero_add] at hage
  exact hcount hr _ hage

end Account

end ConsoleCore
