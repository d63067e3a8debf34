import Mathlib

/-!
# Runs and their journals

A machine answers every call with its next state and a reply, and the journal of a run
is the list of its replies.  A call books an amount of its reply to a quantity of the
state if the quantity changes by exactly that amount.  Over a run the quantity then
changes by the sum over the journal, and the sums are right at every point of the run
only if every call books.

Two rules for invariants of runs: what the state holds was introduced by some call, and
a state is related to every later one.
-/

namespace Journal

variable {State Call Reply : Type*} (machine : State → Call → State × Reply)

def run (state : State) (calls : List Call) : State :=
  calls.foldl (fun before call => (machine before call).1) state

def journal (state : State) : List Call → List Reply
  | [] => []
  | call :: calls => (machine state call).2 :: journal (machine state call).1 calls

theorem run_append (state : State) (first second : List Call) :
    run machine state (first ++ second) = run machine (run machine state first) second :=
  List.foldl_append

theorem run_snoc (state : State) (first : List Call) (call : Call) :
    run machine state (first ++ [call]) = (machine (run machine state first) call).1 :=
  run_append machine state first [call]

theorem journal_snoc (state : State) (first : List Call) (call : Call) :
    journal machine state (first ++ [call]) =
      journal machine state first ++ [(machine (run machine state first) call).2] := by
  induction first generalizing state with
  | nil => rfl
  | cons head first ih => exact congrArg _ (ih (machine state head).1)

/-! ## Along a run -/

/-- Every call of the run has the property in the state that it meets. -/
def Along (holds : State → Call → Prop) : State → List Call → Prop
  | _, [] => True
  | state, call :: calls => holds state call ∧ Along holds (machine state call).1 calls

instance decidableAlong (holds : State → Call → Prop)
    [∀ state call, Decidable (holds state call)] :
    ∀ (state : State) (calls : List Call), Decidable (Along machine holds state calls)
  | _, [] => isTrue trivial
  | state, call :: calls =>
      have := decidableAlong holds (machine state call).1 calls
      inferInstanceAs (Decidable (_ ∧ _))

variable {machine} in
theorem Along.call {holds : State → Call → Prop} {state : State} {calls first : List Call}
    (halong : Along machine holds state calls) {call : Call}
    (hfirst : first ++ [call] <+: calls) : holds (run machine state first) call := by
  induction first generalizing state calls with
  | nil =>
      obtain ⟨rest, rfl⟩ := hfirst
      exact halong.1
  | cons head first ih =>
      obtain ⟨rest, rfl⟩ := hfirst
      exact ih halong.2 (List.prefix_append _ rest)

/-- What the replies of such calls have, every entry of the journal has. -/
theorem Along.journal {machine : State → Call → State × Reply}
    {holds : State → Call → Prop} {state : State} {calls : List Call}
    (halong : Along machine holds state calls) {good : Reply → Prop}
    (hreply : ∀ before call, holds before call → good (machine before call).2) :
    ∀ reply ∈ journal machine state calls, good reply := by
  induction calls generalizing state with
  | nil => simp [Journal.journal]
  | cons call calls ih =>
      rw [Journal.journal, List.forall_mem_cons]
      exact ⟨hreply state call halong.1, ih halong.2⟩

/-! ## Invariants -/

section Invariants

variable {machine} {state : State}

/-- Every item that the state holds after a run was there at the start or was introduced
by a call of the run. -/
theorem run_origin {Item : Type*} {holds : State → Item → Prop}
    {introduces : State → Call → Item → Prop}
    (hstep : ∀ before call item, holds (machine before call).1 item →
      holds before item ∨ introduces before call item)
    (calls : List Call) (item : Item) (hitem : holds (run machine state calls) item) :
    holds state item ∨ ∃ first call, first ++ [call] <+: calls ∧
      introduces (run machine state first) call item := by
  induction calls using List.reverseRecOn with
  | nil => exact .inl hitem
  | append_singleton calls call ih =>
      rw [run_snoc] at hitem
      obtain hbefore | hnew := hstep _ call item hitem
      · obtain hstart | ⟨first, earlier, hfirst, hintroduced⟩ := ih hbefore
        · exact .inl hstart
        · exact .inr ⟨first, earlier, hfirst.trans (List.prefix_append calls [call]),
            hintroduced⟩
      · exact .inr ⟨calls, call, List.prefix_refl _, hnew⟩

/-- A preorder that every call respects relates a state to every later one. -/
theorem run_le {precedes : State → State → Prop} (hrefl : ∀ before, precedes before before)
    (htrans : ∀ first second third,
      precedes first second → precedes second third → precedes first third)
    (hstep : ∀ before call, precedes before (machine before call).1)
    (calls : List Call) : precedes state (run machine state calls) := by
  induction calls using List.reverseRecOn with
  | nil => exact hrefl state
  | append_singleton calls call ih =>
      rw [run_snoc]
      exact htrans _ _ _ ih (hstep _ call)

end Invariants

/-! ## Booked quantities -/

variable (quantity : State → ℤ) (amount : Reply → ℤ)

/-- The sum of the amounts of a run. -/
def total (state : State) (calls : List Call) : ℤ :=
  ((journal machine state calls).map amount).sum

theorem total_snoc (state : State) (first : List Call) (call : Call) :
    total machine amount state (first ++ [call]) =
      total machine amount state first +
        amount (machine (run machine state first) call).2 := by
  simp [total, journal_snoc]

theorem total_sub (gained lost : Reply → ℤ) (state : State) (calls : List Call) :
    total machine (fun reply => gained reply - lost reply) state calls =
      total machine gained state calls - total machine lost state calls := by
  rw [total, total, total]
  induction journal machine state calls with
  | nil => rfl
  | cons reply replies ih =>
      simp only [List.map_cons, List.sum_cons, ih]
      ring

/-- The call changes the quantity by the amount of its reply. -/
def Books (state : State) (call : Call) : Prop :=
  quantity (machine state call).1 = quantity state + amount (machine state call).2

variable (state : State) (calls : List Call)

variable {machine quantity amount state calls} in
theorem quantity_run
    (hbooks : ∀ first call, first ++ [call] <+: calls →
      Books machine quantity amount (run machine state first) call) :
    quantity (run machine state calls) =
      quantity state + total machine amount state calls := by
  induction calls using List.reverseRecOn with
  | nil => exact (add_zero _).symm
  | append_singleton calls call ih =>
      have hprior := ih fun first next hfirst =>
        hbooks first next (hfirst.trans (List.prefix_append calls [call]))
      rw [run_snoc, hbooks calls call (List.prefix_refl _), hprior, total_snoc, add_assoc]

/-- The sums from the start are right at every point exactly if every call books. -/
theorem prefixes_booked_iff :
    (∀ first, first <+: calls →
      quantity (run machine state first) =
        quantity state + total machine amount state first) ↔
    ∀ first call, first ++ [call] <+: calls →
      Books machine quantity amount (run machine state first) call := by
  constructor
  · intro hsums first call hfirst
    have hbefore := hsums first ((List.prefix_append first [call]).trans hfirst)
    have hafter := hsums (first ++ [call]) hfirst
    rw [run_snoc, total_snoc] at hafter
    rw [Books]
    linarith
  · intro hbooks first hfirst
    exact quantity_run fun earlier call hearlier =>
      hbooks earlier call (hearlier.trans hfirst)

/-- The same for the sums over segments that consist of certain calls only. -/
theorem segments_booked_iff (certain : Call → Prop) :
    (∀ first segment, first ++ segment <+: calls → (∀ call ∈ segment, certain call) →
      quantity (run machine state (first ++ segment)) =
        quantity (run machine state first) +
          total machine amount (run machine state first) segment) ↔
    ∀ first call, first ++ [call] <+: calls → certain call →
      Books machine quantity amount (run machine state first) call := by
  constructor
  · intro hsums first call hfirst hcertain
    have hstep := hsums first [call] hfirst (by simpa using hcertain)
    rw [run_snoc] at hstep
    simpa [Books, total, journal] using hstep
  · intro hbooks first segment hsegment hcertain
    rw [run_append]
    apply quantity_run
    intro earlier call hearlier
    rw [← run_append]
    apply hbooks (first ++ earlier) call
    · rw [List.append_assoc]
      exact ((List.prefix_append_right_inj first).2 hearlier).trans hsegment
    · exact hcertain call (hearlier.subset (by simp))

end Journal
