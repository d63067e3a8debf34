import Mathlib.Logic.Relation
import Mathlib.Logic.Function.Basic
import Mathlib.Data.List.Basic
import Mathlib.Order.Basic

/-!
# Threads that take locks

Each thread of a pool runs a list of acquisitions and releases.  An acquisition
waits until no thread holds the lock, its own thread included.

`not_deadlocked`: if there is a rank that every thread climbs when it takes a
lock on top of those it holds, no reachable pool has threads that wait in a
cycle.  `reaches_deadlocked_of_crossed`: two threads that take two locks in
opposite orders can come to wait for each other.
-/

namespace LockOrder

universe u v

variable {Thread : Type u} {Lock : Type v}

inductive Action (Lock : Type v) where
  | acquire (lock : Lock)
  | release (lock : Lock)
  deriving DecidableEq

/-- A thread between two actions: the locks it holds and what is left to do. -/
structure Control (Lock : Type v) where
  held : List Lock
  rest : List (Action Lock)

abbrev Pool (Thread : Type u) (Lock : Type v) := Thread → Control Lock

/-- All threads before their first action. -/
def start (program : Thread → List (Action Lock)) : Pool Thread Lock :=
  fun thread => { held := [], rest := program thread }

/-- The thread is about to take the lock. -/
def Control.Wants (control : Control Lock) (lock : Lock) : Prop :=
  ∃ rest, control.rest = .acquire lock :: rest

def Waits (pool : Pool Thread Lock) (waiting holding : Thread) : Prop :=
  ∃ lock, (pool waiting).Wants lock ∧ lock ∈ (pool holding).held

/-- Some threads wait for each other in a cycle. -/
def Deadlocked (pool : Pool Thread Lock) : Prop :=
  ∃ thread, Relation.TransGen (Waits pool) thread thread

theorem deadlocked_of_waits {pool : Pool Thread Lock} {first second : Thread}
    (hfirst : Waits pool first second) (hsecond : Waits pool second first) :
    Deadlocked pool :=
  ⟨first, (Relation.TransGen.single hfirst).tail hsecond⟩

variable [DecidableEq Thread] [DecidableEq Lock]

inductive Step (pool : Pool Thread Lock) : Pool Thread Lock → Prop
  | acquire {thread : Thread} {lock : Lock} {rest : List (Action Lock)}
      (hnext : (pool thread).rest = .acquire lock :: rest)
      (hfree : ∀ other, lock ∉ (pool other).held) :
      Step pool (Function.update pool thread
        { held := lock :: (pool thread).held, rest := rest })
  | release {thread : Thread} {lock : Lock} {rest : List (Action Lock)}
      (hnext : (pool thread).rest = .release lock :: rest) :
      Step pool (Function.update pool thread
        { held := (pool thread).held.erase lock, rest := rest })

abbrev Reaches : Pool Thread Lock → Pool Thread Lock → Prop :=
  Relation.ReflTransGen Step

/-! ## A global order -/

section Order

variable {rank : Lock → ℕ}

/-- Every lock is taken on top of locks of a lower rank. -/
def Ordered (rank : Lock → ℕ) : List Lock → List (Action Lock) → Prop
  | _, [] => True
  | held, .acquire lock :: rest =>
      (∀ lower ∈ held, rank lower < rank lock) ∧ Ordered rank (lock :: held) rest
  | held, .release lock :: rest => Ordered rank (held.erase lock) rest

def PoolOrdered (rank : Lock → ℕ) (pool : Pool Thread Lock) : Prop :=
  ∀ thread, Ordered rank (pool thread).held (pool thread).rest

theorem Step.ordered {pool after : Pool Thread Lock} (hstep : Step pool after)
    (hordered : PoolOrdered rank pool) : PoolOrdered rank after := by
  intro thread
  cases hstep with
  | acquire hnext hfree =>
      rename_i moved lock rest
      have hmoved := hordered moved
      rw [hnext] at hmoved
      by_cases hthread : thread = moved
      · subst hthread
        rw [Function.update_self]
        exact hmoved.2
      · rw [Function.update_of_ne hthread]
        exact hordered thread
  | release hnext =>
      rename_i moved lock rest
      have hmoved := hordered moved
      rw [hnext] at hmoved
      by_cases hthread : thread = moved
      · subst hthread
        rw [Function.update_self]
        exact hmoved
      · rw [Function.update_of_ne hthread]
        exact hordered thread

theorem Reaches.ordered {pool after : Pool Thread Lock} (hreaches : Reaches pool after)
    (hordered : PoolOrdered rank pool) : PoolOrdered rank after := by
  induction hreaches with
  | refl => exact hordered
  | tail _ hstep ih => exact hstep.ordered ih

omit [DecidableEq Thread] in
/-- The wanted locks climb along a chain of waiting threads. -/
theorem rank_lt_of_waits {pool : Pool Thread Lock} (hordered : PoolOrdered rank pool)
    {first last : Thread} (hwaits : Relation.TransGen (Waits pool) first last)
    {wanted : Lock} (hwanted : (pool last).Wants wanted) :
    ∃ lock, (pool first).Wants lock ∧ rank lock < rank wanted := by
  have hclimb : ∀ {waiting holding : Thread} {upper : Lock}, Waits pool waiting holding →
      (pool holding).Wants upper →
        ∃ lock, (pool waiting).Wants lock ∧ rank lock < rank upper := by
    intro waiting holding upper hwait hupper
    obtain ⟨lock, hlock, hheld⟩ := hwait
    obtain ⟨rest, hrest⟩ := hupper
    have hholding := hordered holding
    rw [hrest] at hholding
    exact ⟨lock, hlock, hholding.1 lock hheld⟩
  induction hwaits generalizing wanted with
  | single hwait => exact hclimb hwait hwanted
  | tail _ hwait ih =>
      obtain ⟨middle, hmiddle, hlt⟩ := hclimb hwait hwanted
      obtain ⟨lock, hlock, hlower⟩ := ih hmiddle
      exact ⟨lock, hlock, Nat.lt_trans hlower hlt⟩

omit [DecidableEq Thread] in
theorem not_deadlocked_of_ordered {pool : Pool Thread Lock}
    (hordered : PoolOrdered rank pool) : ¬ Deadlocked pool := by
  rintro ⟨thread, hcycle⟩
  have hwants : ∃ lock, (pool thread).Wants lock := by
    obtain ⟨next, ⟨lock, hlock, -⟩, -⟩ := Relation.TransGen.head'_iff.1 hcycle
    exact ⟨lock, hlock⟩
  obtain ⟨lock, hlock⟩ := hwants
  obtain ⟨other, hother, hlt⟩ := rank_lt_of_waits hordered hcycle hlock
  obtain ⟨rest, hrest⟩ := hlock
  obtain ⟨otherRest, hotherRest⟩ := hother
  rw [hrest, List.cons.injEq, Action.acquire.injEq] at hotherRest
  rw [hotherRest.1] at hlt
  exact Nat.lt_irrefl _ hlt

/-- Programs that follow one order do not deadlock. -/
theorem not_deadlocked {program : Thread → List (Action Lock)}
    (hordered : ∀ thread, Ordered rank [] (program thread)) {pool : Pool Thread Lock}
    (hreaches : Reaches (start program) pool) : ¬ Deadlocked pool :=
  not_deadlocked_of_ordered (Reaches.ordered hreaches hordered)

end Order

/-! ## Running one thread -/

/-- The locks held after some actions, if no lock is taken twice. -/
def exec : List Lock → List (Action Lock) → Option (List Lock)
  | held, [] => some held
  | held, .acquire lock :: rest =>
      if lock ∈ held then none else exec (lock :: held) rest
  | held, .release lock :: rest => exec (held.erase lock) rest

/-- A thread can run ahead as long as no other holds a lock that it takes. -/
theorem reaches_of_exec (actions : List (Action Lock)) {pool : Pool Thread Lock}
    {thread : Thread} {rest : List (Action Lock)} {held : List Lock}
    (hrest : (pool thread).rest = actions ++ rest)
    (hexec : exec (pool thread).held actions = some held)
    (hothers : ∀ other, other ≠ thread → ∀ lock, .acquire lock ∈ actions →
      lock ∉ (pool other).held) :
    Reaches pool (Function.update pool thread { held := held, rest := rest }) := by
  induction actions generalizing pool with
  | nil =>
      have hsame : Function.update pool thread { held := held, rest := rest } = pool := by
        rw [← Option.some.inj hexec, ← show (pool thread).rest = rest from hrest]
        exact Function.update_eq_self thread pool
      rw [hsame]
  | cons action actions ih =>
      have hlater : ∀ control : Control Lock, ∀ other, other ≠ thread → ∀ lock,
          .acquire lock ∈ actions →
            lock ∉ (Function.update pool thread control other).held := by
        intro control other hother lock hlock
        rw [Function.update_of_ne hother]
        exact hothers other hother lock (List.mem_cons_of_mem _ hlock)
      have hahead : ∀ control : Control Lock, control.rest = actions ++ rest →
          exec control.held actions = some held →
          Step pool (Function.update pool thread control) →
          Reaches pool (Function.update pool thread { held := held, rest := rest }) := by
        intro control hcontrol hexecRest hstep
        have hself : Function.update pool thread control thread = control :=
          Function.update_self thread control pool
        have hrun := ih (by rw [hself]; exact hcontrol) (by rw [hself]; exact hexecRest)
          (hlater control)
        rw [Function.update_idem] at hrun
        exact hrun.head hstep
      cases action with
      | acquire lock =>
          rw [exec] at hexec
          split_ifs at hexec with hheld
          have hfree : ∀ other, lock ∉ (pool other).held := by
            intro other
            by_cases hother : other = thread
            · rw [hother]
              exact hheld
            · exact hothers other hother lock List.mem_cons_self
          exact hahead _ rfl hexec (.acquire hrest hfree)
      | release lock => exact hahead _ rfl hexec (.release hrest)

/-- Each of two threads can come to hold the lock that the other takes next, the
second without what the first then holds. -/
theorem reaches_deadlocked_of_crossed {program : Thread → List (Action Lock)}
    {first second : Thread} (hdistinct : second ≠ first)
    {firstActions firstRest secondActions secondRest : List (Action Lock)}
    {firstHeld secondHeld : List Lock} {firstLock secondLock : Lock}
    (hfirst : program first = firstActions ++ .acquire secondLock :: firstRest)
    (hfirstExec : exec [] firstActions = some firstHeld)
    (hfirstLock : firstLock ∈ firstHeld)
    (hsecond : program second = secondActions ++ .acquire firstLock :: secondRest)
    (hsecondExec : exec [] secondActions = some secondHeld)
    (hsecondLock : secondLock ∈ secondHeld)
    (hapart : ∀ lock, .acquire lock ∈ secondActions → lock ∉ firstHeld) :
    ∃ pool, Reaches (start program) pool ∧ Deadlocked pool := by
  let firstWaits : Control Lock :=
    { held := firstHeld, rest := .acquire secondLock :: firstRest }
  let secondWaits : Control Lock :=
    { held := secondHeld, rest := .acquire firstLock :: secondRest }
  let entered := Function.update (start program) first firstWaits
  have hentered : Reaches (start program) entered :=
    reaches_of_exec firstActions hfirst hfirstExec
      fun other _ lock _ => List.not_mem_nil
  have hstarted : ∀ other, other ≠ first → entered other = start program other :=
    fun other hother => Function.update_of_ne hother _ _
  have hcrossed : Reaches entered (Function.update entered second secondWaits) := by
    apply reaches_of_exec secondActions
    · rw [hstarted second hdistinct]
      exact hsecond
    · rw [hstarted second hdistinct]
      exact hsecondExec
    · intro other _ lock hlock
      by_cases hother : other = first
      · rw [hother, show entered first = firstWaits from Function.update_self _ _ _]
        exact hapart lock hlock
      · rw [hstarted other hother]
        exact List.not_mem_nil
  have hlast : Function.update entered second secondWaits second = secondWaits :=
    Function.update_self _ _ _
  have hkept : Function.update entered second secondWaits first = firstWaits := by
    rw [Function.update_of_ne hdistinct.symm]
    exact Function.update_self _ _ _
  have hforward : Waits (Function.update entered second secondWaits) first second :=
    ⟨secondLock, ⟨firstRest, by rw [hkept]⟩, by rw [hlast]; exact hsecondLock⟩
  have hback : Waits (Function.update entered second secondWaits) second first :=
    ⟨firstLock, ⟨secondRest, by rw [hlast]⟩, by rw [hkept]; exact hfirstLock⟩
  exact ⟨_, hentered.trans hcrossed, deadlocked_of_waits hforward hback⟩

end LockOrder
