import OpenHl.Core.Machine

/-!
# Calls one after the other

A fallible function from a state and an input to a state and an output, called on
one input after the other.  A call that answers for another one, state by state,
answers for it in every run (`run_simulates`).  A call that marks the key it fires
and fires no marked key fires none twice (`run_fires_once`).
-/

namespace Calls

open Machine

variable {S T I O E : Type} {call : S → I → Except E (S × O)}

/-- The state after all calls and their outputs; the first failure ends the run. -/
def run (call : S → I → Except E (S × O)) : S → List I → Except E (S × List O)
  | state, [] => .ok (state, [])
  | state, input :: rest => do
      let (after, output) ← call state input
      let (last, outputs) ← run call after rest
      return (last, output :: outputs)

theorem run_cons {state after last : S} {input : I} {output : O} {rest : List I}
    {outputs : List O} (hcall : call state input = .ok (after, output))
    (hrest : run call after rest = .ok (last, outputs)) :
    run call state (input :: rest) = .ok (last, output :: outputs) := by
  rw [run, hcall, ok_bind]
  dsimp only
  rw [hrest, ok_bind]
  rfl

theorem run_cons_eq_ok {state last : S} {input : I} {rest : List I} {outputs : List O}
    (hrun : run call state (input :: rest) = .ok (last, outputs)) :
    ∃ after output others, call state input = .ok (after, output) ∧
      run call after rest = .ok (last, others) ∧ outputs = output :: others := by
  rw [run] at hrun
  obtain ⟨⟨after, output⟩, hcall, hrun⟩ := bind_eq_ok.1 hrun
  obtain ⟨⟨final, others⟩, hrest, hrun⟩ := bind_eq_ok.1 hrun
  obtain ⟨rfl, rfl⟩ := Prod.mk.inj (Except.ok.inj hrun)
  exact ⟨after, output, others, hcall, hrest, rfl⟩

/-- A call that fails in no state ends no run. -/
theorem run_total (htotal : ∀ state input, ∃ result, call state input = .ok result)
    (state : S) (inputs : List I) : ∃ result, run call state inputs = .ok result := by
  induction inputs generalizing state with
  | nil => exact ⟨_, rfl⟩
  | cons input rest ih =>
      obtain ⟨⟨after, output⟩, hcall⟩ := htotal state input
      obtain ⟨⟨last, outputs⟩, hrest⟩ := ih after
      exact ⟨_, run_cons hcall hrest⟩

/-- States in relation stay in relation and give the same outputs. -/
theorem run_simulates {other : T → I → Except E (T × O)} {related : S → T → Prop}
    (hcall : ∀ state image input after output, related state image →
      call state input = .ok (after, output) →
        ∃ imageAfter, other image input = .ok (imageAfter, output) ∧
          related after imageAfter)
    {state last : S} {image : T} {inputs : List I} {outputs : List O}
    (hrelated : related state image) (hrun : run call state inputs = .ok (last, outputs)) :
    ∃ imageLast, run other image inputs = .ok (imageLast, outputs) ∧
      related last imageLast := by
  induction inputs generalizing state image outputs with
  | nil =>
      obtain ⟨rfl, rfl⟩ := Prod.mk.inj (Except.ok.inj hrun)
      exact ⟨image, rfl, hrelated⟩
  | cons input rest ih =>
      obtain ⟨after, output, others, hfirst, hrest, rfl⟩ := run_cons_eq_ok hrun
      obtain ⟨imageAfter, hother, hafter⟩ := hcall _ _ _ _ _ hrelated hfirst
      obtain ⟨imageLast, hlast, hfinal⟩ := ih hafter hrest
      exact ⟨imageLast, run_cons hother hlast, hfinal⟩

/-- What every call gives holds of every output of a run. -/
theorem forall_mem_outputs {holds : O → Prop}
    (hcall : ∀ state input after output, call state input = .ok (after, output) →
      holds output)
    {state last : S} {inputs : List I} {outputs : List O}
    (hrun : run call state inputs = .ok (last, outputs)) :
    ∀ output ∈ outputs, holds output := by
  induction inputs generalizing state outputs with
  | nil =>
      obtain ⟨-, rfl⟩ := Prod.mk.inj (Except.ok.inj hrun)
      exact fun output houtput => absurd houtput List.not_mem_nil
  | cons input rest ih =>
      obtain ⟨after, output, others, hfirst, hrest, rfl⟩ := run_cons_eq_ok hrun
      intro other hother
      rcases List.mem_cons.1 hother with rfl | hother
      · exact hcall _ _ _ _ hfirst
      · exact ih hrest other hother

/-- Marks are never lost and a call fires unmarked keys only, which it marks: then the
keys fired in a run are distinct, and none of them was marked before it. -/
theorem run_fires_once {K : Type} {marked : S → K → Prop} {fired : O → Option K}
    (hkeep : ∀ state input after output, call state input = .ok (after, output) →
      ∀ key, marked state key → marked after key)
    (hfire : ∀ state input after output, call state input = .ok (after, output) →
      ∀ key, fired output = some key → ¬ marked state key ∧ marked after key)
    {state last : S} {inputs : List I} {outputs : List O}
    (hrun : run call state inputs = .ok (last, outputs)) :
    (outputs.filterMap fired).Nodup ∧
      ∀ key ∈ outputs.filterMap fired, ¬ marked state key := by
  induction inputs generalizing state outputs with
  | nil =>
      obtain ⟨-, rfl⟩ := Prod.mk.inj (Except.ok.inj hrun)
      exact ⟨List.nodup_nil, fun key hkey => absurd hkey List.not_mem_nil⟩
  | cons input rest ih =>
      obtain ⟨after, output, others, hfirst, hrest, rfl⟩ := run_cons_eq_ok hrun
      obtain ⟨hdistinct, hfresh⟩ := ih hrest
      have hold : ∀ key ∈ others.filterMap fired, ¬ marked state key :=
        fun key hkey hmarked =>
          hfresh key hkey (hkeep _ _ _ _ hfirst key hmarked)
      cases hfired : fired output with
      | none =>
          rw [List.filterMap_cons_none hfired]
          exact ⟨hdistinct, hold⟩
      | some key =>
          obtain ⟨hnew, hmark⟩ := hfire _ _ _ _ hfirst key hfired
          rw [List.filterMap_cons_some hfired]
          refine ⟨List.nodup_cons.2 ⟨fun hkey => hfresh key hkey hmark, hdistinct⟩, ?_⟩
          intro other hother
          rcases List.mem_cons.1 hother with rfl | hother
          · exact hnew
          · exact hold other hother

end Calls
